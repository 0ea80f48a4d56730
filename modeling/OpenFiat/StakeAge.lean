import OpenFiat.StakeVault

/-!
# The age of a stake

The age of a stake counts from the time at which its active part last became positive.
Six instructions can bring that part to or from zero, or add the field to an account of
the earlier layout. `HeldSince` says what an age has to mean: some step at the recorded
time began the stake, and the stake has been positive in every state since. Each step
keeps this, so a stake that meets an age requirement was held that long.
-/
namespace OpenFiat.StakeAge
open GuardedResult FiniteTable ProgramAddress StakingAccounts
open ChainWorld StakingInstructions TransactionRuns ChainSteps LedgerCustody
open StakingSteps StakeVault

def Staked (key : Pubkey × Role) (w : World) : Prop :=
  ∃ s, w.stakeAccounts.lookup key = some s ∧ 0 < s.amount

/-- In the run over `txs`, a step at time `t` was followed by a positive stake in every
state from the one after it to the last. -/
def HeldSince (P : Platform) (w₀ : World) (txs : List Instruction) (key : Pubkey × Role)
    (t : ℤ) : Prop :=
  ∃ before ix since, txs = before ++ ix :: since ∧ (run (step P) w₀ before).clock = t ∧
    Throughout (step P) (Staked key) (run (step P) w₀ (before ++ [ix])) since

/-- On a positive clock, the recorded times are zero exactly for empty stakes, and what
they say of the others is true. -/
structure AgesKept (P : Platform) (w₀ : World) (txs : List Instruction) : Prop where
  tokens : Custodial (run (step P) w₀ txs).tokens
  clock : 0 < (run (step P) w₀ txs).clock
  empty : ∀ key s t, (run (step P) w₀ txs).stakeAccounts.lookup key = some s →
    s.firstStakedAt = some t → (s.amount = 0 ↔ t = 0)
  held : ∀ key s t, (run (step P) w₀ txs).stakeAccounts.lookup key = some s →
    s.firstStakedAt = some t → t ≠ 0 → HeldSince P w₀ txs key t

section
variable {P : Platform} {w₀ : World} {txs : List Instruction} {ix : Instruction}
  {key : Pubkey × Role} {t : ℤ}

theorem heldSince_concat (h : HeldSince P w₀ txs key t)
    (hnow : Staked key (run (step P) w₀ (txs ++ [ix]))) : HeldSince P w₀ (txs ++ [ix]) key t := by
  obtain ⟨before, ix₀, since, rfl, hclock, hheld⟩ := h
  refine ⟨before, ix₀, since ++ [ix], ?_, hclock, ?_⟩
  · simp
  · refine hheld.concat ?_
    rwa [← run_append, List.append_assoc, List.singleton_append, ← List.cons_append,
      ← List.append_assoc]

/-- A recorded age is cleared with the stake, starts now, or was there before on a stake
that was and stays positive or was and stays empty. -/
theorem age_of_step {w w' : World} {s s' : StakeAccount} (h : StakeStep w ix w' key s s')
    (ht : s'.firstStakedAt = some t) :
    (s'.amount = 0 ∧ t = 0) ∨ (0 < s'.amount ∧ t = w.clock) ∨
      (s.firstStakedAt = some t ∧ (s'.amount = 0 ↔ s.amount = 0)) := by
  have hreduced {n : ℕ} (hage : ageAfter (s.amount - n) s = some t) :
      (s.amount - n = 0 ∧ t = 0) ∨ (0 < s.amount - n ∧ t = w.clock) ∨
        (s.firstStakedAt = some t ∧ (s.amount - n = 0 ↔ s.amount = 0)) := by
    unfold ageAfter at hage
    split_ifs at hage with hzero
    · exact .inl ⟨hzero, (Option.some.inj hage).symm⟩
    · exact .inr (.inr ⟨hage, by omega⟩)
  cases h with
  | staked =>
    dsimp only at ht ⊢
    split_ifs at ht with hentered
    · exact .inr (.inl ⟨hentered.2, (Option.some.inj ht).symm⟩)
    · exact .inr (.inr ⟨ht, by omega⟩)
  | withdrawn => exact .inr (.inr ⟨ht, Iff.rfl⟩)
  | kept _ hkept =>
    obtain rfl | ⟨-, rfl⟩ := hkept
    · exact .inr (.inr ⟨ht, Iff.rfl⟩)
    · have hage := Option.some.inj ht
      dsimp only
      split_ifs at hage with hpos
      · exact .inr (.inl ⟨hpos, hage.symm⟩)
      · exact .inl ⟨by omega, hage.symm⟩
  | _ => exact hreduced ht

theorem AgesKept.staked (h : AgesKept P w₀ txs) {s : StakeAccount}
    (hs : (run (step P) w₀ txs).stakeAccounts.lookup key = some s)
    (ht : s.firstStakedAt = some t) (hne : t ≠ 0) : Staked key (run (step P) w₀ txs) := by
  refine ⟨s, hs, Nat.pos_of_ne_zero ?_⟩
  intro hzero
  exact hne ((h.empty key s t hs ht).mp hzero)

theorem agesKept_concat (h : AgesKept P w₀ txs)
    (hclock : (run (step P) w₀ txs).clock ≤ (run (step P) w₀ (txs ++ [ix])).clock) :
    AgesKept P w₀ (txs ++ [ix]) := by
  cases hstep : step P (run (step P) w₀ txs) ix with
  | error =>
    have hsame : run (step P) w₀ (txs ++ [ix]) = run (step P) w₀ txs := by
      rw [run_concat, apply_error hstep]
    refine ⟨hsame ▸ h.tokens, hsame ▸ h.clock, hsame ▸ h.empty, ?_⟩
    intro key s t hs ht hne
    rw [hsame] at hs
    exact heldSince_concat (h.held key s t hs ht hne) (hsame ▸ h.staked hs ht hne)
  | ok w' =>
    have hnext : run (step P) w₀ (txs ++ [ix]) = w' := by
      rw [run_concat, apply_ok hstep]
    -- the cases of an age, once the account is known to be there before the step
    have hages (key : Pubkey × Role) (s' : StakeAccount) (t : ℤ)
        (hs' : w'.stakeAccounts.lookup key = some s') (ht : s'.firstStakedAt = some t) :
        (s'.amount = 0 ↔ t = 0) ∧ (t ≠ 0 → HeldSince P w₀ (txs ++ [ix]) key t) := by
      have hstaked (hpos : 0 < s'.amount) : Staked key (run (step P) w₀ (txs ++ [ix])) :=
        ⟨s', hnext ▸ hs', hpos⟩
      obtain rfl | ⟨s, hs, hkept⟩ := (step_stakes h.tokens hstep).origin hs'
      · obtain rfl := Option.some.inj ht
        exact ⟨iff_of_true rfl rfl, fun hne => absurd rfl hne⟩
      have hage : (s'.amount = 0 ∧ t = 0) ∨ (0 < s'.amount ∧ t = (run (step P) w₀ txs).clock) ∨
          (s.firstStakedAt = some t ∧ (s'.amount = 0 ↔ s.amount = 0)) := by
        obtain rfl | hchanged := hkept
        · exact .inr (.inr ⟨ht, Iff.rfl⟩)
        · exact age_of_step hchanged ht
      obtain ⟨hzero, rfl⟩ | ⟨hpos, rfl⟩ | ⟨hs₀, hamount⟩ := hage
      · exact ⟨iff_of_true hzero rfl, fun hne => absurd rfl hne⟩
      · exact ⟨iff_of_false hpos.ne' h.clock.ne', fun _ =>
          ⟨txs, ix, [], rfl, rfl, throughout_nil.mpr (hstaked hpos)⟩⟩
      · have hempty := h.empty key s t hs hs₀
        refine ⟨hamount.trans hempty, fun hne => ?_⟩
        have hpos : 0 < s'.amount := Nat.pos_of_ne_zero fun hzero =>
          hne (hempty.mp (hamount.mp hzero))
        exact heldSince_concat (h.held key s t hs hs₀ hne) (hstaked hpos)
    refine ⟨hnext ▸ (step_headers hstep).custodial h.tokens, h.clock.trans_le hclock, ?_, ?_⟩
    · intro key s t hs ht
      exact (hages key s t (hnext ▸ hs) ht).1
    · intro key s t hs ht
      exact (hages key s t (hnext ▸ hs) ht).2

theorem run_agesKept (hc : Custodial w₀.tokens) (hclock : 0 < w₀.clock)
    (hold : ∀ key s, w₀.stakeAccounts.lookup key = some s → s.firstStakedAt = none)
    (txs : List Instruction) (hforward : ∀ t ∈ transitions (step P) w₀ txs, ClockForward t) :
    AgesKept P w₀ txs := by
  induction txs using List.reverseRecOn with
  | nil =>
    refine ⟨hc, hclock, fun key s t hs ht => ?_, fun key s t hs ht => ?_⟩
    · cases (hold key s hs).symm.trans ht
    · cases (hold key s hs).symm.trans ht
  | append_singleton txs ix ih =>
    rw [transitions_append] at hforward
    refine agesKept_concat (ih fun t ht => hforward t (List.mem_append_left _ ht)) ?_
    rw [run_concat]
    cases hstep : step P (run (step P) w₀ txs) ix with
    | error => rw [apply_error hstep]
    | ok =>
      simp only [transitions, hstep] at hforward
      rw [apply_ok hstep]
      exact hforward _ (List.mem_append_right _ (List.mem_singleton.mpr rfl))

theorem meetsStakeAge_pos {s : StakeAccount} {now a : ℤ} (ha : 0 < a)
    (h : s.meetsStakeAge now a) :
    ∃ t, s.firstStakedAt = some t ∧ t ≠ 0 ∧ a ≤ now - t := by
  rcases h with h | ⟨age, hage, hle⟩
  · exact absurd h (not_le.mpr ha)
  unfold StakeAccount.stakeAgeSecs at hage
  split at hage
  · next t ht =>
      split_ifs at hage with hnone
      · cases hage
      obtain rfl := Option.some.inj hage
      refine ⟨t, ht, fun hzero => hnone (.inr hzero), ?_⟩
      unfold saturatingSubI64 at hle
      omega
  · cases hage

end

/-- On a positive clock that never goes back, from a chain on which every stake account
is still of the layout without an age: after any run, the recorded time of an account is
zero exactly when its stake is, and never negative. A positive time is the time of a step
since which the stake has been positive in every state, so an account that meets a
positive age requirement has held a stake through all of it. -/
theorem stake_age_sound (P : Platform) (w₀ : World) (hc : Custodial w₀.tokens)
    (hclock : 0 < w₀.clock)
    (hold : ∀ key s, w₀.stakeAccounts.lookup key = some s → s.firstStakedAt = none)
    (txs : List Instruction) (hforward : ∀ t ∈ transitions (step P) w₀ txs, ClockForward t)
    (key : Pubkey × Role) (s : StakeAccount) (t : ℤ)
    (hs : (run (step P) w₀ txs).stakeAccounts.lookup key = some s)
    (ht : s.firstStakedAt = some t) :
    (s.amount = 0 ↔ t = 0) ∧ 0 ≤ t ∧
    (0 < t → ∃ before ix since, txs = before ++ ix :: since ∧
      (run (step P) w₀ before).clock = t ∧
      ∀ mid, mid <+: since → ∃ s',
        (run (step P) w₀ (before ++ ix :: mid)).stakeAccounts.lookup key =
        some s' ∧ 0 < s'.amount) ∧
    ∀ a, 0 < a → s.meetsStakeAge (run (step P) w₀ txs).clock a →
      ∃ before ix since, txs = before ++ ix :: since ∧
        (run (step P) w₀ before).clock + a ≤ (run (step P) w₀ txs).clock ∧
        ∀ mid, mid <+: since → ∃ s', (run (step P) w₀ (before ++ ix :: mid)).stakeAccounts.lookup
          key = some s' ∧ 0 < s'.amount := by
  have h := run_agesKept hc hclock hold txs hforward
  have hheld (hne : t ≠ 0) : ∃ before ix since, txs = before ++ ix :: since ∧
      (run (step P) w₀ before).clock = t ∧
      ∀ mid, mid <+: since → ∃ s',
        (run (step P) w₀ (before ++ ix :: mid)).stakeAccounts.lookup key =
        some s' ∧ 0 < s'.amount := by
    obtain ⟨before, ix, since, htxs, hbegan, hthrough⟩ := h.held key s t hs ht hne
    refine ⟨before, ix, since, htxs, hbegan, fun mid hmid => ?_⟩
    have hat := hthrough mid hmid
    rwa [← run_append, List.append_assoc] at hat
  refine ⟨h.empty key s t hs ht, ?_, fun hpos => hheld hpos.ne', ?_⟩
  · by_cases hne : t = 0
    · exact hne.ge
    obtain ⟨before, ix, since, htxs, hbegan, -⟩ := hheld hne
    have hforward' : ∀ t ∈ transitions (step P) w₀ before, ClockForward t := by
      rw [htxs, transitions_append] at hforward
      exact fun t ht => hforward t (List.mem_append_left _ ht)
    rw [← hbegan]
    exact (run_agesKept hc hclock hold before hforward').clock.le
  · intro a ha hmeets
    obtain ⟨t', ht', hne, hle⟩ := meetsStakeAge_pos ha hmeets
    obtain rfl := Option.mem_unique ht ht'
    obtain ⟨before, ix, since, htxs, hbegan, hthrough⟩ := hheld hne
    exact ⟨before, ix, since, htxs, by omega, hthrough⟩

def upgradedLater : World := { upgradedStaking with clock := 1000 }

/-- Wallet 1's stake is migrated at 1000 and topped up at 1060; the time is then 1100. -/
def migrateAndTopUp : List Instruction :=
  [.migrateStakingConfig 0 fun _ => 0,
    .migrateStakeAccount (.wallet 1) .merchant,
    .advanceClock 1060 emptyChain.slotHashes,
    .stake 1 .merchant (.wallet 101) 50,
    .advanceClock 1100 emptyChain.slotHashes]

/-- The topped-up stake meets an age of 100 and was held from the migration on. -/
theorem stake_age_sound_migrated :
    (⟨.wallet 1, .merchant, 150, 0, 0, 0, 0, some 1000⟩ : StakeAccount).meetsStakeAge 1100 100 ∧
    ∃ before ix since, migrateAndTopUp = before ++ ix :: since ∧
      (run (step recordedPlatform) upgradedLater before).clock + 100 ≤
        (run (step recordedPlatform) upgradedLater migrateAndTopUp).clock ∧
      ∀ mid, mid <+: since → ∃ s', (run (step recordedPlatform) upgradedLater
        (before ++ ix :: mid)).stakeAccounts.lookup (.wallet 1, .merchant) = some s' ∧
          0 < s'.amount := by
  have hold : ∀ key s, upgradedLater.stakeAccounts.lookup key = some s →
      s.firstStakedAt = none := by
    exact Table.forall_insert (Table.forall_of_empty rfl) rfl
  have hclock : (run (step recordedPlatform) upgradedLater migrateAndTopUp).clock = 1100 := by
    decide +kernel
  obtain ⟨-, -, -, hmeets⟩ := stake_age_sound recordedPlatform upgradedLater
    (run_custodial genesis_emptyChain _) (by decide) hold migrateAndTopUp (by decide +kernel)
    (.wallet 1, .merchant) ⟨.wallet 1, .merchant, 150, 0, 0, 0, 0, some 1000⟩ 1000
    (by decide +kernel) rfl
  have hage : (⟨.wallet 1, .merchant, 150, 0, 0, 0, 0, some 1000⟩ : StakeAccount).meetsStakeAge
      1100 100 := by decide +kernel
  exact ⟨hage, hmeets 100 (by decide) (hclock ▸ hage)⟩

end OpenFiat.StakeAge
