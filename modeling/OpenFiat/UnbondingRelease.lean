import OpenFiat.StakingSteps

/-!
# Release of unbonding stake

All unbonding tokens of an account share one release time, which every request sets
to the current time plus the period of the role. A request therefore keeps the tokens
of earlier requests locked only if it does not move the release back. Where every
request that finds tokens unbonding keeps their release, no withdrawal pays a token
before the time that its own request set; a period that was shortened in between lets
a request of nothing release everything early.
-/
namespace OpenFiat.UnbondingRelease
open ProgramAddress StakingAccounts
open ChainWorld StakingInstructions TransactionRuns ChainSteps LedgerCustody
open StakingSteps

def periodFor (w : World) (role : Role) : Option ℤ :=
  match w.stakingConfig with
  | none => none
  | some c =>
    match c.unbondingPeriods with
    | .byRole secs => some (secs role)
    | .single _ => none

def unbondingOf (w : World) (key : Pubkey × Role) : ℕ :=
  match w.stakeAccounts.lookup key with
  | none => 0
  | some s => s.unbondingAmount

def requestOf : Instruction → Option (ℕ × Role)
  | .requestUnstake owner role _ => some (owner, role)
  | _ => none

/-- A request that finds tokens unbonding sets no earlier release than the one in force. -/
def KeepsRelease (t : Transition World Instruction) : Prop :=
  ∀ r ∈ requestOf t.label, ∀ s ∈ t.before.stakeAccounts.lookup (.wallet r.1, r.2),
    ∀ p ∈ periodFor t.before r.2,
      0 < s.unbondingAmount → s.unbondingReleaseAt ≤ t.before.clock + p

instance (t : Transition World Instruction) : Decidable (KeepsRelease t) :=
  inferInstanceAs (Decidable (∀ r ∈ requestOf t.label, _))

/-- The tokens unbonding under `key` are not released before `due`. -/
structure LockedUntil (key : Pubkey × Role) (due : ℤ) (w : World) : Prop where
  tokens : Custodial w.tokens
  release : ∃ s, w.stakeAccounts.lookup key = some s ∧ due ≤ s.unbondingReleaseAt

section
variable {P : Platform} {w w' : World} {ix : Instruction} {key : Pubkey × Role} {due : ℤ}

theorem periodFor_eq {c : StakingConfig} {secs : Role → ℤ} (hc : w.stakingConfig = some c)
    (hsecs : c.unbondingPeriods = .byRole secs) (role : Role) :
    periodFor w role = some (secs role) := by
  simp only [periodFor, hc, hsecs]

theorem unbondingOf_pos (h : 0 < unbondingOf w key) :
    ∃ s, w.stakeAccounts.lookup key = some s ∧ 0 < s.unbondingAmount := by
  unfold unbondingOf at h
  split at h
  · cases h
  · next s hs => exact ⟨s, hs, h⟩

theorem request_locks (hc : Custodial w.tokens) {owner : ℕ} {role : Role} {n : ℕ} {p : ℤ}
    (hp : periodFor w role = some p) (h : step P w (.requestUnstake owner role n) = .ok w') :
    LockedUntil (.wallet owner, role) (w.clock + p) w' := by
  have htokens := (step_headers h).custodial hc
  obtain ⟨s, r, -, -, -, ⟨c, secs, hconfig, hsecs, -, hr⟩, rfl⟩ :=
    requestUnstake_ok (step_ok.mp h).2
  rw [periodFor_eq hconfig hsecs] at hp
  obtain rfl := Option.some.inj hp
  exact ⟨htokens, _, Finmap.lookup_insert _, hr.ge⟩

/-- While tokens are unbonding, no step that keeps their release unlocks them. -/
theorem step_lockedUntil (hbefore : 0 < unbondingOf w key) (hafter : 0 < unbondingOf w' key)
    (hw : LockedUntil key due w) (h : step P w ix = .ok w') (hkeeps : KeepsRelease ⟨w, ix, w'⟩) :
    LockedUntil key due w' := by
  obtain ⟨s, hs, hpos⟩ := unbondingOf_pos hbefore
  obtain ⟨s', hs', hpos'⟩ := unbondingOf_pos hafter
  have hdue : due ≤ s.unbondingReleaseAt := by
    obtain ⟨s₁, hs₁, hdue⟩ := hw.release
    obtain rfl := Option.mem_unique hs hs₁
    exact hdue
  refine ⟨(step_headers h).custodial hw.tokens, s', hs', ?_⟩
  obtain rfl | ⟨s₁, hs₁, rfl | hstep⟩ := (step_stakes hw.tokens h).origin hs'
  · cases hpos'
  · exact Option.mem_unique hs hs₁ ▸ hdue
  obtain rfl := Option.mem_unique hs hs₁
  cases hstep with
  | @unbonded owner role n c secs hix hkey hconfig hsecs =>
    subst hkey
    have hkept := hkeeps (owner, role) (hix ▸ rfl) s hs (secs role)
      (periodFor_eq hconfig hsecs role) hpos
    exact hdue.trans hkept
  | withdrawn => cases hpos'
  | _ => exact hdue

theorem withdraw_due {owner : ℕ} {role : Role} {target : Pubkey}
    (hw : LockedUntil (.wallet owner, role) due w)
    (h : step P w (.withdrawUnstaked owner role target) = .ok w') : due ≤ w.clock := by
  obtain ⟨c, s, L, -, hs, -, -, ⟨-, hreleased⟩, -⟩ := withdrawUnstaked_ok (step_ok.mp h).2
  obtain ⟨s₁, hs₁, hdue⟩ := hw.release
  obtain rfl := Option.mem_unique hs hs₁
  exact hdue.trans hreleased

end

/-- A request of `n` tokens under the period `p`, followed by any steps that leave
tokens unbonding throughout, so that some of the `n` may still be among them, and a
withdrawal: if every request of the run keeps the release it finds, the withdrawal
comes no earlier than the period after the request. -/
theorem unbonding_not_released_early (P : Platform) (w₀ : World) (hc : Custodial w₀.tokens)
    (pre mid : List Instruction) (owner : ℕ) (role : Role) (n : ℕ) (p : ℤ) (target : Pubkey)
    (hkeeps : ∀ t ∈ transitions (step P) w₀ (pre ++ .requestUnstake owner role n :: mid),
      KeepsRelease t)
    (hp : periodFor (run (step P) w₀ pre) role = some p)
    (hrequest : (step P (run (step P) w₀ pre) (.requestUnstake owner role n)).isOk = true)
    (hheld : Throughout (step P) (fun w => 0 < unbondingOf w (.wallet owner, role))
      (run (step P) w₀ (pre ++ [.requestUnstake owner role n])) mid)
    (hpaid : (step P (run (step P) w₀ (pre ++ .requestUnstake owner role n :: mid))
      (.withdrawUnstaked owner role target)).isOk = true) :
    (run (step P) w₀ pre).clock + p ≤
      (run (step P) w₀ (pre ++ .requestUnstake owner role n :: mid)).clock := by
  have hsplit : pre ++ .requestUnstake owner role n :: mid =
      (pre ++ [.requestUnstake owner role n]) ++ mid := by
    rw [List.append_assoc, List.singleton_append]
  have hstep := step_eq_apply hrequest
  rw [hsplit] at hkeeps hpaid ⊢
  rw [transitions_append] at hkeeps
  rw [run_append] at hpaid ⊢
  have hlocked := request_locks ((run_headers w₀ pre).custodial hc) hp hstep
  rw [← run_concat] at hlocked
  have hmid := run_invariant_throughout (fun _ _ _ hb ha hw h hk => step_lockedUntil hb ha hw h hk)
    hlocked hheld fun t ht => hkeeps t (List.mem_append_right _ ht)
  exact withdraw_due hmid (step_eq_apply hpaid)

/-- Wallet 30 stakes 10 as an arbitrator under a period of 60, and the slash destination
exists. -/
def stakedTen : List Instruction :=
  stakeArbitrators [(30, 10)] ++ [.openTokenAccount (.wallet 91) (.wallet 50) (.wallet 9)]

def unbondTheRest : List Instruction :=
  [.advanceClock 30 emptyChain.slotHashes, .requestUnstake 30 .arbitrator 6,
    .advanceClock 90 emptyChain.slotHashes]

/-- The withdrawal succeeds at 90, when the first request is long due. -/
theorem unbonding_not_released_early_twice :
    (step recordedPlatform (chainAfter
      (stakedTen ++ .requestUnstake 30 .arbitrator 4 :: unbondTheRest))
      (.withdrawUnstaked 30 .arbitrator (.wallet 130))).isOk = true ∧
    (chainAfter stakedTen).clock + 60 ≤
      (chainAfter (stakedTen ++ .requestUnstake 30 .arbitrator 4 :: unbondTheRest)).clock :=
  have hpaid := by decide +kernel
  ⟨hpaid, unbonding_not_released_early recordedPlatform emptyChain
    (custodial_of_genesis genesis_emptyChain) stakedTen unbondTheRest 30 .arbitrator 4 60
    (.wallet 130) (by decide +kernel) (by decide +kernel) (by decide +kernel)
    (throughout_iff_inits.mpr (by decide +kernel)) hpaid⟩

/-- The period is shortened to a second and a request of nothing follows. -/
def shortenPeriod : List Instruction :=
  [.updateStakingConfig 0 (.wallet 91) ⟨fun _ => 1, fun _ => 1, 1000, .wallet 5, .wallet 6⟩,
    .requestUnstake 30 .arbitrator 0,
    .advanceClock 1 emptyChain.slotHashes]

/-- All ten tokens are requested under a period of 60 and paid a second later, on a
clock that never goes back. -/
theorem unbonding_released_early :
    (∀ t ∈ transitions (step recordedPlatform) emptyChain
      (stakedTen ++ .requestUnstake 30 .arbitrator 10 :: shortenPeriod), ClockForward t) ∧
    periodFor (chainAfter stakedTen) .arbitrator = some 60 ∧
    (step recordedPlatform (chainAfter stakedTen)
      (.requestUnstake 30 .arbitrator 10)).isOk = true ∧
    Throughout (step recordedPlatform) (fun w => unbondingOf w (.wallet 30, .arbitrator) = 10)
      (chainAfter (stakedTen ++ [.requestUnstake 30 .arbitrator 10])) shortenPeriod ∧
    (∃ w', step recordedPlatform (chainAfter
      (stakedTen ++ .requestUnstake 30 .arbitrator 10 :: shortenPeriod))
        (.withdrawUnstaked 30 .arbitrator (.wallet 130)) = .ok w' ∧
      w'.tokens.balance (.wallet 130) = 10) ∧
    (chainAfter (stakedTen ++ .requestUnstake 30 .arbitrator 10 :: shortenPeriod)).clock <
      (chainAfter stakedTen).clock + 60 :=
  ⟨by decide +kernel, by decide +kernel, by decide +kernel,
    throughout_iff_inits.mpr (by decide +kernel),
    ⟨_, step_eq_apply (by decide +kernel), by decide +kernel⟩, by decide +kernel⟩

end OpenFiat.UnbondingRelease
