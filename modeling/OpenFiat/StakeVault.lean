import OpenFiat.StakingSteps

/-!
# Solvency of the stake vault

One token account backs the stakes of all wallets in all roles. A stake counts with
its active and its unbonding part. `StakeStep.exact` says that a step changes this
sum for one account by exactly the stake it brings to the vault or pays out of it;
the total over all accounts follows, and the vault covers it in every state of a run.
Rewards are kept in another vault and never count.
-/
namespace OpenFiat.StakeVault
open GuardedResult FiniteTable TokenLedger ProgramAddress StakingAccounts
open ChainWorld StakingInstructions TransactionRuns ChainSteps LedgerCustody StakingSteps
open TokenLedger.Ledger

def stakeHeld (s : StakeAccount) : ℕ := s.amount + s.unbondingAmount

def stakeTotal (w : World) : ℕ := Table.total (fun _ s => stakeHeld s) w.stakeAccounts

def transfersOf (t : Transition World Instruction) : List (Transfer Pubkey) :=
  t.after.tokens.history.drop t.before.tokens.history.length

def stakeIn (t : Transition World Instruction) : ℕ :=
  if takesStake t.label then Ledger.inflow .stakeVault (transfersOf t) else 0

def stakeOut (t : Transition World Instruction) : ℕ := Ledger.outflow .stakeVault (transfersOf t)

/-- The vault keeps what a step stakes, but for what the step pays out. -/
def HoldsStake (w : World) (ix : Instruction) (w' : World) : Prop :=
  w.tokens.balance .stakeVault + stakeIn ⟨w, ix, w'⟩ ≤
    w'.tokens.balance .stakeVault + stakeOut ⟨w, ix, w'⟩

/-- A vault that backs all stakes, whose amounts are 64-bit words. -/
structure StakesBacked (w : World) : Prop where
  tokens : Custodial w.tokens
  amounts : ∀ key s, w.stakeAccounts.lookup key = some s → s.amount < 2 ^ 64
  covered : stakeTotal w ≤ w.tokens.balance .stakeVault

section
variable {P : Platform} {w w' : World} {ix : Instruction} {key : Pubkey × Role}
  {s s' : StakeAccount}

variable {ms : List (Transfer Pubkey)}

theorem transfersOf_of_history (h : w'.tokens.history = w.tokens.history ++ ms) :
    transfersOf ⟨w, ix, w'⟩ = ms := by
  rw [transfersOf, h, List.drop_left]

theorem stakeIn_eq_zero (h : takesStake ix = false) : stakeIn ⟨w, ix, w'⟩ = 0 := by
  rw [stakeIn, h]
  rfl

theorem stakeOut_of_moved (h : Ledger.Moved ms w.tokens w'.tokens) :
    stakeOut ⟨w, ix, w'⟩ = outflow .stakeVault ms := by
  rw [stakeOut, transfersOf_of_history h.history]

theorem stakeOut_of_kept (h : Ledger.Kept (· = .stakeVault) w.tokens w'.tokens) :
    stakeOut ⟨w, ix, w'⟩ = 0 := by
  obtain ⟨ms, hms, hsource⟩ := h.history
  rw [stakeOut, transfersOf_of_history hms]
  exact outflow_eq_zero hsource

theorem balance_of_moved (h : Ledger.Moved ms w.tokens w'.tokens) : HoldsStake w ix w' := by
  have hbalance := h.balance .stakeVault
  rw [HoldsStake, stakeOut_of_moved h, stakeIn, transfersOf_of_history h.history]
  split_ifs
  · exact hbalance.ge
  · omega

theorem balance_of_kept (hix : takesStake ix = false)
    (h : Ledger.Kept (· = .stakeVault) w.tokens w'.tokens) : HoldsStake w ix w' := by
  rw [HoldsStake, stakeIn_eq_zero hix, stakeOut_of_kept h]
  exact h.balance _ rfl

theorem takesStake_of_stakeOf (h : stakeOf ix = none) : takesStake ix = false := by
  cases ix with
  | stake => cases h
  | _ => rfl

theorem slashAmount_eq (c : StakingConfig) {amount : ℕ} (h : amount < 2 ^ 64) :
    slashAmount c amount = amount * c.slashBps / 10000 := by
  have hle : amount * c.slashBps / bpsDenominator ≤ amount := by
    refine Nat.div_le_of_le_mul ?_
    rw [Nat.mul_comm]
    exact Nat.mul_le_mul_right amount c.slashBps_le
  exact Nat.mod_eq_of_lt (hle.trans_lt h)

section
variable (h : StakeStep w ix w' key s s')
include h

theorem StakeStep.exact :
    stakeHeld s' + stakeOut ⟨w, ix, w'⟩ = stakeHeld s + stakeIn ⟨w, ix, w'⟩ := by
  cases h with
  | @staked owner role source n hix _ hsource hmoved =>
    have hin : stakeIn ⟨w, ix, w'⟩ = n := by
      rw [stakeIn, transfersOf_of_history hmoved.history, hix]
      simp [takesStake]
    have hout : stakeOut ⟨w, ix, w'⟩ = 0 := by
      rw [stakeOut_of_moved hmoved, outflow_cons, if_neg hsource, outflow_nil]
    simp only [stakeHeld]
    omega
  | unbonded hix _ _ _ hn htokens =>
    have hkept : Ledger.Kept (· = .stakeVault) w.tokens w'.tokens := htokens ▸ .refl _
    rw [stakeIn_eq_zero (hix ▸ rfl), stakeOut_of_kept hkept]
    simp only [stakeHeld]
    omega
  | withdrawn hix _ hmoved =>
    rw [stakeIn_eq_zero (hix ▸ rfl), stakeOut_of_moved hmoved]
    simp [stakeHeld]
  | @slashed _ _ _ c hix hmoved =>
    have hle := slashAmount_le c s.amount
    rw [stakeIn_eq_zero (hix ▸ rfl), stakeOut_of_moved hmoved, outflow_payments,
      if_pos rfl]
    simp only [stakeHeld, List.map_cons, List.map_nil, List.sum_cons, List.sum_nil]
    omega
  | @recovered _ _ due hix hmoved =>
    have hunbonding : fromUnbonding due s ≤ s.unbondingAmount := min_le_right _ _
    have hactive : fromActive due s ≤ s.amount := min_le_right _ _
    rw [stakeIn_eq_zero (hix ▸ rfl), stakeOut_of_moved hmoved]
    simp only [stakeHeld, outflow_cons, outflow_nil, if_true]
    omega
  | kept hix _ hkept =>
    rw [stakeIn_eq_zero hix, stakeOut_of_kept hkept]
    rfl

theorem StakeStep.balance_le : HoldsStake w ix w' := by
  cases h with
  | staked _ _ _ hmoved | withdrawn _ _ hmoved | slashed _ hmoved | recovered _ hmoved =>
    exact balance_of_moved hmoved
  | unbonded hix _ _ _ _ htokens => exact balance_of_kept (hix ▸ rfl) (htokens ▸ .refl _)
  | kept hix _ hkept => exact balance_of_kept hix hkept

theorem StakeStep.amount_lt (hs : s.amount < 2 ^ 64) :
    s'.amount < 2 ^ 64 := by
  cases h with
  | staked _ hn => exact hn
  | withdrawn | kept => exact hs
  | _ => exact (Nat.sub_le _ _).trans_lt hs

theorem StakeStep.slashedTotal_le :
    s.slashedTotal ≤ s'.slashedTotal := by
  cases h with
  | slashed => exact Nat.le_add_right _ _
  | _ => exact le_rfl

end

theorem StakesChange.exact (h : StakesChange w ix w') :
    stakeTotal w' + stakeOut ⟨w, ix, w'⟩ = stakeTotal w + stakeIn ⟨w, ix, w'⟩ := by
  cases h with
  | outside hix hstakes hkept =>
    rw [stakeIn_eq_zero (takesStake_of_stakeOf hix), stakeOut_of_kept hkept, stakeTotal, hstakes,
      stakeTotal]
  | opened hix hnone hstakes htokens =>
    have hkept : Ledger.Kept (· = .stakeVault) w.tokens w'.tokens := htokens ▸ .refl _
    rw [stakeIn_eq_zero (hix ▸ rfl), stakeOut_of_kept hkept, stakeTotal, hstakes,
      Table.total_insert_new _ _ hnone]
    rfl
  | @changed key s s' _ hs hstep hstakes =>
    have htotal := Table.total_insert_old (fun _ s => stakeHeld s) s' hs
    have hexact := StakeStep.exact hstep
    rw [stakeTotal, hstakes, stakeTotal]
    omega

theorem StakesChange.balance_le (h : StakesChange w ix w') : HoldsStake w ix w' := by
  cases h with
  | outside hix _ hkept => exact balance_of_kept (takesStake_of_stakeOf hix) hkept
  | opened hix _ _ htokens => exact balance_of_kept (hix ▸ rfl) (htokens ▸ .refl _)
  | changed _ _ hstep => exact StakeStep.balance_le hstep

theorem StakesChange.amounts (h : StakesChange w ix w')
    (hw : ∀ key s, w.stakeAccounts.lookup key = some s → s.amount < 2 ^ 64) :
    ∀ key s, w'.stakeAccounts.lookup key = some s → s.amount < 2 ^ 64 := by
  cases h with
  | outside _ hstakes =>
    rw [hstakes]
    exact hw
  | opened _ _ hstakes =>
    rw [hstakes]
    exact Table.forall_insert hw (Nat.two_pow_pos 64)
  | changed _ hs hstep hstakes =>
    rw [hstakes]
    exact Table.forall_insert hw (StakeStep.amount_lt hstep (hw _ _ hs))

theorem step_stakesBacked (h : StakesBacked w) (hs : step P w ix = .ok w') : StakesBacked w' := by
  have hchange := step_stakes h.tokens hs
  refine ⟨(step_headers hs).custodial h.tokens, StakesChange.amounts hchange h.amounts, ?_⟩
  have hexact := StakesChange.exact hchange
  have hcovered := h.covered
  have hbalance := StakesChange.balance_le hchange
  rw [HoldsStake] at hbalance
  omega

theorem run_stakesBacked (h : StakesBacked w) (txs : List Instruction) :
    StakesBacked (run (step P) w txs) :=
  run_invariant_always (fun _ _ _ hw hs => step_stakesBacked hw hs) h txs

/-- No stake account loses sight of a slash, over any run. -/
theorem run_slashedTotal (h : StakesBacked w) (txs : List Instruction)
    (hs : w.stakeAccounts.lookup key = some s) :
    ∃ s', (run (step P) w txs).stakeAccounts.lookup key = some s' ∧
      s.slashedTotal ≤ s'.slashedTotal := by
  refine (run_invariant_always (I := fun v => StakesBacked v ∧ ∃ s',
    v.stakeAccounts.lookup key = some s' ∧ s.slashedTotal ≤ s'.slashedTotal) ?_
    ⟨h, s, hs, le_rfl⟩ txs).2
  intro v ix v' hv hstep
  obtain ⟨hbacked, s₁, hs₁, hle⟩ := hv
  refine ⟨step_stakesBacked hbacked hstep, ?_⟩
  obtain ⟨s₂, hs₂, heq | hstake⟩ := (step_stakes hbacked.tokens hstep).of_lookup hs₁
  · exact ⟨s₂, hs₂, heq ▸ hle⟩
  · exact ⟨s₂, hs₂, hle.trans (StakeStep.slashedTotal_le hstake)⟩

theorem StakesBacked.held_le (h : StakesBacked w) (hs : w.stakeAccounts.lookup key = some s) :
    stakeHeld s ≤ w.tokens.balance .stakeVault :=
  (Table.le_total (fun _ s => stakeHeld s) hs).trans h.covered

section Failures
variable {bad : Failure → Prop} (hbad : Unchecked bad)
include hbad

theorem avoids_loadOwnStake (owner : Pubkey) (role : Role) :
    Avoids bad (loadOwnStake w owner role) := by
  simp only [loadOwnStake, avoids_bind, avoids_require, avoids_pure, avoids_loads hbad.anchor,
    hbad.anchor, false_imp_iff, implies_true, and_self]

theorem avoids_loadDerivedStake (owner : Pubkey) (role : Role) :
    Avoids bad (loadDerivedStake w owner role) := by
  simp only [loadDerivedStake, avoids_bind, avoids_require, avoids_pure, avoids_loads hbad.anchor,
    hbad.anchor, false_imp_iff, implies_true, and_self]

theorem avoids_owedTotalOf (merchant mint : Pubkey) : Avoids bad (owedTotalOf w merchant mint) := by
  unfold owedTotalOf
  split
  · exact avoids_of_ok _
  · simp only [avoids_bind, avoids_require, avoids_pure, hbad.staking, false_imp_iff,
      implies_true, and_self]

theorem avoids_recoveredTotalOf (merchant : Pubkey) : Avoids bad (recoveredTotalOf w merchant) := by
  unfold recoveredTotalOf
  split
  · exact avoids_of_ok _
  · simp only [avoids_bind, avoids_require, avoids_pure, hbad.staking, false_imp_iff,
      implies_true, and_self]

theorem avoids_requireDebtRecovered (owner mint : Pubkey) :
    Avoids bad (requireDebtRecovered w s owner mint) := by
  unfold requireDebtRecovered
  split_ifs
  · simp [avoids_owedTotalOf hbad, avoids_recoveredTotalOf hbad, hbad.staking]
  · exact avoids_of_ok _

theorem avoids_withdrawUnstaked (h : StakesBacked w) (owner : Pubkey) (role : Role)
    (target : Pubkey) : Avoids bad (withdrawUnstaked w owner role target) := by
  simp only [withdrawUnstaked, avoids_bind, avoids_require, avoids_pure, avoids_loads hbad.anchor,
    avoids_loadOwnStake hbad, avoids_requireDebtRecovered hbad, hbad.anchor, hbad.staking,
    false_imp_iff, implies_true, and_true, true_and]
  intro c _ s hs _ _ _ _ _ _ _ _ _ _ _ _ _ _
  refine hbad.avoids_transfer fun _ => ?_
  have hheld := h.held_le (loadOwnStake_ok hs).1
  exact (Nat.le_add_left _ _).trans hheld

theorem avoids_slash (h : StakesBacked w) (authority owner : Pubkey) (role : Role) :
    Avoids bad (StakingInstructions.slash w authority owner role) := by
  simp only [StakingInstructions.slash, avoids_bind, avoids_require, avoids_pure, avoids_checkedAdd,
    avoids_checkedSub, avoids_loads hbad.anchor, avoids_loadDerivedStake hbad, hbad.anchor,
    hbad.staking, false_imp_iff, implies_true, and_true, true_and]
  intro c _ s hs _ _ _ _ _ _ _ _
  refine hbad.avoids_payEach fun _ => ?_
  have hheld := h.held_le (loadDerivedStake_ok hs).1
  exact (slashAmount_le c.1 s.amount).trans ((Nat.le_add_right _ _).trans hheld)

theorem avoids_recoverStakeShortfall (h : StakesBacked w) (owner : Pubkey) :
    Avoids bad (recoverStakeShortfall w owner) := by
  simp only [recoverStakeShortfall, avoids_bind, avoids_require, avoids_pure, avoids_checkedAdd,
    avoids_checkedSub, avoids_loads hbad.anchor, avoids_loadDerivedStake hbad,
    avoids_owedTotalOf hbad, hbad.staking, false_imp_iff, implies_true, and_true, true_and,
    checkedAdd_ok]
  intro c _ s hs _ _ _ _ owed _ _ _ amount hamount _ _
  refine hbad.avoids_transfer fun _ => ?_
  have hheld := h.held_le (loadDerivedStake_ok hs).1
  rw [hamount.2]
  calc min (outstanding owed (openReceipt w owner).recoveredTotal) s.unbondingAmount +
        min (outstanding owed (openReceipt w owner).recoveredTotal -
          min (outstanding owed (openReceipt w owner).recoveredTotal) s.unbondingAmount) s.amount
      ≤ s.unbondingAmount + s.amount := Nat.add_le_add (min_le_right _ _) (min_le_right _ _)
    _ = stakeHeld s := Nat.add_comm _ _
    _ ≤ w.tokens.balance .stakeVault := hheld

end Failures

end

/-- From a state whose vault backs all stakes, as on a fresh chain or on one with
accounts of the earlier layouts: the vault covers all stakes in every state of a run,
and each step changes their sum by exactly the tokens that it stakes and the tokens
that it pays out of the vault. No slash is forgotten, and a slash takes the configured
fraction of the active part only. Withdrawing, slashing and recovering never find the
vault short, and a step changes no stake account but the one that it names. -/
theorem stake_vault_solvency (P : Platform) (w₀ : World) (h : StakesBacked w₀)
    (txs : List Instruction) :
    Table.total (fun _ (s : StakeAccount) => s.amount + s.unbondingAmount)
        (run (step P) w₀ txs).stakeAccounts ≤
      (run (step P) w₀ txs).tokens.balance .stakeVault ∧
    (∀ t ∈ transitions (step P) w₀ txs,
      stakeTotal t.after + stakeOut t = stakeTotal t.before + stakeIn t) ∧
    (∀ key s, (run (step P) w₀ txs).stakeAccounts.lookup key = some s → ∀ later,
      ∃ s', (run (step P) w₀ (txs ++ later)).stakeAccounts.lookup key = some s' ∧
        s.slashedTotal ≤ s'.slashedTotal) ∧
    (∀ t ∈ transitions (step P) w₀ txs, ∀ authority owner role,
      t.label = .slash authority owner role →
      ∃ c s s', t.before.stakingConfig = some c ∧
        t.before.stakeAccounts.lookup (owner, role) = some s ∧
        t.after.stakeAccounts.lookup (owner, role) = some s' ∧
        s'.amount = s.amount - s.amount * c.slashBps / 10000 ∧
        s'.unbondingAmount = s.unbondingAmount ∧
        s'.slashedTotal = s.slashedTotal + s.amount * c.slashBps / 10000 ∧
        stakeOut t = s.amount * c.slashBps / 10000) ∧
    (∀ owner role target e, step P (run (step P) w₀ txs) (.withdrawUnstaked owner role target) =
      .error e → e ≠ shortOf .stakeVault) ∧
    (∀ authority owner role e, step P (run (step P) w₀ txs) (.slash authority owner role) =
      .error e → e ≠ shortOf .stakeVault) ∧
    (∀ owner e, step P (run (step P) w₀ txs) (.recoverStakeShortfall owner) = .error e →
      e ≠ shortOf .stakeVault) ∧
    ∀ t ∈ transitions (step P) w₀ txs, ∀ key, stakeOf t.label ≠ some key →
      t.after.stakeAccounts.lookup key = t.before.stakeAccounts.lookup key := by
  have hrun := run_stakesBacked (P := P) h txs
  have hbad := unchecked_shortOf .stakeVault
  have hat (t : Transition World Instruction) (ht : t ∈ transitions (step P) w₀ txs) :
      StakesBacked t.before ∧ step P t.before t.label = .ok t.after := by
    obtain ⟨pre, post, -, hpre, hstep⟩ := exists_run_of_mem ht
    exact ⟨hpre ▸ run_stakesBacked h pre, hstep⟩
  refine ⟨hrun.covered, ?_, ?_, ?_, ?_, ?_, ?_, ?_⟩
  · intro t ht
    obtain ⟨hbefore, hstep⟩ := hat t ht
    exact StakesChange.exact (step_stakes hbefore.tokens hstep)
  · intro key s hs later
    rw [run_append]
    exact run_slashedTotal hrun later hs
  · intro t ht authority owner role hlabel
    obtain ⟨hbefore, hstep⟩ := hat t ht
    obtain ⟨before, label, after⟩ := t
    subst hlabel
    dsimp only at hbefore hstep
    obtain ⟨c, s, L, hc, -, hstake, hmoved, -, rfl⟩ := slash_ok (step_ok.mp hstep).2
    rw [slashAmount_eq c (hbefore.amounts _ s hstake)] at *
    refine ⟨c, s, _, hc, hstake, Finmap.lookup_insert _, rfl, rfl, rfl, ?_⟩
    rw [stakeOut_of_moved hmoved, Ledger.outflow_payments]
    rfl
  · intro owner role target
    exact avoids_step hbad (avoids_withdrawUnstaked hbad hrun _ role target)
  · intro authority owner role
    exact avoids_step hbad (avoids_slash hbad hrun _ owner role)
  · intro owner
    exact avoids_step hbad (avoids_recoverStakeShortfall hbad hrun owner)
  · intro t ht key hkey
    obtain ⟨hbefore, hstep⟩ := hat t ht
    exact (step_stakes hbefore.tokens hstep).lookup_of_ne hkey

/-- Staking on a chain upgraded from the earlier layouts: one unbonding period for all
roles, and wallet 1's stake of 100 without an age. -/
def upgradedStaking : World :=
  let w := chainAfter [.initializeStakingConfig 0 (.wallet 50) (.wallet 91)
        ⟨fun _ => 1, fun _ => 60, 1000, .wallet 5, .wallet 6⟩,
      .openTokenAccount (.wallet 91) (.wallet 50) (.wallet 9),
      .openTokenAccount (.wallet 101) (.wallet 50) (.wallet 1),
      .donate (.wallet 101) 50,
      .donate .stakeVault 100]
  { w with
    stakingConfig := w.stakingConfig.map ({ · with unbondingPeriods := .single 60 })
    stakeAccounts := (∅ : Table (Pubkey × Role) StakeAccount).insert (.wallet 1, .merchant)
      ⟨.wallet 1, .merchant, 100, 0, 0, 0, 0, none⟩ }

theorem stakesBacked_upgradedStaking : StakesBacked upgradedStaking where
  tokens := run_custodial genesis_emptyChain _
  amounts := Table.forall_insert (Table.forall_of_empty rfl) (by decide)
  covered := by decide +kernel

/-- Migrate, stake 50 more, lose a tenth of it all, and withdraw 35 after unbonding. -/
def migrateAndUnstake : List Instruction :=
  [.migrateStakingConfig 0 fun _ => 0,
    .migrateStakeAccount (.wallet 1) .merchant,
    .stake 1 .merchant (.wallet 101) 50,
    .slash 5 (.wallet 1) .merchant,
    .requestUnstake 1 .merchant 35,
    .advanceClock 60 emptyChain.slotHashes,
    .withdrawUnstaked 1 .merchant (.wallet 101)]

/-- All seven steps succeed and leave a stake of 100. -/
theorem stake_vault_solvency_migrated :
    (transitions (step recordedPlatform) upgradedStaking migrateAndUnstake).length = 7 ∧
    stakeTotal (run (step recordedPlatform) upgradedStaking migrateAndUnstake) = 100 ∧
    100 ≤ (run (step recordedPlatform) upgradedStaking migrateAndUnstake).tokens.balance
      .stakeVault ∧
    ∀ t ∈ transitions (step recordedPlatform) upgradedStaking migrateAndUnstake,
      stakeTotal t.after + stakeOut t = stakeTotal t.before + stakeIn t := by
  have htotal :
      stakeTotal (run (step recordedPlatform) upgradedStaking migrateAndUnstake) = 100 := by
    decide +kernel
  obtain ⟨hcovered, hexact, -⟩ := stake_vault_solvency recordedPlatform upgradedStaking
    stakesBacked_upgradedStaking migrateAndUnstake
  exact ⟨by decide +kernel, htotal, htotal ▸ hcovered, hexact⟩

def rewardWaiting : List Instruction :=
  stakeArbitrators [(30, 10)] ++
    [.donate .rewardsVault 3, .distributeReward 6 (.wallet 30) .arbitrator 3]

/-- A reward claimed into the stake vault moves tokens there and changes no stake. -/
theorem reward_claimed_into_stake_vault :
    ∃ t ∈ transitions (step recordedPlatform) emptyChain
        (rewardWaiting ++ [.claimRewards 30 .arbitrator .stakeVault]),
      t.label = .claimRewards 30 .arbitrator .stakeVault ∧
      transfersOf t = [⟨.rewardsVault, .stakeVault, 3⟩] ∧
      stakeTotal t.before = 10 ∧ stakeTotal t.after = 10 :=
  ⟨_, last_mem_transitions (by decide +kernel), rfl, by decide +kernel, by decide +kernel,
    by decide +kernel⟩

end OpenFiat.StakeVault
