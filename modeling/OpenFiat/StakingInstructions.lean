import OpenFiat.ChainWorld

/-!
# Instructions of the staking program

One vault backs every stake account. A stake is either active or unbonding;
slashing takes a fixed fraction of the active part, and recovering an arbitration
debt moves stake to the merchant's liquidity vault of the escrow program, whose
claim account this program only reads.
-/
namespace OpenFiat.StakingInstructions
open GuardedResult TokenLedger ProgramAddress StakingAccounts ChainWorld

def allRoles : List Role :=
  [.merchant, .arbitrator, .nodeOperator, .notificationProvider, .oracleProvider,
    .riskIntelligenceProvider, .snapshotProvider]

def requireValidUnbondingPeriods (secs : Role → ℤ) : Except Failure Unit :=
  require (∀ r ∈ allRoles, 0 < secs r) (.staking .invalidUnbondingPeriod)

structure StakingParams where
  minStakeByRole : Role → ℕ
  unbondingPeriodSecsByRole : Role → ℤ
  slashBps : ℕ
  slashingAuthority : Pubkey
  rewardsAuthority : Pubkey

def StakingParams.toConfig (p : StakingParams) (admin mint slashDestination : Pubkey)
    (h : p.slashBps ≤ bpsDenominator) : StakingConfig where
  admin := admin
  mint := mint
  __ := p
  unbondingPeriods := .byRole p.unbondingPeriodSecsByRole
  slashDestination := slashDestination
  slashBps_le := h

def initializeStakingConfig (w : World) (admin mint slashDestination : Pubkey)
    (p : StakingParams) : Except Failure World := do
  require w.stakingConfig.isNone (.anchor .accountInUse)
  let tokens ← invoke (w.tokens.createAccount .stakeVault mint .stakingConfig)
  let tokens ← invoke (tokens.createAccount .rewardsVault mint .stakingConfig)
  let hbps ← ensure (p.slashBps ≤ bpsDenominator) (.staking .invalidSlashBps)
  requireValidUnbondingPeriods p.unbondingPeriodSecsByRole
  let config := p.toConfig admin mint slashDestination hbps.down
  return { w with tokens, stakingConfig := some config }

def updateStakingConfig (w : World) (admin slashDestination : Pubkey) (p : StakingParams) :
    Except Failure World := do
  let (c, _) ← loadStakingConfig w
  let destination ← loadTokenAccount w slashDestination
  require (c.admin = admin) (.staking .unauthorized)
  require (destination.mint = c.mint) (.anchor .constraintRaw)
  let hbps ← ensure (p.slashBps ≤ bpsDenominator) (.staking .invalidSlashBps)
  requireValidUnbondingPeriods p.unbondingPeriodSecsByRole
  require (p.slashingAuthority ≠ .fixed .default) (.staking .zeroAuthority)
  require (p.rewardsAuthority ≠ .fixed .default) (.staking .zeroAuthority)
  let config := p.toConfig c.admin c.mint slashDestination hbps.down
  return { w with stakingConfig := some config }

def initializeStakeAccount (w : World) (owner : Pubkey) (role : Role) : Except Failure World := do
  require (w.stakeAccounts.lookup (owner, role) = none) (.anchor .accountInUse)
  return w.setStakeAccount owner role
    { owner, role, amount := 0, unbondingAmount := 0, unbondingReleaseAt := 0, slashedTotal := 0
      pendingRewards := 0, firstStakedAt := some 0 }

def loadOwnStake (w : World) (owner : Pubkey) (role : Role) : Except Failure StakeAccount := do
  let (s, _) ← loadStakeAccount w owner role
  require (s.role = role) (.anchor .constraintSeeds)
  require (s.owner = owner) (.anchor .constraintHasOne)
  return s

def stake (w : World) (owner : Pubkey) (role : Role) (source : Pubkey) (amount : ℕ) :
    Except Failure World := do
  let (c, _) ← loadStakingConfig w
  let s ← loadOwnStake w owner role
  let _ ← loadTokenAccount w .stakeVault
  let src ← loadTokenAccount w source
  require (src.mint = c.mint) (.anchor .constraintRaw)
  require (w.banned owner = false) (.staking .walletBanned)
  let newAmount ← checkedAdd 64 (.staking .overflow) s.amount amount
  require (c.isLegalBalance s.role newAmount) (.staking .stakeBelowRoleMinimum)
  let tokens ← invoke (w.tokens.transfer source c.mint .stakeVault owner amount)
  let firstStakedAt := if s.amount = 0 ∧ 0 < newAmount then some w.clock else s.firstStakedAt
  return { w with tokens }.setStakeAccount owner role { s with amount := newAmount, firstStakedAt }

/-- An emptied stake loses its age. -/
def ageAfter (remaining : ℕ) (s : StakeAccount) : Option ℤ :=
  if remaining = 0 then some 0 else s.firstStakedAt

variable {s : StakeAccount}

section Handlers
variable (w : World)

def requestUnstake (owner : Pubkey) (role : Role) (amount : ℕ) : Except Failure World := do
  let (c, periods) ← loadStakingConfig w
  let s ← loadOwnStake w owner role
  require (amount ≤ s.amount) (.staking .insufficientStakedAmount)
  let remaining := s.amount - amount
  require (c.isLegalBalance s.role remaining) (.staking .stakeBelowRoleMinimum)
  let unbondingAmount ← checkedAdd 64 (.staking .overflow) s.unbondingAmount amount
  let unbondingReleaseAt ← checkedAddI64 (.staking .overflow) w.clock (periods s.role)
  return w.setStakeAccount owner role
    { s with
      amount := remaining, firstStakedAt := ageAfter remaining s, unbondingAmount
      unbondingReleaseAt }

/-- The escrow program's debt counter for a merchant, read as raw account data. -/
def owedTotalOf (merchant mint : Pubkey) : Except Failure ℕ :=
  match w.recoveryClaims.lookup (merchant, mint) with
  | none => .ok 0
  | some c => do
    require (c.merchant = merchant) (.staking .notARecoveryClaim)
    require (c.mint = mint) (.staking .notARecoveryClaim)
    return c.owedTotal

def recoveredTotalOf (merchant : Pubkey) : Except Failure ℕ :=
  match w.recoveryReceipts.lookup merchant with
  | none => .ok 0
  | some r => do
    require (r.merchant = merchant) (.staking .notARecoveryReceipt)
    return r.recoveredTotal

/-- Only the merchant role carries arbitration debt. -/
def requireDebtRecovered (s : StakeAccount) (owner mint : Pubkey) : Except Failure Unit :=
  if s.role = .merchant then do
    let owedTotal ← owedTotalOf w owner mint
    let recoveredTotal ← recoveredTotalOf w owner
    require (outstanding owedTotal recoveredTotal = 0) (.staking .stakeRecoveryOutstanding)
  else .ok ()

def withdrawUnstaked (owner : Pubkey) (role : Role) (target : Pubkey) : Except Failure World := do
  let (c, _) ← loadStakingConfig w
  let s ← loadOwnStake w owner role
  let _ ← loadTokenAccount w .stakeVault
  let dst ← loadTokenAccount w target
  require (dst.mint = c.mint) (.anchor .constraintRaw)
  require (target ≠ .stakeVault) (.anchor .constraintDuplicateMutableAccount)
  require (0 < s.unbondingAmount) (.staking .noUnbondingBalance)
  require (s.unbondingReleaseAt ≤ w.clock) (.staking .stillUnbonding)
  requireDebtRecovered w s owner c.mint
  let tokens ← invoke (w.tokens.transfer .stakeVault c.mint target .stakingConfig
    s.unbondingAmount)
  return { w with tokens }.setStakeAccount owner role { s with unbondingAmount := 0 }

/-- The stake account of another wallet, at the address its own fields derive. -/
def loadDerivedStake (owner : Pubkey) (role : Role) : Except Failure StakeAccount := do
  let (s, _) ← loadStakeAccount w owner role
  require (s.owner = owner ∧ s.role = role) (.anchor .constraintSeeds)
  return s

def slashAmount (c : StakingConfig) (amount : ℕ) : ℕ :=
  amount * c.slashBps / bpsDenominator % 2 ^ 64

def slash (slashingAuthority owner : Pubkey) (role : Role) : Except Failure World := do
  let (c, _) ← loadStakingConfig w
  let s ← loadDerivedStake w owner role
  let _ ← loadTokenAccount w .stakeVault
  let _ ← loadTokenAccount w c.slashDestination
  require (slashingAuthority = c.slashingAuthority) (.staking .notSlashingAuthority)
  require (c.slashDestination ≠ .stakeVault) (.anchor .constraintDuplicateMutableAccount)
  let slashed := slashAmount c s.amount
  let tokens ← invoke (w.tokens.payEach .stakeVault c.mint .stakingConfig
    [(c.slashDestination, slashed)])
  let amount ← checkedSub (.staking .overflow) s.amount slashed
  let slashedTotal ← checkedAdd 64 (.staking .overflow) s.slashedTotal slashed
  return { w with tokens }.setStakeAccount owner role
    { s with amount, slashedTotal, firstStakedAt := ageAfter amount s }

/-- The receipt as `init_if_needed` finds or creates it. -/
def openReceipt (merchant : Pubkey) : StakeRecoveryReceipt :=
  (w.recoveryReceipts.lookup merchant).getD
    { merchant := .fixed .default, recoveredTotal := 0, recoveryCount := 0 }

/-- Unbonding stake is drained before active stake. -/
def recoverStakeShortfall (owner : Pubkey) : Except Failure World := do
  let (c, _) ← loadStakingConfig w
  let s ← loadDerivedStake w owner .merchant
  let _ ← loadTokenAccount w .stakeVault
  let _ ← loadTokenAccount w (.liquidityVaultTokens owner c.mint)
  let receipt := openReceipt w owner
  let owedTotal ← owedTotalOf w owner c.mint
  let due := outstanding owedTotal receipt.recoveredTotal
  require (0 < due) (.staking .nothingToRecover)
  let fromUnbonding := min due s.unbondingAmount
  let fromActive := min (due - fromUnbonding) s.amount
  let amount ← checkedAdd 64 (.staking .overflow) fromUnbonding fromActive
  require (0 < amount) (.staking .noStakeToRecoverFrom)
  let tokens ← invoke (w.tokens.transfer .stakeVault c.mint (.liquidityVaultTokens owner c.mint)
    .stakingConfig amount)
  let unbondingAmount ← checkedSub (.staking .overflow) s.unbondingAmount fromUnbonding
  let active ← checkedSub (.staking .overflow) s.amount fromActive
  let recoveredTotal ← checkedAdd 64 (.staking .overflow) receipt.recoveredTotal amount
  let recoveryCount ← checkedAdd 32 (.staking .overflow) receipt.recoveryCount 1
  let receipts := w.recoveryReceipts.insert owner
    { merchant := owner, recoveredTotal, recoveryCount }
  return { w with tokens, recoveryReceipts := receipts }.setStakeAccount owner .merchant
    { s with amount := active, unbondingAmount, firstStakedAt := ageAfter active s }

def distributeReward (rewardsAuthority owner : Pubkey) (role : Role) (amount : ℕ) :
    Except Failure World := do
  let (c, _) ← loadStakingConfig w
  let s ← loadDerivedStake w owner role
  require (rewardsAuthority = c.rewardsAuthority) (.staking .notRewardsAuthority)
  let pendingRewards ← checkedAdd 64 (.staking .overflow) s.pendingRewards amount
  return w.setStakeAccount owner role { s with pendingRewards }

def claimRewards (owner : Pubkey) (role : Role) (target : Pubkey) : Except Failure World := do
  let (c, _) ← loadStakingConfig w
  let s ← loadOwnStake w owner role
  let _ ← loadTokenAccount w .rewardsVault
  let dst ← loadTokenAccount w target
  require (dst.mint = c.mint) (.anchor .constraintRaw)
  require (target ≠ .rewardsVault) (.anchor .constraintDuplicateMutableAccount)
  require (0 < s.pendingRewards) (.staking .noPendingRewards)
  let tokens ← invoke (w.tokens.transfer .rewardsVault c.mint target .stakingConfig
    s.pendingRewards)
  return { w with tokens }.setStakeAccount owner role { s with pendingRewards := 0 }

def fundRewardsVault (funder source : Pubkey) (amount : ℕ) : Except Failure World := do
  let (c, _) ← loadStakingConfig w
  let _ ← loadTokenAccount w .rewardsVault
  let src ← loadTokenAccount w source
  require (src.mint = c.mint) (.anchor .constraintRaw)
  require (w.banned funder = false) (.staking .walletBanned)
  require (0 < amount) (.staking .zeroAmount)
  let tokens ← invoke (w.tokens.transfer source c.mint .rewardsVault funder amount)
  return { w with tokens }

def migrateStakeAccount (owner : Pubkey) (role : Role) : Except Failure World := do
  let s ← load (w.stakeAccounts.lookup (owner, role)) (.staking .unauthorized)
  require (s.firstStakedAt = none) (.staking .stakeAccountAlreadyMigrated)
  require (s.owner = owner ∧ s.role = role) (.staking .notAStakeAccount)
  let firstStakedAt := if 0 < s.amount then w.clock else 0
  return w.setStakeAccount owner role { s with firstStakedAt := some firstStakedAt }

/-- A zero entry inherits the single period of the old layout. -/
def migrateStakingConfig (admin : Pubkey) (secs : Role → ℤ) : Except Failure World := do
  let c ← load w.stakingConfig (.staking .unauthorized)
  let old ← load (match c.unbondingPeriods with | .single old => some old | .byRole _ => none)
    (.staking .alreadyMigrated)
  require (c.admin = admin) (.staking .unauthorized)
  let migrated : Role → ℤ := fun r => if secs r = 0 then old else secs r
  requireValidUnbondingPeriods migrated
  return { w with stakingConfig := some { c with unbondingPeriods := .byRole migrated } }

end Handlers

section Specs
variable {w w' : World}

variable {admin owner : Pubkey} {role : Role} {n : ℕ}

theorem initializeStakingConfig_ok {mint destination : Pubkey} {p : StakingParams}
    (h : initializeStakingConfig w admin mint destination p = .ok w') :
    ∃ c L L', w.stakingConfig = none ∧
      w.tokens.createAccount .stakeVault mint .stakingConfig = .ok L ∧
      L.createAccount .rewardsVault mint .stakingConfig = .ok L' ∧ c.mint = mint ∧
      (∃ secs, c.unbondingPeriods = .byRole secs) ∧
      w' = { w with tokens := L', stakingConfig := some c } := by
  simp only [initializeStakingConfig, requireValidUnbondingPeriods, bind_ok, require_ok, invoke_ok,
    pure_ok, exists_const, Option.isNone_iff_eq_none] at h
  obtain ⟨hnone, L, hL, L', hL', _, -, -, rfl⟩ := h
  exact ⟨_, L, L', hnone, hL, hL', rfl, ⟨_, rfl⟩, rfl⟩

theorem updateStakingConfig_ok {destination : Pubkey} {p : StakingParams}
    (h : updateStakingConfig w admin destination p = .ok w') :
    ∃ c c', w.stakingConfig = some c ∧ c'.mint = c.mint ∧
      (∃ secs, c'.unbondingPeriods = .byRole secs) ∧
      w' = { w with stakingConfig := some c' } := by
  simp only [updateStakingConfig, requireValidUnbondingPeriods, bind_ok, require_ok, pure_ok,
    exists_const] at h
  obtain ⟨⟨c, _⟩, hc, _, -, -, -, hbps, -, -, -, -, rfl⟩ := h
  exact ⟨c, p.toConfig c.admin c.mint destination hbps.down, ((loadStakingConfig_ok _ _).mp hc).1,
    rfl, ⟨_, rfl⟩, rfl⟩

theorem initializeStakeAccount_ok (h : initializeStakeAccount w owner role = .ok w') :
    w.stakeAccounts.lookup (owner, role) = none ∧
      w' = { w with
        stakeAccounts := w.stakeAccounts.insert (owner, role)
          { owner, role, amount := 0, unbondingAmount := 0, unbondingReleaseAt := 0
            slashedTotal := 0, pendingRewards := 0, firstStakedAt := some 0 } } := by
  simp only [initializeStakeAccount, bind_ok, require_ok, pure_ok, exists_const] at h
  obtain ⟨hnone, rfl⟩ := h
  exact ⟨hnone, rfl⟩

theorem loadOwnStake_ok (h : loadOwnStake w owner role = .ok s) :
    w.stakeAccounts.lookup (owner, role) = some s ∧ s.owner = owner ∧ s.role = role := by
  simp only [loadOwnStake, bind_ok, require_ok, pure_ok, exists_const] at h
  obtain ⟨⟨_, _⟩, hs, hr, ho, rfl⟩ := h
  exact ⟨((loadStakeAccount_ok _ _ _ _).mp hs).1, ho, hr⟩

theorem loadDerivedStake_ok (h : loadDerivedStake w owner role = .ok s) :
    w.stakeAccounts.lookup (owner, role) = some s ∧ s.owner = owner ∧ s.role = role := by
  simp only [loadDerivedStake, bind_ok, require_ok, pure_ok, exists_const] at h
  obtain ⟨⟨_, _⟩, hs, ⟨ho, hr⟩, rfl⟩ := h
  exact ⟨((loadStakeAccount_ok _ _ _ _).mp hs).1, ho, hr⟩

theorem stake_ok {source : Pubkey} (h : stake w owner role source n = .ok w') :
    ∃ c s L age, w.stakingConfig = some c ∧ w.stakeAccounts.lookup (owner, role) = some s ∧
      w.tokens.header source = some (c.mint, owner) ∧
      Ledger.Moved [⟨source, .stakeVault, n⟩] w.tokens L ∧ s.amount + n < 2 ^ 64 ∧
      age = (if s.amount = 0 ∧ 0 < s.amount + n then some w.clock else s.firstStakedAt) ∧
      w' = { w with
        tokens := L
        stakeAccounts := w.stakeAccounts.insert (owner, role)
          { s with amount := s.amount + n, firstStakedAt := age } } := by
  simp only [stake, bind_ok, require_ok, invoke_ok, pure_ok, exists_const, checkedAdd_ok,
    loadTokenAccount_ok] at h
  obtain ⟨⟨c, _⟩, hc, s, hs, _, -, _, -, -, -, _, ⟨ha, rfl⟩, -, L, hL, rfl⟩ := h
  exact ⟨c, s, L, _, ((loadStakingConfig_ok _ _).mp hc).1, (loadOwnStake_ok hs).1,
    (Ledger.transfer_ok.mp hL).2.1, Ledger.moved_transfer hL, ha, rfl, rfl⟩

theorem requestUnstake_ok (h : requestUnstake w owner role n = .ok w') :
    ∃ s releaseAt, w.stakeAccounts.lookup (owner, role) = some s ∧ n ≤ s.amount ∧
      s.unbondingAmount + n < 2 ^ 64 ∧
      (∃ c secs, w.stakingConfig = some c ∧ c.unbondingPeriods = .byRole secs ∧ s.role = role ∧
        releaseAt = w.clock + secs role) ∧
      w' = { w with
        stakeAccounts := w.stakeAccounts.insert (owner, role)
          { s with
            amount := s.amount - n, firstStakedAt := ageAfter (s.amount - n) s
            unbondingAmount := s.unbondingAmount + n, unbondingReleaseAt := releaseAt } } := by
  simp only [requestUnstake, bind_ok, require_ok, pure_ok, exists_const, checkedAdd_ok,
    checkedAddI64_ok] at h
  obtain ⟨⟨c, secs⟩, hc, s, hs, hn, -, _, ⟨hu, rfl⟩, r, ⟨-, rfl⟩, rfl⟩ := h
  obtain ⟨hc, hsecs⟩ := (loadStakingConfig_ok _ _).mp hc
  obtain ⟨hs, -, rfl⟩ := loadOwnStake_ok hs
  exact ⟨s, _, hs, hn, hu, ⟨c, secs, hc, hsecs, rfl, rfl⟩, rfl⟩

theorem withdrawUnstaked_ok {target : Pubkey} (h : withdrawUnstaked w owner role target = .ok w') :
    ∃ c s L, w.stakingConfig = some c ∧ w.stakeAccounts.lookup (owner, role) = some s ∧
      s.owner = owner ∧ s.role = role ∧
      (0 < s.unbondingAmount ∧ s.unbondingReleaseAt ≤ w.clock) ∧
      requireDebtRecovered w s owner c.mint = .ok () ∧
      Ledger.Moved [⟨.stakeVault, target, s.unbondingAmount⟩] w.tokens L ∧
      w' = { w with
        tokens := L
        stakeAccounts := w.stakeAccounts.insert (owner, role)
          { s with unbondingAmount := 0 } } := by
  simp only [withdrawUnstaked, bind_ok, require_ok, invoke_ok, pure_ok, exists_const,
    loadTokenAccount_ok] at h
  obtain ⟨⟨c, _⟩, hc, s, hs, _, -, _, -, -, -, hpos, hdue, _, hdebt, L, hL, rfl⟩ := h
  obtain ⟨hs, ho, hr⟩ := loadOwnStake_ok hs
  exact ⟨c, s, L, ((loadStakingConfig_ok _ _).mp hc).1, hs, ho, hr, ⟨hpos, hdue⟩, hdebt,
    Ledger.moved_transfer hL, rfl⟩

/-- Slashing never asks for more than is staked. -/
theorem slashAmount_le (c : StakingConfig) (amount : ℕ) : slashAmount c amount ≤ amount := by
  refine (Nat.mod_le _ _).trans (Nat.div_le_of_le_mul ?_)
  rw [Nat.mul_comm]
  exact Nat.mul_le_mul_right amount c.slashBps_le

theorem slash_ok {authority : Pubkey} (h : slash w authority owner role = .ok w') :
    ∃ c s L, w.stakingConfig = some c ∧ authority = c.slashingAuthority ∧
      w.stakeAccounts.lookup (owner, role) = some s ∧
      Ledger.Moved (Ledger.payments .stakeVault [(c.slashDestination, slashAmount c s.amount)])
        w.tokens L ∧
      s.slashedTotal + slashAmount c s.amount < 2 ^ 64 ∧
      w' = { w with
        tokens := L
        stakeAccounts := w.stakeAccounts.insert (owner, role)
          { s with
            amount := s.amount - slashAmount c s.amount
            slashedTotal := s.slashedTotal + slashAmount c s.amount
            firstStakedAt := ageAfter (s.amount - slashAmount c s.amount) s } } := by
  simp only [slash, bind_ok, require_ok, invoke_ok, pure_ok, exists_const, checkedAdd_ok,
    checkedSub_ok, loadTokenAccount_ok] at h
  obtain ⟨⟨c, _⟩, hc, s, hs, _, -, _, -, ha, -, L, hL, _, ⟨-, rfl⟩, _, ⟨ht, rfl⟩, rfl⟩ := h
  exact ⟨c, s, L, ((loadStakingConfig_ok _ _).mp hc).1, ha, (loadDerivedStake_ok hs).1,
    Ledger.moved_payEach hL, ht, rfl⟩

/-- The parts of a recovery that unbonding and active stake pay. -/
def fromUnbonding (due : ℕ) (s : StakeAccount) : ℕ := min due s.unbondingAmount

def fromActive (due : ℕ) (s : StakeAccount) : ℕ := min (due - fromUnbonding due s) s.amount

theorem recoverStakeShortfall_ok (h : recoverStakeShortfall w owner = .ok w') :
    ∃ c s owed due L, w.stakingConfig = some c ∧
      w.stakeAccounts.lookup (owner, .merchant) = some s ∧ owedTotalOf w owner c.mint = .ok owed ∧
      due = outstanding owed (openReceipt w owner).recoveredTotal ∧ 0 < due ∧
      0 < fromUnbonding due s + fromActive due s ∧
      (openReceipt w owner).recoveryCount + 1 < 2 ^ 32 ∧
      Ledger.Moved [⟨.stakeVault, .liquidityVaultTokens owner c.mint,
        fromUnbonding due s + fromActive due s⟩] w.tokens L ∧
      w' = { w with
        tokens := L
        recoveryReceipts := w.recoveryReceipts.insert owner
          { merchant := owner
            recoveredTotal := (openReceipt w owner).recoveredTotal +
              (fromUnbonding due s + fromActive due s)
            recoveryCount := (openReceipt w owner).recoveryCount + 1 }
        stakeAccounts := w.stakeAccounts.insert (owner, .merchant)
          { s with
            amount := s.amount - fromActive due s
            unbondingAmount := s.unbondingAmount - fromUnbonding due s
            firstStakedAt := ageAfter (s.amount - fromActive due s) s } } := by
  simp only [recoverStakeShortfall, bind_ok, require_ok, invoke_ok, pure_ok, exists_const,
    checkedAdd_ok, checkedSub_ok, loadTokenAccount_ok] at h
  obtain ⟨⟨c, _⟩, hc, s, hs, _, -, _, -, owed, ho, hdue, _, ⟨-, rfl⟩, hpos, L, hL, _, ⟨-, rfl⟩, _,
    ⟨-, rfl⟩, _, ⟨-, rfl⟩, _, ⟨hcount, rfl⟩, rfl⟩ := h
  exact ⟨c, s, owed, _, L, ((loadStakingConfig_ok _ _).mp hc).1, (loadDerivedStake_ok hs).1, ho,
    rfl, hdue, hpos, hcount, Ledger.moved_transfer hL, rfl⟩

theorem distributeReward_ok {authority : Pubkey}
    (h : distributeReward w authority owner role n = .ok w') :
    ∃ s, w.stakeAccounts.lookup (owner, role) = some s ∧
      w' = { w with
        stakeAccounts := w.stakeAccounts.insert (owner, role)
          { s with pendingRewards := s.pendingRewards + n } } := by
  simp only [distributeReward, bind_ok, require_ok, pure_ok, exists_const, checkedAdd_ok] at h
  obtain ⟨⟨c, _⟩, -, s, hs, -, _, ⟨-, rfl⟩, rfl⟩ := h
  exact ⟨s, (loadDerivedStake_ok hs).1, rfl⟩

theorem claimRewards_ok {target : Pubkey} (h : claimRewards w owner role target = .ok w') :
    ∃ s L, w.stakeAccounts.lookup (owner, role) = some s ∧
      Ledger.Moved [⟨.rewardsVault, target, s.pendingRewards⟩] w.tokens L ∧
      w' = { w with
        tokens := L
        stakeAccounts := w.stakeAccounts.insert (owner, role) { s with pendingRewards := 0 } } := by
  simp only [claimRewards, bind_ok, require_ok, invoke_ok, pure_ok, exists_const,
    loadTokenAccount_ok] at h
  obtain ⟨⟨c, _⟩, -, s, hs, _, -, _, -, -, -, -, L, hL, rfl⟩ := h
  exact ⟨s, L, (loadOwnStake_ok hs).1, Ledger.moved_transfer hL, rfl⟩

theorem fundRewardsVault_ok {funder source : Pubkey}
    (h : fundRewardsVault w funder source n = .ok w') :
    ∃ c L, w.tokens.header source = some (c, funder) ∧
      Ledger.Moved [⟨source, .rewardsVault, n⟩] w.tokens L ∧ w' = { w with tokens := L } := by
  simp only [fundRewardsVault, bind_ok, require_ok, invoke_ok, pure_ok, exists_const,
    loadTokenAccount_ok] at h
  obtain ⟨⟨c, _⟩, -, _, -, _, -, -, -, -, L, hL, rfl⟩ := h
  exact ⟨c.mint, L, (Ledger.transfer_ok.mp hL).2.1, Ledger.moved_transfer hL, rfl⟩

theorem migrateStakeAccount_ok (h : migrateStakeAccount w owner role = .ok w') :
    ∃ s age, w.stakeAccounts.lookup (owner, role) = some s ∧
      (s.firstStakedAt = none ∧ age = if 0 < s.amount then w.clock else 0) ∧
      w' = { w with
        stakeAccounts := w.stakeAccounts.insert (owner, role)
          { s with firstStakedAt := some age } } := by
  simp only [migrateStakeAccount, bind_ok, load_ok, require_ok, pure_ok, exists_const] at h
  obtain ⟨s, hs, hage, -, rfl⟩ := h
  exact ⟨s, _, hs, ⟨hage, rfl⟩, rfl⟩

theorem migrateStakingConfig_ok {secs : Role → ℤ} (h : migrateStakingConfig w admin secs = .ok w') :
    ∃ c periods, w.stakingConfig = some c ∧
      w' = { w with stakingConfig := some { c with unbondingPeriods := .byRole periods } } := by
  simp only [migrateStakingConfig, requireValidUnbondingPeriods, bind_ok, load_ok, require_ok,
    pure_ok, exists_const] at h
  obtain ⟨c, hc, old, -, -, -, rfl⟩ := h
  exact ⟨c, _, hc, rfl⟩

end Specs

end OpenFiat.StakingInstructions
