import OpenFiat.ProgramAddress
import OpenFiat.GuardedResult

/-!
# Accounts of the staking program

The two layouts that a migration instruction bridges are both present. A stake
account written before `first_staked_at` was appended has no such field, and a
configuration from before the per-role periods holds a single period; the other
instructions cannot load either until it has been migrated.
-/
namespace OpenFiat.StakingAccounts
open ProgramAddress GuardedResult

def bpsDenominator : ℕ := 10000

inductive StakingError where
  | unauthorized
  | notSlashingAuthority
  | notRewardsAuthority
  | invalidSlashBps
  | invalidUnbondingPeriod
  | insufficientStakedAmount
  | stillUnbonding
  | noUnbondingBalance
  | noPendingRewards
  | zeroAmount
  | stakeBelowRoleMinimum
  | alreadyMigrated
  | wrongMint
  | zeroAuthority
  | overflow
  | walletBanned
  | stakeAccountAlreadyMigrated
  | notAStakeAccount
  | notARecoveryClaim
  | notARecoveryReceipt
  | nothingToRecover
  | noStakeToRecoverFrom
  | stakeRecoveryOutstanding
deriving DecidableEq, Repr

inductive UnbondingPeriods where
  | single (secs : ℤ)
  | byRole (secs : Role → ℤ)

structure StakingConfig where
  admin : Pubkey
  mint : Pubkey
  minStakeByRole : Role → ℕ
  unbondingPeriods : UnbondingPeriods
  slashBps : ℕ
  slashingAuthority : Pubkey
  slashDestination : Pubkey
  rewardsAuthority : Pubkey
  slashBps_le : slashBps ≤ bpsDenominator

def StakingConfig.isLegalBalance (c : StakingConfig) (role : Role) (amount : ℕ) : Prop :=
  amount = 0 ∨ c.minStakeByRole role ≤ amount

instance (c : StakingConfig) (role : Role) (amount : ℕ) :
    Decidable (c.isLegalBalance role amount) :=
  inferInstanceAs (Decidable (_ ∨ _))

/-- One wallet's stake in one role; `firstStakedAt` is absent in the old layout. -/
structure StakeAccount where
  owner : Pubkey
  role : Role
  amount : ℕ
  unbondingAmount : ℕ
  unbondingReleaseAt : ℤ
  slashedTotal : ℕ
  pendingRewards : ℕ
  firstStakedAt : Option ℤ
deriving DecidableEq, Repr

namespace StakeAccount

def stakeAgeSecs (s : StakeAccount) (now : ℤ) : Option ℤ :=
  match s.firstStakedAt with
  | some t => if s.amount = 0 ∨ t = 0 then none else some (saturatingSubI64 now t)
  | none => none

def meetsStakeAge (s : StakeAccount) (now minAgeSecs : ℤ) : Prop :=
  minAgeSecs ≤ 0 ∨ ∃ age ∈ s.stakeAgeSecs now, minAgeSecs ≤ age

instance (s : StakeAccount) (now minAgeSecs : ℤ) : Decidable (s.meetsStakeAge now minAgeSecs) :=
  inferInstanceAs (Decidable (_ ∨ _))

def effectiveStake (s : StakeAccount) (c : StakingConfig) : ℕ :=
  if c.minStakeByRole s.role ≤ s.amount then s.amount else 0

end StakeAccount

structure StakeRecoveryReceipt where
  merchant : Pubkey
  recoveredTotal : ℕ
  recoveryCount : ℕ
deriving DecidableEq, Repr

def outstanding (owedTotal recoveredTotal : ℕ) : ℕ := owedTotal - recoveredTotal

end OpenFiat.StakingAccounts
