import OpenFiat.EscrowLiquidity
import OpenFiat.EscrowDisputes
import OpenFiat.StakingInstructions
import OpenFiat.TransactionRuns

/-!
# Transactions

`Instruction` lists every instruction of the two programs with the accounts and
arguments a caller chooses, and the steps of the outside world: time passing,
token accounts being opened, tokens arriving at any account, wallets spending
from their own accounts, and governance editing the ban list. A signer is given
by its wallet number, so no derived address ever signs. Arguments outside their
wire type do not decode.

The two sysvars belong to the world, and time passing is a step that may set the
clock to anything; runs in which the clock never goes back are singled out by
`ClockForward`.
-/
namespace OpenFiat.ChainSteps
open GuardedResult ProgramAddress EscrowAccounts
open ChainWorld EscrowLiquidity EscrowDisputes StakingInstructions TransactionRuns

inductive Instruction where
  | initializeFeeConfig (admin : ℕ) (p : FeeParams) (t : Treasuries)
  | updateFeeConfig (admin : ℕ) (mint : Pubkey) (p : FeeParams) (t : Treasuries)
      (minArbitratorStakeAgeSecs : ℤ) (arbitratorSortitionBps : ℕ) (settlementMints : List Pubkey)
  | initializeArbitrationPool (admin : ℕ) (mint : Pubkey)
  | publishArbitratorPoolSize (admin : ℕ) (eligibleArbitrators : ℕ)
  | createLiquidityVault (merchant : ℕ) (mint : Pubkey)
  | depositLiquidity (merchant : ℕ) (mint source : Pubkey) (amount : ℕ)
  | withdrawLiquidity (merchant : ℕ) (mint target : Pubkey) (amount : ℕ)
  | reserveLiquidity (merchant : ℕ) (mint : Pubkey) (amount : ℕ)
  | chargeAdListingFee (merchant : ℕ) (mint : Pubkey)
  | createTradeEscrow (merchant : ℕ) (buyer mint : Pubkey) (reservationId amount : ℕ)
      (timeoutSecs : ℤ)
  | fundTradeEscrow (merchant : ℕ) (mint : Pubkey) (reservationId : ℕ)
  | approveSettlement (merchant : ℕ) (reservationId : ℕ)
  | releaseEscrow (mint : Pubkey) (reservationId : ℕ) (buyerTokenAccount : Pubkey)
  | cancelReservation (signer : ℕ) (mint : Pubkey) (reservationId : ℕ)
  | expireReservation (mint : Pubkey) (reservationId : ℕ)
  | openDisputeCase (signer : ℕ) (reservationId : ℕ) (depositMint : Pubkey)
      (commitWindowSecs revealWindowSecs : ℤ)
  | topUpArbitrationDeposit (reservationId : ℕ) (mint : Pubkey)
  | absorbStakeRecovery (merchant mint : Pubkey)
  | commitDisputeVote (arbitrator : ℕ) (reservationId : ℕ) (commitment : Digest)
  | revealDisputeVote (arbitrator : ℕ) (reservationId : ℕ) (outcome : DisputeOutcome)
      (salt : Digest)
  | executeDisputeOutcome (accounts : ExecuteAccounts)
  | claimArbitrationReward (arbitrator : ℕ) (reservationId : ℕ) (mint target : Pubkey)
  | initializeStakingConfig (admin : ℕ) (mint slashDestination : Pubkey) (p : StakingParams)
  | updateStakingConfig (admin : ℕ) (slashDestination : Pubkey) (p : StakingParams)
  | initializeStakeAccount (owner : ℕ) (role : Role)
  | stake (owner : ℕ) (role : Role) (source : Pubkey) (amount : ℕ)
  | requestUnstake (owner : ℕ) (role : Role) (amount : ℕ)
  | withdrawUnstaked (owner : ℕ) (role : Role) (target : Pubkey)
  | slash (slashingAuthority : ℕ) (owner : Pubkey) (role : Role)
  | recoverStakeShortfall (owner : Pubkey)
  | distributeReward (rewardsAuthority : ℕ) (owner : Pubkey) (role : Role) (amount : ℕ)
  | claimRewards (owner : ℕ) (role : Role) (target : Pubkey)
  | fundRewardsVault (funder : ℕ) (source : Pubkey) (amount : ℕ)
  | migrateStakeAccount (owner : Pubkey) (role : Role)
  | migrateStakingConfig (admin : ℕ) (secs : Role → ℤ)
  | advanceClock (now : ℤ) (slotHashes : List UInt8)
  | openTokenAccount (address mint owner : Pubkey)
  | donate (account : Pubkey) (amount : ℕ)
  | spend (owner : ℕ) (source mint target : Pubkey) (amount : ℕ)
  | setBan (key : Pubkey) (banned : Bool)

/-- Addresses at which the outside world opens token accounts. -/
def externalAddress : Pubkey → Bool
  | .wallet _ | .associatedToken _ _ => true
  | _ => false

def FeeParamsDecode (p : FeeParams) : Prop :=
  p.adListingFee < 2 ^ 64 ∧ p.disputeFilingFee < 2 ^ 64 ∧ p.settlementFeeBps < 2 ^ 16 ∧
    p.devTreasuryBps < 2 ^ 16 ∧ p.ecosystemTreasuryBps < 2 ^ 16 ∧ p.infraTreasuryBps < 2 ^ 16 ∧
    p.emergencyReserveBps < 2 ^ 16 ∧ InI64 p.timeoutSecs

instance (p : FeeParams) : Decidable (FeeParamsDecode p) := inferInstanceAs (Decidable (_ ∧ _))

def StakingParamsDecode (p : StakingParams) : Prop :=
  (∀ r ∈ allRoles, p.minStakeByRole r < 2 ^ 64) ∧
    (∀ r ∈ allRoles, InI64 (p.unbondingPeriodSecsByRole r)) ∧ p.slashBps < 2 ^ 16

instance (p : StakingParams) : Decidable (StakingParamsDecode p) :=
  inferInstanceAs (Decidable (_ ∧ _))

/-- Whether the arguments fit the wire types of the source. -/
def Instruction.decodes : Instruction → Bool
  | .initializeFeeConfig _ p _ => decide (FeeParamsDecode p)
  | .updateFeeConfig _ _ p _ age bps _ => decide (FeeParamsDecode p ∧ InI64 age ∧ bps < 2 ^ 16)
  | .publishArbitratorPoolSize _ n => decide (n < 2 ^ 32)
  | .depositLiquidity _ _ _ n | .withdrawLiquidity _ _ _ n => decide (n < 2 ^ 64)
  | .reserveLiquidity _ _ n => decide (n < 2 ^ 64)
  | .createTradeEscrow _ _ _ id n secs => decide (id < 2 ^ 64 ∧ n < 2 ^ 64 ∧ InI64 secs)
  | .openDisputeCase _ _ _ commitSecs revealSecs => decide (InI64 commitSecs ∧ InI64 revealSecs)
  | .initializeStakingConfig _ _ _ p | .updateStakingConfig _ _ p =>
    decide (StakingParamsDecode p)
  | .stake _ _ _ n | .requestUnstake _ _ n => decide (n < 2 ^ 64)
  | .distributeReward _ _ _ n | .fundRewardsVault _ _ n => decide (n < 2 ^ 64)
  | .migrateStakingConfig _ secs => decide (∀ r ∈ allRoles, InI64 (secs r))
  | .advanceClock now _ => decide (InI64 now)
  | _ => true

def dispatch (P : Platform) (w : World) : Instruction → Except Failure World
  | .initializeFeeConfig admin p t => initializeFeeConfig w (.wallet admin) p t
  | .updateFeeConfig admin mint p t age bps mints =>
    updateFeeConfig w (.wallet admin) mint p t age bps mints
  | .initializeArbitrationPool admin mint => initializeArbitrationPool w (.wallet admin) mint
  | .publishArbitratorPoolSize admin n => publishArbitratorPoolSize w (.wallet admin) n
  | .createLiquidityVault merchant mint => createLiquidityVault w (.wallet merchant) mint
  | .depositLiquidity merchant mint source n =>
    depositLiquidity w (.wallet merchant) mint source n
  | .withdrawLiquidity merchant mint target n =>
    withdrawLiquidity w (.wallet merchant) mint target n
  | .reserveLiquidity merchant mint n => reserveLiquidity w (.wallet merchant) mint n
  | .chargeAdListingFee merchant mint => chargeAdListingFee w (.wallet merchant) mint
  | .createTradeEscrow merchant buyer mint id n secs =>
    createTradeEscrow w (.wallet merchant) buyer mint id n secs
  | .fundTradeEscrow merchant mint id => fundTradeEscrow w (.wallet merchant) mint id
  | .approveSettlement merchant id => approveSettlement w (.wallet merchant) id
  | .releaseEscrow mint id buyerTokenAccount => releaseEscrow w mint id buyerTokenAccount
  | .cancelReservation signer mint id => cancelReservation w (.wallet signer) mint id
  | .expireReservation mint id => expireReservation w mint id
  | .openDisputeCase signer id depositMint commitSecs revealSecs =>
    openDisputeCase P w (.wallet signer) id depositMint commitSecs revealSecs
  | .topUpArbitrationDeposit id mint => topUpArbitrationDeposit w id mint
  | .absorbStakeRecovery merchant mint => absorbStakeRecovery w merchant mint
  | .commitDisputeVote arbitrator id commitment =>
    commitDisputeVote P w (.wallet arbitrator) id commitment
  | .revealDisputeVote arbitrator id outcome salt =>
    revealDisputeVote P w (.wallet arbitrator) id outcome salt.bytes
  | .executeDisputeOutcome accounts => executeDisputeOutcome P w accounts
  | .claimArbitrationReward arbitrator id mint target =>
    claimArbitrationReward w (.wallet arbitrator) id mint target
  | .initializeStakingConfig admin mint slashDestination p =>
    initializeStakingConfig w (.wallet admin) mint slashDestination p
  | .updateStakingConfig admin slashDestination p =>
    updateStakingConfig w (.wallet admin) slashDestination p
  | .initializeStakeAccount owner role => initializeStakeAccount w (.wallet owner) role
  | .stake owner role source n => StakingInstructions.stake w (.wallet owner) role source n
  | .requestUnstake owner role n => requestUnstake w (.wallet owner) role n
  | .withdrawUnstaked owner role target => withdrawUnstaked w (.wallet owner) role target
  | .slash authority owner role => StakingInstructions.slash w (.wallet authority) owner role
  | .recoverStakeShortfall owner => recoverStakeShortfall w owner
  | .distributeReward authority owner role n => distributeReward w (.wallet authority) owner role n
  | .claimRewards owner role target => claimRewards w (.wallet owner) role target
  | .fundRewardsVault funder source n => fundRewardsVault w (.wallet funder) source n
  | .migrateStakeAccount owner role => migrateStakeAccount w owner role
  | .migrateStakingConfig admin secs => migrateStakingConfig w (.wallet admin) secs
  | .advanceClock now slotHashes => .ok { w with clock := now, slotHashes }
  | .openTokenAccount address mint owner => do
    require (externalAddress address = true) (.anchor .constraintSeeds)
    let tokens ← invoke (w.tokens.createAccount address mint owner)
    return { w with tokens }
  | .donate account n => .ok { w with tokens := w.tokens.credit account n }
  | .spend owner source mint target n => do
    let tokens ← invoke (w.tokens.transfer source mint target (.wallet owner) n)
    return { w with tokens }
  | .setBan key banned => .ok { w with banned := Function.update w.banned key banned }

def step (P : Platform) (w : World) (ix : Instruction) : Except Failure World := do
  require (ix.decodes = true) (.anchor .instructionDidNotDeserialize)
  dispatch P w ix

def ClockForward (t : Transition World Instruction) : Prop := t.before.clock ≤ t.after.clock

instance (t : Transition World Instruction) : Decidable (ClockForward t) :=
  inferInstanceAs (Decidable (_ ≤ _))

/-- A chain on which neither program has been used: no account of either exists
and no token account lies at a derived address. -/
structure Genesis (w : World) : Prop where
  feeConfig : w.feeConfig = none
  arbitrationPolicy : w.arbitrationPolicy = none
  liquidityVaults : w.liquidityVaults = ∅
  tradeEscrows : w.tradeEscrows = ∅
  disputeCases : w.disputeCases = ∅
  recoveryClaims : w.recoveryClaims = ∅
  stakingConfig : w.stakingConfig = none
  stakeAccounts : w.stakeAccounts = ∅
  recoveryReceipts : w.recoveryReceipts = ∅
  tokens : ∀ k, (w.tokens.header k).isSome → externalAddress k = true
  history : w.tokens.history = []

/-- The digests of the inputs that the runs below hash, as recorded from SHA-256:
a vote for the buyer under the zero salt, and the seed of case 7 on `emptyChain`. -/
def recordedSha256 (input : List UInt8) : Digest :=
  if input = List.replicate 33 0 then
    ⟨[127, 156, 158, 49, 172, 130, 86, 202, 47, 37, 133, 131, 223, 38, 45, 188,
      125, 111, 104, 242, 160, 48, 67, 213, 201, 154, 74, 229, 167, 57, 108, 233], rfl⟩
  else
    ⟨[171, 166, 23, 16, 208, 86, 229, 12, 189, 243, 195, 68, 63, 105, 103, 254,
      47, 242, 229, 115, 206, 243, 225, 139, 200, 5, 144, 160, 126, 110, 2, 173], rfl⟩

/-- With the address that the escrow program derives for reservation 7. -/
def recordedPlatform : Platform where
  sha256 := recordedSha256
  keyBytes
    | .tradeEscrow 7 =>
      [155, 72, 157, 238, 87, 224, 231, 183, 43, 82, 71, 161, 139, 205, 167, 206,
        136, 76, 162, 142, 102, 179, 0, 62, 177, 48, 251, 98, 242, 133, 16, 19]
    | _ => []

/-- A chain without accounts, whose newest slot is slot 1. -/
def emptyChain : World where
  clock := 0
  slotHashes := [1, 0, 0, 0, 0, 0, 0, 0, 1] ++ List.replicate 39 0
  tokens := ⟨∅, []⟩
  banned := fun _ => false
  feeConfig := none
  arbitrationPolicy := none
  liquidityVaults := ∅
  tradeEscrows := ∅
  disputeCases := ∅
  recoveryClaims := ∅
  stakingConfig := none
  stakeAccounts := ∅
  recoveryReceipts := ∅

/-- The recorded chain after the given transactions. -/
abbrev chainAfter (txs : List Instruction) : World := run (step recordedPlatform) emptyChain txs

theorem genesis_emptyChain : Genesis emptyChain where
  feeConfig := rfl
  arbitrationPolicy := rfl
  liquidityVaults := rfl
  tradeEscrows := rfl
  disputeCases := rfl
  recoveryClaims := rfl
  stakingConfig := rfl
  stakeAccounts := rfl
  recoveryReceipts := rfl
  tokens k h := by cases h
  history := rfl

def treasuries : Treasuries := ⟨.wallet 90, .wallet 92, .wallet 93, .wallet 94⟩

/-- Set fees without a charge, open wallet 1's vault in the given settlement mint
and deposit and reserve 100 there. -/
def reserveHundred (mint : Pubkey) : List Instruction :=
  [.initializeFeeConfig 0 ⟨0, 0, 0, 10000, 0, 0, 0, 60⟩ treasuries,
    .createLiquidityVault 1 mint,
    .openTokenAccount (.wallet 10) mint (.wallet 1),
    .donate (.wallet 10) 1000,
    .depositLiquidity 1 mint (.wallet 10) 100,
    .reserveLiquidity 1 mint 100]

/-- Wallet 1 funds escrow 7 with 100 in favour of wallet 2, and holds as much in the
mint of the arbitration pool as filing a dispute costs. -/
def fundedEscrow (filingFee : ℕ) : List Instruction :=
  [.initializeFeeConfig 0 ⟨0, filingFee, 0, 10000, 0, 0, 0, 60⟩ treasuries,
    .openTokenAccount treasuries.dev (.fixed .mockUsdc) (.wallet 9),
    .openTokenAccount treasuries.ecosystem (.fixed .mockUsdc) (.wallet 9),
    .openTokenAccount treasuries.infra (.fixed .mockUsdc) (.wallet 9),
    .openTokenAccount treasuries.emergency (.fixed .mockUsdc) (.wallet 9),
    .initializeArbitrationPool 0 (.wallet 50),
    .createLiquidityVault 1 (.fixed .mockUsdc),
    .createLiquidityVault 1 (.wallet 50),
    .openTokenAccount (.wallet 10) (.fixed .mockUsdc) (.wallet 1),
    .openTokenAccount (.wallet 11) (.wallet 50) (.wallet 1),
    .openTokenAccount (.wallet 20) (.fixed .mockUsdc) (.wallet 2),
    .donate (.wallet 10) 100,
    .donate (.wallet 11) filingFee,
    .depositLiquidity 1 (.fixed .mockUsdc) (.wallet 10) 100,
    .depositLiquidity 1 (.wallet 50) (.wallet 11) filingFee,
    .reserveLiquidity 1 (.fixed .mockUsdc) 100,
    .createTradeEscrow 1 (.wallet 2) (.fixed .mockUsdc) 7 100 600,
    .fundTradeEscrow 1 (.fixed .mockUsdc) 7]

def openCaseSeven : Instruction := .openDisputeCase 2 7 (.wallet 50) 60 60

def executeCaseSeven : Instruction :=
  .executeDisputeOutcome ⟨.fixed .mockUsdc, 7, 7, .wallet 20, .wallet 1, .wallet 50,
    some .arbitrationPolicy⟩

/-- The round passes without a vote and the published pool cannot staff another. -/
def endUnstaffed : List Instruction :=
  [.publishArbitratorPoolSize 0 1, .advanceClock 120 emptyChain.slotHashes, executeCaseSeven]

/-- Wallets stake the given amounts as arbitrators, in the mint of the arbitration pool
and at a minimum of one token. -/
def stakeArbitrators (stakes : List (ℕ × ℕ)) : List Instruction :=
  .initializeStakingConfig 0 (.wallet 50) (.wallet 91)
      ⟨fun _ => 1, fun _ => 60, 1000, .wallet 5, .wallet 6⟩ ::
    stakes.flatMap fun p =>
      [.openTokenAccount (.wallet (100 + p.1)) (.wallet 50) (.wallet p.1),
        .donate (.wallet (100 + p.1)) p.2,
        .initializeStakeAccount p.1 .arbitrator,
        .stake p.1 .arbitrator (.wallet (100 + p.1)) p.2]

/-- Wallet 30 takes the only seat of the first round and stays silent; the round is
executed under the published number of eligible arbitrators. -/
def silentRound (published : ℕ) : List Instruction :=
  fundedEscrow 5 ++ stakeArbitrators [(30, 10)] ++
    [openCaseSeven, .commitDisputeVote 30 7 (recordedSha256 (List.replicate 33 0)),
      .publishArbitratorPoolSize 0 published, .advanceClock 120 emptyChain.slotHashes,
      executeCaseSeven]

/-- The given wallets stake one token each, sit on the case and vote for the buyer,
and the verdict is executed. -/
def buyerVerdict (arbitrators : List ℕ) : List Instruction :=
  fundedEscrow 5 ++ stakeArbitrators (arbitrators.map fun n => (n, 1)) ++ [openCaseSeven] ++
    (arbitrators.map fun n => .commitDisputeVote n 7 (recordedSha256 (List.replicate 33 0))) ++
    [.advanceClock 60 emptyChain.slotHashes] ++
    (arbitrators.map fun n => .revealDisputeVote n 7 .buyerWins (.filled 0)) ++
    [.advanceClock 120 emptyChain.slotHashes, executeCaseSeven]

end OpenFiat.ChainSteps
