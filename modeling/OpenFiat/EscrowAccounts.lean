import OpenFiat.ProgramAddress
import Mathlib.Algebra.Order.Ring.Int
import Mathlib.Data.List.Nodup

/-!
# Accounts of the escrow program

The records that the escrow program stores, with its constants and error codes.
Bumps and account discriminators are left out: a derived address is a constructor
of `Pubkey`, so the seeds alone identify it. Amounts are 64-bit words and
timestamps signed 64-bit words; the operations test the range.

A fee configuration only exists with basis points that pass the checks of both
instructions that write it, so the checks are fields of the record.
-/
namespace OpenFiat.EscrowAccounts
open ProgramAddress

def bpsDenominator : ℕ := 10000
def minDisputeWindowSecs : ℤ := 60
def maxDisputeWindowSecs : ℤ := 7 * 24 * 60 * 60
def maxDisputeRounds : ℕ := 3
def maxSettlementMints : ℕ := 16
def maxArbitrators : ℕ := 7
def minArbitrators : ℕ := 3
def maxBarredArbitrators : ℕ := maxArbitrators * (maxDisputeRounds - 1)

def defaultSettlementMints : List Pubkey :=
  [.fixed .wrappedSol, .fixed .mockUsdc, .fixed .mockUsdt, .fixed .testSettlementMint]

inductive EscrowError where
  | unauthorized
  | invalidFeeSplit
  | arbitratorBarredFromCase
  | invalidFeeBps
  | invalidTimeout
  | insufficientAvailableLiquidity
  | insufficientReservedLiquidity
  | invalidVaultState
  | notYetExpired
  | notAPartyToThisTrade
  | commitWindowClosed
  | notInRevealWindow
  | disputeCaseFull
  | alreadyCommitted
  | noCommitmentFound
  | alreadyRevealed
  | commitmentMismatch
  | revealWindowStillOpen
  | disputeAlreadyResolved
  | arbitratorStakeBelowMinimum
  | disputeWindowOutOfRange
  | depositVaultAliasesSettlementVault
  | noFeeConfigured
  | disputeNotDecided
  | notAWinningArbitrator
  | rewardAlreadyClaimed
  | overflow
  | walletBanned
  | arbitratorStakeTooYoung
  | notDrawnForThisCase
  | slotHashesUnavailable
  | invalidStakeAge
  | invalidSortitionThreshold
  | settlementMintNotAllowed
  | settlementMintListFull
  | invalidSettlementMint
  | emptySettlementMintList
  | arbitrationPoolNotInitialized
  | nothingToAbsorb
  | recoveredTokensMissing
  | noDepositShortfall
  | noLiquidityForShortfall
  | invalidArbitrationPolicy
deriving DecidableEq, Repr

inductive VaultState where
  | available
  | reserved
  | awaitingFiatSettlement
  | released
  | cancelled
  | frozen
deriving DecidableEq, Repr

inductive DisputeOutcome where
  | buyerWins
  | merchantWins
  | mutualSettlement
  | invalidDispute
deriving DecidableEq, Repr

inductive TerminalSplitReason where
  | noConsensus
  | quorumNotReached
  | roundUnstaffed
  | poolExhausted
deriving DecidableEq, Repr

/-- A merchant's pooled inventory in one mint. -/
structure LiquidityVault where
  merchant : Pubkey
  mint : Pubkey
  total : ℕ
  reserved : ℕ
  available : ℕ
  settled : ℕ
  pendingSettlement : ℕ
deriving DecidableEq, Repr

structure TradeEscrowVault where
  reservationId : ℕ
  buyer : Pubkey
  seller : Pubkey
  mint : Pubkey
  amount : ℕ
  state : VaultState
  approved : Bool
  createdAt : ℤ
  timeoutAt : ℤ
deriving DecidableEq, Repr

structure FeeConfig where
  admin : Pubkey
  adListingFee : ℕ
  disputeFilingFee : ℕ
  settlementFeeBps : ℕ
  devTreasury : Pubkey
  ecosystemTreasury : Pubkey
  infraTreasury : Pubkey
  emergencyReserve : Pubkey
  devTreasuryBps : ℕ
  ecosystemTreasuryBps : ℕ
  infraTreasuryBps : ℕ
  emergencyReserveBps : ℕ
  timeoutSecs : ℤ
  minArbitratorStakeAgeSecs : ℤ
  arbitratorSortitionBps : ℕ
  settlementMints : List Pubkey
  settlementFeeBps_le : settlementFeeBps ≤ bpsDenominator
  split_eq : devTreasuryBps + ecosystemTreasuryBps + infraTreasuryBps + emergencyReserveBps =
    bpsDenominator
  settlementMints_length_le : settlementMints.length ≤ maxSettlementMints

/-- The list holds exactly the live entries; the zero padding of the stored array
is never compared against. -/
def FeeConfig.allowsSettlementMint (c : FeeConfig) (mint : Pubkey) : Prop :=
  mint ∈ c.settlementMints

instance (c : FeeConfig) (mint : Pubkey) : Decidable (c.allowsSettlementMint mint) :=
  inferInstanceAs (Decidable (mint ∈ c.settlementMints))

structure ArbitrationPolicy where
  admin : Pubkey
  eligibleArbitrators : ℕ
  updatedAt : ℤ
deriving DecidableEq, Repr

/-- A dispute over one trade escrow. The five per-seat arrays are parallel: index
`i` of each describes one arbitrator's seat of the current round. -/
structure DisputeCase where
  reservationId : ℕ
  tradeEscrow : Pubkey
  openedAt : ℤ
  commitDeadline : ℤ
  revealDeadline : ℤ
  resolved : Bool
  round : ℕ
  commitWindowSecs : ℤ
  revealWindowSecs : ℤ
  caseSeed : Digest
  roundOpenedAt : ℤ
  arbitrators : List Pubkey
  commitments : List Digest
  revealedOutcomes : List (Option DisputeOutcome)
  weights : List ℕ
  rewardClaimed : List Bool
  barred : List Pubkey
  depositVault : Pubkey
  depositMint : Pubkey
  deposit : ℕ
  depositShortfall : ℕ
  outcome : Option DisputeOutcome
  winningWeight : ℕ
  rewardPool : ℕ
  rewardRemaining : ℕ
  depositSettled : Bool
  seatsTakenTotal : ℕ
  terminalReason : Option TerminalSplitReason
deriving DecidableEq, Repr

/-! ### Stored size

The wire format writes a list as a four-byte length and its elements, and an
optional value as a tag byte and the value, if any. -/

def listSize (elementSize length : ℕ) : ℕ := 4 + elementSize * length

def optionSize {α : Type} (valueSize : ℕ) (o : Option α) : ℕ := 1 + o.elim 0 fun _ => valueSize

namespace DisputeCase

/-- The fields whose size does not depend on their value, in declaration order, and
the account discriminator. -/
def fixedSize : ℕ :=
  8 + (8 + 32 + 8 + 8 + 8 + 1 + 1 + 8 + 8 + 32 + 8) + (32 + 32 + 8 + 8) + (8 + 8 + 8 + 1 + 1 + 4)

/-- The bytes that a case occupies when it is written back. -/
def serializedSize (c : DisputeCase) : ℕ :=
  fixedSize + listSize 32 c.arbitrators.length + listSize 32 c.commitments.length +
    (4 + (c.revealedOutcomes.map (optionSize 1)).sum) + listSize 8 c.weights.length +
    listSize 1 c.rewardClaimed.length + listSize 32 c.barred.length + optionSize 1 c.outcome +
    optionSize 1 c.terminalReason

/-- The bytes allocated when a case is opened: every list at its declared length. -/
def allocatedSpace : ℕ :=
  fixedSize + listSize 32 maxArbitrators + listSize 32 maxArbitrators +
    listSize 2 maxArbitrators + listSize 8 maxArbitrators + listSize 1 maxArbitrators +
    listSize 32 maxBarredArbitrators + 2 + 2

end DisputeCase

/-- What a merchant owes for arbitration deposits that its vault could not cover. -/
structure StakeRecoveryClaim where
  merchant : Pubkey
  mint : Pubkey
  owedTotal : ℕ
  creditedTotal : ℕ
  caseCount : ℕ
deriving DecidableEq, Repr

def StakeRecoveryClaim.absorbable (c : StakeRecoveryClaim) (recoveredTotal : ℕ) : ℕ :=
  recoveredTotal - c.creditedTotal

structure PoolFloor where
  barred : ℕ
  seatsTakenTotal : ℕ
  seatsThisRound : ℕ
  countedReveals : ℕ
  publishedPool : ℕ
deriving DecidableEq, Repr

namespace PoolFloor

def requiredForNextRound (f : PoolFloor) : ℕ := minArbitrators + f.barred

def evidencedPool (f : PoolFloor) : ℕ := max f.publishedPool f.seatsTakenTotal

def nextRoundIsStaffable (f : PoolFloor) : Bool :=
  f.publishedPool = 0 || f.requiredForNextRound ≤ f.evidencedPool

def exhaustedRoundsReason (f : PoolFloor) : TerminalSplitReason :=
  if f.seatsThisRound < minArbitrators then .roundUnstaffed
  else if f.countedReveals < minArbitrators then .quorumNotReached
  else .noConsensus

end PoolFloor

end OpenFiat.EscrowAccounts
