import OpenFiat.EscrowFunds

/-!
# Dispute instructions of the escrow program

Opening a case freezes the escrow and takes the arbitration deposit from the
merchant's vault in the pool's mint, recording what the vault could not cover.
Arbitrators commit and reveal votes; executing a closed round either decides the
case, reopens it for another round or ends it on an even split. Winning seats
then claim their part of a forfeited deposit.
-/
namespace OpenFiat.EscrowDisputes
open GuardedResult TokenLedger ProgramAddress EscrowAccounts
open Sortition ChainWorld EscrowFunds

/-- Move part of a merchant's available liquidity into the arbitration pool. -/
def drawDeposit (L : Ledger Pubkey) (seller mint : Pubkey) (v : LiquidityVault) (amount : ℕ) :
    Except Failure (Ledger Pubkey × LiquidityVault) := do
  let L ← invoke (L.transfer (.liquidityVaultTokens seller mint) mint .arbitrationPool
    (.liquidityVault seller mint) amount)
  let available ← checkedSub (.escrow .overflow) v.available amount
  let total ← checkedSub (.escrow .overflow) v.total amount
  return (L, { v with available, total })

def takeDeposit (L : Ledger Pubkey) (seller mint : Pubkey) (v : LiquidityVault) (deposit : ℕ) :
    Except Failure (Ledger Pubkey × LiquidityVault) :=
  if 0 < deposit then drawDeposit L seller mint v deposit else .ok (L, v)

def recordShortfall (c : StakeRecoveryClaim) (shortfall : ℕ) :
    Except Failure StakeRecoveryClaim :=
  if 0 < shortfall then do
    let owedTotal ← checkedAdd 64 (.escrow .overflow) c.owedTotal shortfall
    let caseCount ← checkedAdd 32 (.escrow .overflow) c.caseCount 1
    return { c with owedTotal, caseCount }
  else .ok c

/-- The claim account as `init_if_needed` leaves it, with the two keys written. -/
def openRecoveryClaim (w : World) (merchant mint : Pubkey) : StakeRecoveryClaim :=
  match w.recoveryClaims.lookup (merchant, mint) with
  | some c => { c with merchant, mint }
  | none => { merchant, mint, owedTotal := 0, creditedTotal := 0, caseCount := 0 }

def inDisputeWindow (secs : ℤ) : Prop := minDisputeWindowSecs ≤ secs ∧ secs ≤ maxDisputeWindowSecs

instance (secs : ℤ) : Decidable (inDisputeWindow secs) := inferInstanceAs (Decidable (_ ∧ _))

def newDisputeCase (now commitDeadline revealDeadline commitWindowSecs revealWindowSecs : ℤ)
    (caseSeed : Digest) (seller depositMint : Pubkey) (reservationId deposit shortfall : ℕ) :
    DisputeCase where
  reservationId := reservationId
  tradeEscrow := .tradeEscrow reservationId
  openedAt := now
  commitDeadline := commitDeadline
  revealDeadline := revealDeadline
  resolved := false
  round := 0
  commitWindowSecs := commitWindowSecs
  revealWindowSecs := revealWindowSecs
  caseSeed := caseSeed
  roundOpenedAt := now
  arbitrators := []
  commitments := []
  revealedOutcomes := []
  weights := []
  rewardClaimed := []
  barred := []
  depositVault := .liquidityVault seller depositMint
  depositMint := depositMint
  deposit := deposit
  depositShortfall := shortfall
  outcome := none
  winningWeight := 0
  rewardPool := 0
  rewardRemaining := 0
  depositSettled := false
  seatsTakenTotal := 0
  terminalReason := none

/-- The escrow must be funded and not yet released; whether the settlement was
approved is not asked. -/
def openDisputeCase (P : Platform) (w : World) (signer : Pubkey) (reservationId : ℕ)
    (depositMint : Pubkey) (commitWindowSecs revealWindowSecs : ℤ) : Except Failure World := do
  let e ← loadTradeEscrow w reservationId
  let c ← loadFeeConfig w
  let v ← loadLiquidityVault w e.seller depositMint
  let _ ← loadTokenAccount w (.liquidityVaultTokens e.seller depositMint)
  let pool ← loadTokenAccount w .arbitrationPool
  require (w.disputeCases.lookup reservationId = none) (.anchor .accountInUse)
  require (signer = e.buyer ∨ signer = e.seller) (.escrow .notAPartyToThisTrade)
  require (e.state = .awaitingFiatSettlement) (.escrow .invalidVaultState)
  require (v.mint = depositMint) (.anchor .constraintRaw)
  require (pool.mint = depositMint) (.anchor .constraintRaw)
  require (w.banned signer = false) (.escrow .walletBanned)
  require (inDisputeWindow commitWindowSecs) (.escrow .disputeWindowOutOfRange)
  require (inDisputeWindow revealWindowSecs) (.escrow .disputeWindowOutOfRange)
  let commitDeadline ← checkedAddI64 (.escrow .overflow) w.clock commitWindowSecs
  let revealDeadline ← checkedAddI64 (.escrow .overflow) commitDeadline revealWindowSecs
  let deposit := min c.disputeFilingFee v.available
  let shortfall ← checkedSub (.escrow .overflow) c.disputeFilingFee deposit
  let (tokens, v') ← takeDeposit w.tokens e.seller depositMint v deposit
  let claim ← recordShortfall (openRecoveryClaim w e.seller depositMint) shortfall
  let seed ← raiseEscrow (latchCaseSeed P w.slotHashes reservationId (.tradeEscrow reservationId))
  let newCase := newDisputeCase w.clock commitDeadline revealDeadline commitWindowSecs
    revealWindowSecs seed e.seller depositMint reservationId deposit shortfall
  return ((({ w with tokens }.setLiquidityVault e.seller depositMint v').setRecoveryClaim e.seller
    depositMint claim).setDisputeCase reservationId newCase).setTradeEscrow reservationId
      { e with state := .frozen }

def topUpArbitrationDeposit (w : World) (reservationId : ℕ) (mint : Pubkey) :
    Except Failure World := do
  let c ← loadDisputeCase w reservationId
  let e ← load (w.tradeEscrows.lookup reservationId) (.anchor .accountNotInitialized)
  let v ← loadLiquidityVault w e.seller mint
  let _ ← loadTokenAccount w (.liquidityVaultTokens e.seller mint)
  let pool ← loadTokenAccount w .arbitrationPool
  require (c.resolved = false) (.escrow .disputeAlreadyResolved)
  require (.tradeEscrow reservationId = c.tradeEscrow) (.anchor .constraintRaw)
  require (e.state = .frozen) (.escrow .invalidVaultState)
  require (mint = c.depositMint) (.anchor .constraintRaw)
  require (.liquidityVault e.seller mint = c.depositVault) (.anchor .constraintRaw)
  require (v.mint = mint) (.anchor .constraintRaw)
  require (pool.mint = mint) (.anchor .constraintRaw)
  require (0 < c.depositShortfall) (.escrow .noDepositShortfall)
  let amount := min c.depositShortfall v.available
  require (0 < amount) (.escrow .noLiquidityForShortfall)
  let (tokens, v') ← drawDeposit w.tokens e.seller mint v amount
  let deposit ← checkedAdd 64 (.escrow .overflow) c.deposit amount
  let depositShortfall ← checkedSub (.escrow .overflow) c.depositShortfall amount
  return ({ w with tokens }.setLiquidityVault e.seller mint v').setDisputeCase reservationId
    { c with deposit, depositShortfall }

/-- The claim and the staking receipt of one merchant decide how much the vault is
credited; the tokens must already lie in the vault's token account. -/
def absorbStakeRecovery (w : World) (merchant mint : Pubkey) : Except Failure World := do
  let claim ← load (w.recoveryClaims.lookup (merchant, mint)) (.anchor .accountNotInitialized)
  let receipt ← load (w.recoveryReceipts.lookup merchant) (.anchor .accountNotInitialized)
  let v ← loadLiquidityVault w merchant mint
  let vaultTokens ← loadTokenAccount w (.liquidityVaultTokens merchant mint)
  require (claim.merchant = merchant) (.anchor .constraintSeeds)
  require (claim.mint = mint) (.anchor .constraintRaw)
  require (receipt.merchant = claim.merchant) (.anchor .constraintRaw)
  require (v.mint = mint) (.anchor .constraintRaw)
  let amount := claim.absorbable receipt.recoveredTotal
  require (0 < amount) (.escrow .nothingToAbsorb)
  let backed ← checkedAdd 64 (.escrow .overflow) v.total amount
  require (backed ≤ vaultTokens.amount) (.escrow .recoveredTokensMissing)
  let available ← checkedAdd 64 (.escrow .overflow) v.available amount
  let creditedTotal ← checkedAdd 64 (.escrow .overflow) claim.creditedTotal amount
  return (w.setLiquidityVault merchant mint { v with total := backed, available }).setRecoveryClaim
    merchant mint { claim with creditedTotal }

/-- A seat with its sealed commitment, which has neither a vote nor a weight yet. -/
abbrev pushSeat (c : DisputeCase) (arbitrator : Pubkey) (commitment : Digest)
    (seatsTakenTotal : ℕ) : DisputeCase :=
  { c with
    arbitrators := c.arbitrators ++ [arbitrator]
    commitments := c.commitments ++ [commitment]
    revealedOutcomes := c.revealedOutcomes ++ [none]
    weights := c.weights ++ [0]
    seatsTakenTotal }

def commitDisputeVote (P : Platform) (w : World) (arbitrator : Pubkey) (reservationId : ℕ)
    (commitment : Digest) : Except Failure World := do
  let c ← loadDisputeCase w reservationId
  let (config, _) ← loadStakingConfig w
  let (stake, _) ← loadStakeAccount w arbitrator .arbitrator
  let fees ← loadFeeConfig w
  require (config.minStakeByRole .arbitrator ≤ stake.effectiveStake config)
    (.escrow .arbitratorStakeBelowMinimum)
  require (stake.meetsStakeAge w.clock fees.minArbitratorStakeAgeSecs)
    (.escrow .arbitratorStakeTooYoung)
  require (w.clock < c.commitDeadline) (.escrow .commitWindowClosed)
  require (arbitrator ∉ c.barred) (.escrow .arbitratorBarredFromCase)
  require (qualifiesForSeat P c.caseSeed (.stakeAccount arbitrator .arbitrator)
    fees.arbitratorSortitionBps c.roundOpenedAt c.commitDeadline w.clock)
    (.escrow .notDrawnForThisCase)
  require (arbitrator ∉ c.arbitrators) (.escrow .alreadyCommitted)
  require (c.arbitrators.length < maxArbitrators) (.escrow .disputeCaseFull)
  let seatsTakenTotal ← checkedAdd 32 (.escrow .overflow) c.seatsTakenTotal 1
  return w.setDisputeCase reservationId (pushSeat c arbitrator commitment seatsTakenTotal)

def outcomeByte : DisputeOutcome → UInt8
  | .buyerWins => 0
  | .merchantWins => 1
  | .mutualSettlement => 2
  | .invalidDispute => 3

def voteDigest (P : Platform) (outcome : DisputeOutcome) (salt : List UInt8) : Digest :=
  P.sha256 (outcomeByte outcome :: salt)

def revealDisputeVote (P : Platform) (w : World) (arbitrator : Pubkey) (reservationId : ℕ)
    (outcome : DisputeOutcome) (salt : List UInt8) : Except Failure World := do
  let c ← loadDisputeCase w reservationId
  let (config, _) ← loadStakingConfig w
  let (stake, _) ← loadStakeAccount w arbitrator .arbitrator
  require (c.commitDeadline ≤ w.clock ∧ w.clock < c.revealDeadline) (.escrow .notInRevealWindow)
  let index ← load (c.arbitrators.idxOf? arbitrator) (.escrow .noCommitmentFound)
  let revealed ← load c.revealedOutcomes[index]? (.panicked .index)
  require (revealed = none) (.escrow .alreadyRevealed)
  let commitment ← load c.commitments[index]? (.panicked .index)
  require (voteDigest P outcome salt = commitment) (.escrow .commitmentMismatch)
  require (index < c.weights.length) (.panicked .index)
  return w.setDisputeCase reservationId
    { c with
      revealedOutcomes := c.revealedOutcomes.set index (some outcome)
      weights := c.weights.set index (stake.effectiveStake config) }

def disputeOutcomes : List DisputeOutcome :=
  [.buyerWins, .merchantWins, .mutualSettlement, .invalidDispute]

/-- The reveals that count: a seat without weight is skipped. -/
def countedVotes (c : DisputeCase) : List (DisputeOutcome × ℕ) :=
  (c.revealedOutcomes.zip c.weights).filterMap fun p =>
    if p.2 = 0 then none else p.1.map fun o => (o, p.2)

def outcomeTotal (c : DisputeCase) (o : DisputeOutcome) : ℕ :=
  (((countedVotes c).filter fun p => p.1 = o).map Prod.snd).sum

/-- The unique heaviest outcome, if enough votes count, and how many did. -/
def tally (c : DisputeCase) : Option DisputeOutcome × ℕ :=
  let counted := (countedVotes c).length
  if counted < minArbitrators then (none, counted)
  else
    let heaviest := (disputeOutcomes.map (outcomeTotal c)).foldl max 0
    match disputeOutcomes.filter fun o => outcomeTotal c o = heaviest with
    | [o] => (some o, counted)
    | _ => (none, counted)

def weightBehind (c : DisputeCase) (o : DisputeOutcome) : ℕ :=
  (((c.revealedOutcomes.zip c.weights).filter fun p => p.1 = some o).map Prod.snd).sum

/-- The accounts that executing a round may change. -/
structure Docket where
  tokens : Ledger Pubkey
  escrow : TradeEscrowVault
  vault : LiquidityVault
  openVault : LiquidityVault
  dispute : DisputeCase

def settleDeposit (d : Docket) (outcome : Option DisputeOutcome) : Except Failure Docket :=
  if d.dispute.depositSettled ∨ d.dispute.deposit = 0 then .ok d
  else if outcome = some .buyerWins then
    .ok { d with dispute := { d.dispute with
      depositSettled := true, rewardPool := d.dispute.deposit
      rewardRemaining := d.dispute.deposit } }
  else do
    let tokens ← invoke (d.tokens.transfer .arbitrationPool d.dispute.depositMint
      (.liquidityVaultTokens d.openVault.merchant d.dispute.depositMint) .feeConfig
      d.dispute.deposit)
    let available ← checkedAdd 64 (.escrow .overflow) d.openVault.available d.dispute.deposit
    let total ← checkedAdd 64 (.escrow .overflow) d.openVault.total d.dispute.deposit
    return { d with
      tokens, openVault := { d.openVault with available, total }
      dispute := { d.dispute with depositSettled := true } }

def splitDocket (d : Docket) (buyerTokenAccount : Pubkey) : Except Failure Docket := do
  let (tokens, escrow, vault) ← splitTradeEscrowEvenly d.tokens d.escrow d.vault buyerTokenAccount
  return { d with tokens, escrow, vault }

def payVerdict (d : Docket) (fees : FeeConfig) (buyerTokenAccount : Pubkey) :
    DisputeOutcome → Except Failure Docket
  | .buyerWins => do
    let (tokens, escrow, vault) ← releaseTradeEscrowFunds d.tokens fees d.escrow d.vault
      buyerTokenAccount
    return { d with tokens, escrow, vault }
  | .merchantWins | .invalidDispute => do
    let (tokens, vault) ← unwindFundedTradeEscrow d.tokens d.escrow d.vault
    return { d with tokens, vault, escrow := { d.escrow with state := .cancelled } }
  | .mutualSettlement => splitDocket d buyerTokenAccount

def executeVerdict (d : Docket) (fees : FeeConfig) (buyerTokenAccount : Pubkey)
    (outcome : DisputeOutcome) : Except Failure Docket := do
  let winningWeight := weightBehind d.dispute outcome
  require (winningWeight < 2 ^ 64) (.panicked .addition)
  let d ← settleDeposit d (some outcome)
  let d ← payVerdict d fees buyerTokenAccount outcome
  return { d with dispute := { d.dispute with
    resolved := true, outcome := some outcome, winningWeight
    rewardClaimed := List.replicate d.dispute.arbitrators.length false } }

/-- Walk the bench in seat order and stop when the bar list would be full. -/
def collectSilent (barred : List Pubkey) :
    List Pubkey → List (Option DisputeOutcome) → List Pubkey → List Pubkey
  | [], _, acc => acc
  | a :: seats, outcomes, acc =>
    if maxBarredArbitrators ≤ barred.length + acc.length then acc
    else if outcomes.head?.join = none ∧ a ∉ barred then
      collectSilent barred seats outcomes.tail (acc ++ [a])
    else collectSilent barred seats outcomes.tail acc

def barSilentSeats (c : DisputeCase) : DisputeCase :=
  { c with barred := c.barred ++ collectSilent c.barred c.arbitrators c.revealedOutcomes [] }

/-- The case in a new round without seats. -/
abbrev newRound (c : DisputeCase) (nextRound : ℕ) (now commitDeadline revealDeadline : ℤ)
    (caseSeed : Digest) : DisputeCase :=
  { c with
    round := nextRound, roundOpenedAt := now, commitDeadline, revealDeadline, caseSeed
    arbitrators := [], commitments := [], revealedOutcomes := [], weights := []
    rewardClaimed := [] }

def reopenRound (P : Platform) (now : ℤ) (slotHashes : List UInt8) (nextRound : ℕ)
    (c : DisputeCase) : Except Failure DisputeCase := do
  let seed ← raiseEscrow (latchCaseSeed P slotHashes c.reservationId c.tradeEscrow)
  let commitDeadline ← checkedAddI64 (.escrow .overflow) now c.commitWindowSecs
  let revealDeadline ← checkedAddI64 (.escrow .overflow) commitDeadline c.revealWindowSecs
  return newRound c nextRound now commitDeadline revealDeadline seed

def terminalSplit (d : Docket) (buyerTokenAccount : Pubkey) (reason : TerminalSplitReason) :
    Except Failure Docket := do
  let d ← settleDeposit d none
  let d ← splitDocket d buyerTokenAccount
  return { d with dispute := { d.dispute with
    resolved := true, outcome := none, terminalReason := some reason } }

/-- The published pool size, or zero when the caller supplies no policy account. -/
def publishedPoolSize (w : World) (policy : Option Pubkey) : Except Failure ℕ :=
  match policy with
  | none => .ok 0
  | some k => do
    require (k = .arbitrationPolicy) (.escrow .invalidArbitrationPolicy)
    let p ← load w.arbitrationPolicy (.anchor .accountNotInitialized)
    return p.eligibleArbitrators

def poolFloor (c : DisputeCase) (seatsThisRound countedReveals publishedPool : ℕ) : PoolFloor :=
  ⟨c.barred.length, c.seatsTakenTotal, seatsThisRound, countedReveals, publishedPool⟩

def handleUndecidedRound (P : Platform) (w : World) (d : Docket) (buyerTokenAccount : Pubkey)
    (countedReveals : ℕ) (policy : Option Pubkey) : Except Failure Docket := do
  let nextRound ← checkedAdd 8 (.escrow .overflow) d.dispute.round 1
  let dispute := barSilentSeats d.dispute
  let published ← publishedPoolSize w policy
  let floor := poolFloor dispute d.dispute.arbitrators.length countedReveals published
  if maxDisputeRounds ≤ nextRound then
    terminalSplit { d with dispute } buyerTokenAccount floor.exhaustedRoundsReason
  else if floor.nextRoundIsStaffable then do
    let dispute ← reopenRound P w.clock w.slotHashes nextRound dispute
    return { d with dispute }
  else terminalSplit { d with dispute } buyerTokenAccount .poolExhausted

def executeRound (P : Platform) (w : World) (d : Docket) (fees : FeeConfig)
    (buyerTokenAccount : Pubkey) (policy : Option Pubkey) : Except Failure Docket :=
  match tally d.dispute with
  | (some outcome, _) => executeVerdict d fees buyerTokenAccount outcome
  | (none, counted) => handleUndecidedRound P w d buyerTokenAccount counted policy

/-- The accounts a caller of `executeDisputeOutcome` supplies; the merchant's
vault for the deposit is named by its own seeds. -/
structure ExecuteAccounts where
  mint : Pubkey
  caseId : ℕ
  escrowId : ℕ
  buyerTokenAccount : Pubkey
  openMerchant : Pubkey
  openMint : Pubkey
  policy : Option Pubkey

def executeDisputeOutcome (P : Platform) (w : World) (a : ExecuteAccounts) :
    Except Failure World := do
  let c ← loadDisputeCase w a.caseId
  let e ← loadTradeEscrow w a.escrowId
  let _ ← loadTokenAccount w (.tradeEscrowTokens a.escrowId)
  let v ← loadLiquidityVault w e.seller a.mint
  let _ ← loadTokenAccount w (.liquidityVaultTokens e.seller a.mint)
  let buyer ← loadTokenAccount w a.buyerTokenAccount
  let fees ← loadFeeConfig w
  let _ ← loadTreasuries w fees
  let pool ← loadTokenAccount w .arbitrationPool
  let openVault ← loadLiquidityVault w a.openMerchant a.openMint
  let _ ← loadTokenAccount w (.liquidityVaultTokens openVault.merchant c.depositMint)
  require (c.resolved = false) (.escrow .disputeAlreadyResolved)
  require (.tradeEscrow a.escrowId = c.tradeEscrow) (.anchor .constraintRaw)
  require (e.mint = a.mint) (.anchor .constraintRaw)
  require (e.state = .frozen) (.escrow .invalidVaultState)
  require (v.mint = a.mint) (.anchor .constraintRaw)
  require (buyer.owner = e.buyer) (.anchor .constraintRaw)
  require (buyer.mint = a.mint) (.anchor .constraintRaw)
  require (pool.mint = c.depositMint) (.anchor .constraintRaw)
  require (.liquidityVault a.openMerchant a.openMint = c.depositVault) (.anchor .constraintRaw)
  require ((a.openMerchant, a.openMint) ≠ (e.seller, a.mint))
    (.escrow .depositVaultAliasesSettlementVault)
  require (.tradeEscrowTokens a.escrowId :: .liquidityVaultTokens e.seller a.mint ::
    .liquidityVaultTokens openVault.merchant c.depositMint :: .arbitrationPool ::
    a.buyerTokenAccount :: treasuryAccounts fees).Nodup (.anchor .constraintDuplicateMutableAccount)
  require (c.revealDeadline ≤ w.clock) (.escrow .revealWindowStillOpen)
  let d ← executeRound P w ⟨w.tokens, e, v, openVault, c⟩ fees a.buyerTokenAccount a.policy
  return (((({ w with tokens := d.tokens }.setLiquidityVault e.seller a.mint
    d.vault).setLiquidityVault a.openMerchant a.openMint d.openVault).setTradeEscrow a.escrowId
      d.escrow).setDisputeCase a.caseId d.dispute)

def winningSeat (c : DisputeCase) (outcome : DisputeOutcome) (i : ℕ) : Prop :=
  c.revealedOutcomes[i]?.join = some outcome ∧ 0 < c.weights[i]?.getD 0

instance (c : DisputeCase) (outcome : DisputeOutcome) (i : ℕ) :
    Decidable (winningSeat c outcome i) := inferInstanceAs (Decidable (_ ∧ _))

def outstandingSeats (c : DisputeCase) (outcome : DisputeOutcome) : ℕ :=
  (List.range c.rewardClaimed.length).countP fun i =>
    c.rewardClaimed[i]? = some false ∧ winningSeat c outcome i

/-- The last claimant takes what is left, every other one its truncated share. -/
def rewardShare (c : DisputeCase) (outcome : DisputeOutcome) (weight : ℕ) : ℕ :=
  if outstandingSeats c outcome ≤ 1 then c.rewardRemaining
  else min (c.rewardPool * weight / max c.winningWeight 1 % 2 ^ 64) c.rewardRemaining

theorem rewardShare_le (c : DisputeCase) (outcome : DisputeOutcome) (weight : ℕ) :
    rewardShare c outcome weight ≤ c.rewardRemaining := by
  unfold rewardShare
  split_ifs
  · exact le_rfl
  · exact Nat.min_le_right _ _

def claimArbitrationReward (w : World) (arbitrator : Pubkey) (reservationId : ℕ)
    (mint target : Pubkey) : Except Failure World := do
  let c ← loadDisputeCase w reservationId
  let _ ← loadFeeConfig w
  let pool ← loadTokenAccount w .arbitrationPool
  let dst ← loadTokenAccount w target
  require (c.resolved = true) (.escrow .disputeNotDecided)
  require (mint = c.depositMint) (.anchor .constraintRaw)
  require (pool.mint = mint) (.anchor .constraintRaw)
  require (dst.mint = mint) (.anchor .constraintRaw)
  require (target ≠ .arbitrationPool) (.anchor .constraintDuplicateMutableAccount)
  let outcome ← load c.outcome (.escrow .disputeNotDecided)
  require (0 < c.rewardRemaining) (.escrow .noFeeConfigured)
  let index ← load (c.arbitrators.idxOf? arbitrator) (.escrow .notAWinningArbitrator)
  require (c.revealedOutcomes[index]?.join = some outcome) (.escrow .notAWinningArbitrator)
  require (c.rewardClaimed[index]?.getD true = false) (.escrow .rewardAlreadyClaimed)
  let weight := c.weights[index]?.getD 0
  require (0 < weight) (.escrow .notAWinningArbitrator)
  let amount := rewardShare c outcome weight
  let tokens ← invoke (w.tokens.transfer .arbitrationPool mint target .feeConfig amount)
  let rewardRemaining ← checkedSub (.escrow .overflow) c.rewardRemaining amount
  return { w with tokens }.setDisputeCase reservationId
    { c with rewardClaimed := c.rewardClaimed.set index true, rewardRemaining }

section Specs
variable {P : Platform} {w w' : World}

variable {arbitrator mint : Pubkey} {id n : ℕ}

theorem drawDeposit_ok {L L' : Ledger Pubkey} {seller : Pubkey} {v v' : LiquidityVault}
    (h : drawDeposit L seller mint v n = .ok (L', v')) :
    Ledger.Moved [⟨.liquidityVaultTokens seller mint, .arbitrationPool, n⟩] L L' ∧
      n ≤ v.available ∧ n ≤ v.total ∧
      v' = { v with available := v.available - n, total := v.total - n } := by
  simp only [drawDeposit, bind_ok, invoke_ok, checkedSub_ok, pure_ok, Prod.mk.injEq] at h
  obtain ⟨_, hL, _, ⟨ha, rfl⟩, _, ⟨ht, rfl⟩, rfl, rfl⟩ := h
  exact ⟨Ledger.moved_transfer hL, ha, ht, rfl⟩

def depositPayments (deposit : ℕ) : List (Pubkey × ℕ) := [(.arbitrationPool, deposit)]

theorem takeDeposit_ok {L L' : Ledger Pubkey} {seller : Pubkey} {v v' : LiquidityVault}
    (h : takeDeposit L seller mint v n = .ok (L', v')) :
    Ledger.Moved (Ledger.payments (.liquidityVaultTokens seller mint) (depositPayments n)) L L' ∧
      n ≤ v.available ∧ n ≤ v.total ∧
      v' = { v with available := v.available - n, total := v.total - n } := by
  unfold takeDeposit at h
  split_ifs at h with hn
  · rw [depositPayments, Ledger.payments_cons_pos _ _ hn.ne']
    exact drawDeposit_ok h
  · obtain rfl : n = 0 := by omega
    obtain ⟨rfl, rfl⟩ := Prod.mk.inj (Except.ok.inj h)
    exact ⟨Ledger.Moved.refl L, Nat.zero_le _, Nat.zero_le _, rfl⟩

theorem openDisputeCase_ok {signer : Pubkey} {commitSecs revealSecs : ℤ}
    (h : openDisputeCase P w signer id mint commitSecs revealSecs = .ok w') :
    ∃ e fees v L claim seed, w.tradeEscrows.lookup id = some e ∧ e.reservationId = id ∧
      (signer = e.buyer ∨ signer = e.seller) ∧ e.state = .awaitingFiatSettlement ∧
      w.feeConfig = some fees ∧ w.liquidityVaults.lookup (e.seller, mint) = some v ∧
      (∃ owner, w.tokens.header .arbitrationPool = some (mint, owner)) ∧
      w.disputeCases.lookup id = none ∧ inDisputeWindow commitSecs ∧ inDisputeWindow revealSecs ∧
      Ledger.Moved (Ledger.payments (.liquidityVaultTokens e.seller mint)
        (depositPayments (min fees.disputeFilingFee v.available))) w.tokens L ∧
      min fees.disputeFilingFee v.available ≤ v.total ∧
      recordShortfall (openRecoveryClaim w e.seller mint)
        (fees.disputeFilingFee - min fees.disputeFilingFee v.available) = .ok claim ∧
      w' = { w with
        tokens := L
        liquidityVaults := w.liquidityVaults.insert (e.seller, mint)
          { v with
            available := v.available - min fees.disputeFilingFee v.available
            total := v.total - min fees.disputeFilingFee v.available }
        recoveryClaims := w.recoveryClaims.insert (e.seller, mint) claim
        disputeCases := w.disputeCases.insert id (newDisputeCase w.clock (w.clock + commitSecs)
          (w.clock + commitSecs + revealSecs) commitSecs revealSecs seed e.seller mint id
          (min fees.disputeFilingFee v.available)
          (fees.disputeFilingFee - min fees.disputeFilingFee v.available))
        tradeEscrows := w.tradeEscrows.insert id { e with state := .frozen } } := by
  simp only [openDisputeCase, bind_ok, require_ok, raiseEscrow_ok, pure_ok, exists_const,
    checkedSub_ok, checkedAddI64_ok, loadLiquidityVault_ok, loadTokenAccount_ok,
    loadTradeEscrow_ok, loadFeeConfig_ok] at h
  obtain ⟨e, ⟨he, hid⟩, fees, hf, v, hv, _, -, pool, hpool, hnone, hparty, hst, -, hpm, -, hcw, hrw,
    _, ⟨-, rfl⟩, _, ⟨-, rfl⟩, _, ⟨-, rfl⟩, ⟨L, v'⟩, hL, claim, hclaim, seed, hseed, rfl⟩ := h
  obtain ⟨hmoved, -, ht, rfl⟩ := takeDeposit_ok hL
  refine ⟨e, fees, v, L, claim, seed, he, hid, hparty, hst, hf, hv, ⟨pool.owner, ?_⟩, hnone, hcw,
    hrw, hmoved, ht, hclaim, rfl⟩
  rw [Ledger.header_of_lookup hpool, hpm]

theorem topUpArbitrationDeposit_ok (h : topUpArbitrationDeposit w id mint = .ok w') :
    ∃ c e v L n, w.disputeCases.lookup id = some c ∧ w.tradeEscrows.lookup id = some e ∧
      w.liquidityVaults.lookup (e.seller, mint) = some v ∧ c.resolved = false ∧
      c.depositMint = mint ∧ 0 < n ∧ n ≤ c.depositShortfall ∧ c.deposit + n < 2 ^ 64 ∧
      Ledger.Moved [⟨.liquidityVaultTokens e.seller mint, .arbitrationPool, n⟩] w.tokens L ∧
      n ≤ v.available ∧ n ≤ v.total ∧
      w' = { w with
        tokens := L
        liquidityVaults := w.liquidityVaults.insert (e.seller, mint)
          { v with available := v.available - n, total := v.total - n }
        disputeCases := w.disputeCases.insert id
          { c with deposit := c.deposit + n, depositShortfall := c.depositShortfall - n } } := by
  simp only [topUpArbitrationDeposit, bind_ok, require_ok, load_ok, pure_ok, exists_const,
    checkedSub_ok, checkedAdd_ok, loadLiquidityVault_ok, loadTokenAccount_ok, loadDisputeCase_ok]
    at h
  obtain ⟨c, ⟨hc, -⟩, e, he, v, hv, _, -, pool, -, hres, -, -, hmint, -, -, -, -, hpos,
    ⟨L, v'⟩, hL, _, ⟨hd, rfl⟩, _, ⟨hs, rfl⟩, rfl⟩ := h
  obtain ⟨hmoved, ha, ht, rfl⟩ := drawDeposit_ok hL
  exact ⟨c, e, v, L, _, hc, he, hv, hres, hmint.symm, hpos, hs, hd, hmoved, ha, ht, rfl⟩

theorem absorbStakeRecovery_ok {merchant : Pubkey}
    (h : absorbStakeRecovery w merchant mint = .ok w') :
    ∃ claim receipt v n, w.recoveryClaims.lookup (merchant, mint) = some claim ∧
      w.recoveryReceipts.lookup merchant = some receipt ∧
      w.liquidityVaults.lookup (merchant, mint) = some v ∧
      n = receipt.recoveredTotal - claim.creditedTotal ∧ 0 < n ∧ v.available + n < 2 ^ 64 ∧
      v.total + n ≤ w.tokens.balance (.liquidityVaultTokens merchant mint) ∧
      w' = { w with
        liquidityVaults := w.liquidityVaults.insert (merchant, mint)
          { v with total := v.total + n, available := v.available + n }
        recoveryClaims := w.recoveryClaims.insert (merchant, mint)
          { claim with creditedTotal := claim.creditedTotal + n } } := by
  simp only [absorbStakeRecovery, bind_ok, require_ok, load_ok, pure_ok, exists_const,
    checkedAdd_ok, loadLiquidityVault_ok, loadTokenAccount_ok] at h
  obtain ⟨claim, hclaim, receipt, hreceipt, v, hv, a, ha, -, -, -, -, hpos, _, ⟨-, rfl⟩, hback, _,
    ⟨hav, rfl⟩, _, ⟨-, rfl⟩, rfl⟩ := h
  refine ⟨claim, receipt, v, _, hclaim, hreceipt, hv, rfl, hpos, hav, ?_, rfl⟩
  rw [Ledger.balance_of_lookup ha]
  exact hback

theorem commitDisputeVote_ok {commitment : Digest}
    (h : commitDisputeVote P w arbitrator id commitment = .ok w') :
    ∃ c, w.disputeCases.lookup id = some c ∧ w.clock < c.commitDeadline ∧
      arbitrator ∉ c.barred ∧ arbitrator ∉ c.arbitrators ∧ c.arbitrators.length < maxArbitrators ∧
      c.seatsTakenTotal + 1 < 2 ^ 32 ∧
      w' = { w with
        disputeCases := w.disputeCases.insert id
          (pushSeat c arbitrator commitment (c.seatsTakenTotal + 1)) } := by
  simp only [commitDisputeVote, bind_ok, require_ok, pure_ok, exists_const, checkedAdd_ok,
    loadDisputeCase_ok, loadFeeConfig_ok] at h
  obtain ⟨c, ⟨hc, -⟩, ⟨_, _⟩, -, ⟨_, _⟩, -, fees, -, -, -, hclock, hbar, -, hnew, hroom, _,
    ⟨hs, rfl⟩, rfl⟩ := h
  exact ⟨c, hc, hclock, hbar, hnew, hroom, hs, rfl⟩

theorem revealDisputeVote_ok {outcome : DisputeOutcome} {salt : List UInt8}
    (h : revealDisputeVote P w arbitrator id outcome salt = .ok w') :
    ∃ c i weight, w.disputeCases.lookup id = some c ∧ c.commitDeadline ≤ w.clock ∧
      w.clock < c.revealDeadline ∧ c.arbitrators.idxOf? arbitrator = some i ∧
      c.revealedOutcomes[i]? = some none ∧ i < c.weights.length ∧
      w' = { w with
        disputeCases := w.disputeCases.insert id
          { c with
            revealedOutcomes := c.revealedOutcomes.set i (some outcome)
            weights := c.weights.set i weight } } := by
  simp only [revealDisputeVote, bind_ok, require_ok, load_ok, pure_ok, exists_const,
    loadDisputeCase_ok] at h
  obtain ⟨c, ⟨hc, -⟩, ⟨_, _⟩, -, ⟨_, _⟩, -, hclock, i, hi, _, hr, rfl, _, -, -, hw, rfl⟩ := h
  exact ⟨c, i, _, hc, hclock.1, hclock.2, hi, hr, hw, rfl⟩

theorem claimArbitrationReward_ok {target : Pubkey}
    (h : claimArbitrationReward w arbitrator id mint target = .ok w') :
    ∃ c outcome i L, w.disputeCases.lookup id = some c ∧ c.resolved = true ∧
      mint = c.depositMint ∧ c.outcome = some outcome ∧ 0 < c.rewardRemaining ∧
      c.arbitrators.idxOf? arbitrator = some i ∧ winningSeat c outcome i ∧
      c.rewardClaimed[i]? = some false ∧
      rewardShare c outcome (c.weights[i]?.getD 0) ≤ c.rewardRemaining ∧
      Ledger.Moved [⟨.arbitrationPool, target, rewardShare c outcome (c.weights[i]?.getD 0)⟩]
        w.tokens L ∧
      w' = { w with
        tokens := L
        disputeCases := w.disputeCases.insert id
          { c with
            rewardClaimed := c.rewardClaimed.set i true
            rewardRemaining := c.rewardRemaining -
              rewardShare c outcome (c.weights[i]?.getD 0) } } := by
  simp only [claimArbitrationReward, bind_ok, require_ok, load_ok, invoke_ok, pure_ok, exists_const,
    checkedSub_ok, loadDisputeCase_ok, loadFeeConfig_ok, loadTokenAccount_ok] at h
  obtain ⟨c, ⟨hc, -⟩, _, -, _, -, _, -, hres, hmint, -, -, -, outcome, ho, hpos, i, hi, hrev, hcl,
    hw, L, hL, _, ⟨hle, rfl⟩, rfl⟩ := h
  have hfalse : c.rewardClaimed[i]? = some false := by
    cases hb : c.rewardClaimed[i]? with
    | none => simp [hb] at hcl
    | some => simpa [hb] using hcl
  exact ⟨c, outcome, i, L, hc, hres, hmint, ho, hpos, hi, ⟨hrev, hw⟩, hfalse, hle,
    Ledger.moved_transfer hL, rfl⟩

end Specs

section Rounds

/-- What becomes of the deposit when a case ends with the given verdict. -/
inductive DepositSettlement (outcome : Option DisputeOutcome) (d : Docket) : Docket → Prop
  | nothingHeld : d.dispute.depositSettled = true ∨ d.dispute.deposit = 0 →
      DepositSettlement outcome d d
  | forfeited : d.dispute.depositSettled = false → 0 < d.dispute.deposit →
      outcome = some .buyerWins →
      DepositSettlement outcome d { d with dispute := { d.dispute with
        depositSettled := true, rewardPool := d.dispute.deposit
        rewardRemaining := d.dispute.deposit } }
  | refunded {L : Ledger Pubkey} : d.dispute.depositSettled = false → 0 < d.dispute.deposit →
      outcome ≠ some .buyerWins →
      Ledger.Moved [⟨.arbitrationPool,
        .liquidityVaultTokens d.openVault.merchant d.dispute.depositMint, d.dispute.deposit⟩]
        d.tokens L →
      DepositSettlement outcome d { d with
        tokens := L
        openVault := { d.openVault with
          available := d.openVault.available + d.dispute.deposit
          total := d.openVault.total + d.dispute.deposit }
        dispute := { d.dispute with depositSettled := true } }

variable {d d' : Docket} {outcome : Option DisputeOutcome} {buyerTokenAccount : Pubkey}
  {fees : FeeConfig} {P : Platform} {w : World}

theorem settleDeposit_ok (h : settleDeposit d outcome = .ok d') :
    DepositSettlement outcome d d' := by
  unfold settleDeposit at h
  split_ifs at h with hheld hbuyer
  · rw [← Except.ok.inj h]
    exact .nothingHeld hheld
  · obtain ⟨hs, hd⟩ := not_or.mp hheld
    rw [← Except.ok.inj h]
    exact .forfeited (Bool.not_eq_true _ ▸ hs) (Nat.pos_of_ne_zero hd) hbuyer
  · obtain ⟨hs, hd⟩ := not_or.mp hheld
    simp only [bind_ok, invoke_ok, checkedAdd_ok, pure_ok] at h
    obtain ⟨L, hL, _, ⟨-, rfl⟩, _, ⟨-, rfl⟩, rfl⟩ := h
    exact .refunded (Bool.not_eq_true _ ▸ hs) (Nat.pos_of_ne_zero hd) hbuyer
      (Ledger.moved_transfer hL)

/-- The escrow of a docket is paid out; the deposit side is left alone. -/
structure DocketPaid (d d' : Docket) : Prop where
  paid : ∃ ms s, PaidOut d.tokens d'.tokens d.escrow d'.escrow d.vault d'.vault ms s
  openVault : d'.openVault = d.openVault
  dispute : d'.dispute = d.dispute

theorem splitDocket_paid (h : splitDocket d buyerTokenAccount = .ok d') : DocketPaid d d' := by
  simp only [splitDocket, bind_ok, pure_ok] at h
  obtain ⟨⟨L, e, v⟩, hs, rfl⟩ := h
  exact ⟨⟨_, _, splitTradeEscrowEvenly_paidOut hs⟩, rfl, rfl⟩

theorem payVerdict_paid {outcome : DisputeOutcome}
    (h : payVerdict d fees buyerTokenAccount outcome = .ok d') : DocketPaid d d' := by
  have hunwind {d' : Docket} (h : (do
      let (tokens, vault) ← unwindFundedTradeEscrow d.tokens d.escrow d.vault
      return { d with tokens, vault, escrow := { d.escrow with state := .cancelled } } :
        Except Failure Docket) = .ok d') : DocketPaid d d' := by
    simp only [bind_ok, pure_ok] at h
    obtain ⟨⟨L, v⟩, hu, rfl⟩ := h
    exact ⟨⟨_, _, unwindFundedTradeEscrow_paidOut hu⟩, rfl, rfl⟩
  cases outcome with
  | buyerWins =>
    simp only [payVerdict, bind_ok, pure_ok] at h
    obtain ⟨⟨L, e, v⟩, hr, rfl⟩ := h
    obtain ⟨ms, hp⟩ := releaseTradeEscrowFunds_paidOut hr
    exact ⟨⟨ms, 0, hp⟩, rfl, rfl⟩
  | merchantWins | invalidDispute => exact hunwind h
  | mutualSettlement => exact splitDocket_paid h

theorem reopenRound_ok {now : ℤ} {slotHashes : List UInt8} {nextRound : ℕ} {c c' : DisputeCase}
    (h : reopenRound P now slotHashes nextRound c = .ok c') :
    ∃ seed, c' = newRound c nextRound now (now + c.commitWindowSecs)
      (now + c.commitWindowSecs + c.revealWindowSecs) seed := by
  simp only [reopenRound, bind_ok, raiseEscrow_ok, checkedAddI64_ok, pure_ok] at h
  obtain ⟨seed, -, _, ⟨-, rfl⟩, _, ⟨-, rfl⟩, rfl⟩ := h
  exact ⟨seed, rfl⟩

/-- The three ways in which executing a closed round can end. -/
inductive RoundResult (P : Platform) (w : World) (fees : FeeConfig) (buyerTokenAccount : Pubkey)
    (d : Docket) : Docket → Prop
  | decided {outcome : DisputeOutcome} {d₁ d₂ : Docket} : (tally d.dispute).1 = some outcome →
      weightBehind d.dispute outcome < 2 ^ 64 → DepositSettlement (some outcome) d d₁ →
      payVerdict d₁ fees buyerTokenAccount outcome = .ok d₂ →
      RoundResult P w fees buyerTokenAccount d { d₂ with dispute := { d₂.dispute with
        resolved := true, outcome := some outcome
        winningWeight := weightBehind d.dispute outcome
        rewardClaimed := List.replicate d₂.dispute.arbitrators.length false } }
  | reopened {dispute : DisputeCase} : (tally d.dispute).1 = none →
      d.dispute.round + 1 < maxDisputeRounds →
      reopenRound P w.clock w.slotHashes (d.dispute.round + 1) (barSilentSeats d.dispute) =
        .ok dispute →
      RoundResult P w fees buyerTokenAccount d { d with dispute }
  | terminal {d₁ d₂ : Docket} {reason : TerminalSplitReason} : (tally d.dispute).1 = none →
      DepositSettlement none { d with dispute := barSilentSeats d.dispute } d₁ →
      splitDocket d₁ buyerTokenAccount = .ok d₂ →
      RoundResult P w fees buyerTokenAccount d { d₂ with dispute := { d₂.dispute with
        resolved := true, outcome := none, terminalReason := some reason } }

theorem executeRound_ok {policy : Option Pubkey}
    (h : executeRound P w d fees buyerTokenAccount policy = .ok d') :
    RoundResult P w fees buyerTokenAccount d d' := by
  have hterminal {d' : Docket} {reason : TerminalSplitReason} (ht : (tally d.dispute).1 = none)
      (h : terminalSplit { d with dispute := barSilentSeats d.dispute } buyerTokenAccount reason =
        .ok d') : RoundResult P w fees buyerTokenAccount d d' := by
    simp only [terminalSplit, bind_ok, pure_ok] at h
    obtain ⟨d₁, h₁, d₂, h₂, rfl⟩ := h
    exact .terminal ht (settleDeposit_ok h₁) h₂
  unfold executeRound at h
  split at h
  · rename_i outcome counted ht
    simp only [executeVerdict, bind_ok, require_ok, pure_ok, exists_const] at h
    obtain ⟨hw, d₁, h₁, d₂, h₂, rfl⟩ := h
    exact .decided (by rw [ht]) hw (settleDeposit_ok h₁) h₂
  · rename_i counted ht
    have ht : (tally d.dispute).1 = none := by rw [ht]
    simp only [handleUndecidedRound, bind_ok, checkedAdd_ok] at h
    obtain ⟨_, ⟨-, rfl⟩, published, -, h⟩ := h
    split_ifs at h with hround hstaff
    · exact hterminal ht h
    · simp only [bind_ok, pure_ok] at h
      obtain ⟨dispute, hd, rfl⟩ := h
      exact .reopened ht (not_le.mp hround) hd
    · exact hterminal ht h

theorem executeDisputeOutcome_ok {w' : World} {a : ExecuteAccounts}
    (h : executeDisputeOutcome P w a = .ok w') :
    ∃ c e v ov fees d, w.disputeCases.lookup a.caseId = some c ∧
      w.tradeEscrows.lookup a.escrowId = some e ∧ e.reservationId = a.escrowId ∧ e.mint = a.mint ∧
      w.liquidityVaults.lookup (e.seller, a.mint) = some v ∧ w.feeConfig = some fees ∧
      w.liquidityVaults.lookup (a.openMerchant, a.openMint) = some ov ∧
      c.resolved = false ∧ .tradeEscrow a.escrowId = c.tradeEscrow ∧ e.state = .frozen ∧
      .liquidityVault a.openMerchant a.openMint = c.depositVault ∧
      (a.openMerchant, a.openMint) ≠ (e.seller, a.mint) ∧ c.revealDeadline ≤ w.clock ∧
      w.tokens.header a.buyerTokenAccount = some (a.mint, e.buyer) ∧
      RoundResult P w fees a.buyerTokenAccount ⟨w.tokens, e, v, ov, c⟩ d ∧
      w' = { w with
        tokens := d.tokens
        liquidityVaults := (w.liquidityVaults.insert (e.seller, a.mint) d.vault).insert
          (a.openMerchant, a.openMint) d.openVault
        tradeEscrows := w.tradeEscrows.insert a.escrowId d.escrow
        disputeCases := w.disputeCases.insert a.caseId d.dispute } := by
  simp only [executeDisputeOutcome, bind_ok, require_ok, pure_ok, exists_const,
    loadLiquidityVault_ok, loadTokenAccount_ok, loadTradeEscrow_ok, loadDisputeCase_ok,
    loadFeeConfig_ok] at h
  obtain ⟨c, ⟨hc, -⟩, e, ⟨he, hid⟩, _, -, v, hv, _, -, b, hb, fees, hf, _, -, _, -, ov, hov, _, -,
    hres, hte, hm, hst, -, hbo, hbm, -, hdv, hne, -, hclock, d, hd, rfl⟩ := h
  refine ⟨c, e, v, ov, fees, d, hc, he, hid, hm, hv, hf, hov, hres, hte, hst, hdv, hne, hclock, ?_,
    executeRound_ok hd, rfl⟩
  rw [Ledger.header_of_lookup hb, hbm, hbo]

theorem DepositSettlement.moved (h : DepositSettlement outcome d d') :
    ∃ ms, Ledger.Moved ms d.tokens d'.tokens ∧ ∀ m ∈ ms, m.source = .arbitrationPool := by
  cases h with
  | nothingHeld | forfeited => exact ⟨[], Ledger.Moved.refl _, fun _ h => by cases h⟩
  | refunded _ _ _ hm =>
    refine ⟨_, hm, fun m h => ?_⟩
    rw [List.mem_singleton.mp h]

theorem DepositSettlement.escrow (h : DepositSettlement outcome d d') : d'.escrow = d.escrow := by
  cases h <;> rfl

/-- A round moves tokens out of the arbitration pool and out of its own escrow only. -/
theorem RoundResult.moved (h : RoundResult P w fees buyerTokenAccount d d') :
    ∃ ms, Ledger.Moved ms d.tokens d'.tokens ∧ ∀ m ∈ ms,
      m.source = .arbitrationPool ∨ m.source = .tradeEscrowTokens d.escrow.reservationId := by
  have hboth {outcome : Option DisputeOutcome} {d₀ d₁ d₂ : Docket}
      (hs : DepositSettlement outcome d₀ d₁) (hp : DocketPaid d₁ d₂) :
      ∃ ms, Ledger.Moved ms d₀.tokens d₂.tokens ∧ ∀ m ∈ ms,
        m.source = .arbitrationPool ∨ m.source = .tradeEscrowTokens d₀.escrow.reservationId := by
    obtain ⟨ms, hms, hpool⟩ := hs.moved
    obtain ⟨⟨ns, s, hpaid⟩, -, -⟩ := hp
    refine ⟨ms ++ ns, hms.trans hpaid.moved, fun m hm => ?_⟩
    rcases List.mem_append.mp hm with hm | hm
    · exact .inl (hpool m hm)
    · exact .inr (hs.escrow ▸ hpaid.source m hm)
  cases h with
  | decided _ _ hs hp =>
    obtain ⟨ms, hms, hsource⟩ := hboth hs (payVerdict_paid hp)
    exact ⟨ms, hms, hsource⟩
  | reopened => exact ⟨[], Ledger.Moved.refl _, fun _ h => by cases h⟩
  | terminal _ hs hp =>
    obtain ⟨ms, hms, hsource⟩ := hboth hs (splitDocket_paid hp)
    exact ⟨ms, hms, hsource⟩

end Rounds

end OpenFiat.EscrowDisputes
