import OpenFiat.CustodyRefinement

/-!
# How the escrow instructions fail

The handlers leave some subtractions unchecked and rely on the token program to
find enough tokens in the accounts they pay from. `Backed bad w` collects what the
state has to provide so that none of these failures occurs, for any class `bad`
of failures that are not error codes of the program: each condition is asked for
only if the failure it prevents is bad.
-/
namespace OpenFiat.EscrowFailures
open GuardedResult TokenLedger ProgramAddress EscrowAccounts
open ChainWorld EscrowFunds EscrowLiquidity EscrowDisputes
open CustodyRefinement

structure Backed (bad : Failure → Prop) (w : World) : Prop where
  vault : ∀ merchant mint v, w.liquidityVaults.lookup (merchant, mint) = some v →
    bad (shortOf (.liquidityVaultTokens merchant mint)) →
    v.available + v.reserved ≤ w.tokens.balance (.liquidityVaultTokens merchant mint)
  escrow : ∀ id e, w.tradeEscrows.lookup id = some e → phase e.state = .funded →
    bad (shortOf (.tradeEscrowTokens id)) → e.amount ≤ w.tokens.balance (.tradeEscrowTokens id)
  pending : ∀ id e v, w.tradeEscrows.lookup id = some e → phase e.state = .funded →
    w.liquidityVaults.lookup (e.seller, e.mint) = some v → bad (.panicked .subtraction) →
    e.amount ≤ v.pendingSettlement

section
variable {bad : Failure → Prop} (hbad : Unchecked bad) {P : Platform} {w : World}
  (hback : Backed bad w)
include hbad hback

theorem avoids_withdrawLiquidity (merchant mint target : Pubkey) (n : ℕ) :
    Avoids bad (withdrawLiquidity w merchant mint target n) := by
  simp only [withdrawLiquidity, avoids_bind, avoids_require, avoids_checkedSub, avoids_pure,
    avoids_loads hbad.anchor, hbad.anchor, hbad.escrow, false_imp_iff, implies_true, and_true,
    true_and, require_ok, loadLiquidityVault_ok]
  intro v hv _ _ _ _ _ _ _ _ _ _ _ _ _ hn
  refine ⟨hbad.avoids_transfer fun h => ?_, fun _ _ _ => hn⟩
  have hvault := hback.vault merchant mint v hv h
  omega

theorem avoids_chargeAdListingFee (merchant mint : Pubkey) :
    Avoids bad (chargeAdListingFee w merchant mint) := by
  simp only [chargeAdListingFee, loadTreasuries, avoids_bind, avoids_require, avoids_checkedSub,
    avoids_pure, avoids_loads hbad.anchor, hbad.avoids_raiseEscrow, hbad.anchor, hbad.escrow,
    false_imp_iff, implies_true, and_true, true_and, require_ok, loadLiquidityVault_ok,
    raiseEscrow_ok]
  intro c _ v hv _ _ _ _ _ _ _ _ _ _ _ _ _ _ _ hn shares hshares
  refine hbad.avoids_payEach fun h => ?_
  have hvault := hback.vault merchant mint v hv h
  rw [sum_treasuryPayments, splitFeeFourWays_sum hshares]
  omega

omit hback in
theorem avoids_reserveLiquidity (merchant mint : Pubkey) (n : ℕ) :
    Avoids bad (reserveLiquidity w merchant mint n) := by
  simp only [reserveLiquidity, avoids_bind, avoids_require, avoids_checkedSub, avoids_checkedAdd,
    avoids_pure, avoids_loads hbad.anchor, hbad.anchor, hbad.escrow, false_imp_iff, implies_true,
    and_true, true_and, require_ok]
  exact fun _ _ _ _ _ _ _ _ _ _ _ _ _ hn _ => hn

theorem avoids_fundTradeEscrow (merchant mint : Pubkey) (id : ℕ) :
    Avoids bad (fundTradeEscrow w merchant mint id) := by
  simp only [fundTradeEscrow, avoids_bind, avoids_require, avoids_checkedSub, avoids_checkedAdd,
    avoids_pure, avoids_loads hbad.anchor, hbad.anchor, hbad.escrow, false_imp_iff, implies_true,
    and_true, true_and, require_ok, loadLiquidityVault_ok]
  intro v hv _ _ e _ _ _ _ _ _ _ _ _ _ _ _ _ _ hn
  refine ⟨hbad.avoids_transfer fun h => ?_, fun _ _ _ => hn⟩
  have hvault := hback.vault merchant mint v hv h
  omega

theorem avoids_releaseEscrow (mint : Pubkey) (id : ℕ) (buyerTokenAccount : Pubkey) :
    Avoids bad (releaseEscrow w mint id buyerTokenAccount) := by
  simp only [releaseEscrow, loadTreasuries, avoids_bind, avoids_require, avoids_pure,
    avoids_loads hbad.anchor, hbad.anchor, hbad.escrow, false_imp_iff, implies_true, and_true,
    true_and, require_ok, loadLiquidityVault_ok, loadTradeEscrow_ok, forall_const]
  intro e he v hv _ _ _ _ c _ _ _ _ hm hst _ _ _ _
  obtain ⟨he, rfl⟩ := he
  rw [← hm] at hv
  have hfunded : phase e.state = .funded := by
    rw [hst]
    rfl
  exact avoids_releaseTradeEscrowFunds hbad (hback.escrow _ e he hfunded)
    (hback.pending _ e v he hfunded hv)

theorem avoids_closeReservation {mint : Pubkey} {id : ℕ} {e : TradeEscrowVault}
    {v : LiquidityVault} (hload : loadUnapproved w mint id = .ok (e, v)) :
    Avoids bad (closeReservation w mint id e v) := by
  obtain ⟨rfl, he, rfl, hv, -⟩ := loadUnapproved_ok hload
  simp only [closeReservation, returnToSeller, avoids_bind, avoids_pure, implies_true, and_true]
  split_ifs with hst
  · have hfunded : phase e.state = .funded := by
      rw [hst]
      rfl
    exact avoids_unwindFundedTradeEscrow hbad (hback.escrow _ e he hfunded)
      (hback.pending _ e v he hfunded hv)
  · simp only [avoids_bind, avoids_pure, avoids_releaseReservationMarking hbad, implies_true,
      and_self]

omit hback in
theorem avoids_loadUnapproved (mint : Pubkey) (id : ℕ) : Avoids bad (loadUnapproved w mint id) := by
  simp only [loadUnapproved, avoids_bind, avoids_require, avoids_pure, avoids_loads hbad.anchor,
    hbad.anchor, hbad.escrow, false_imp_iff, implies_true, and_true]

theorem avoids_cancelReservation (signer mint : Pubkey) (id : ℕ) :
    Avoids bad (cancelReservation w signer mint id) := by
  simp only [cancelReservation, avoids_bind, avoids_require, avoids_loadUnapproved hbad,
    hbad.escrow, false_imp_iff, true_and]
  exact fun _ hload _ _ => avoids_closeReservation hbad hback hload

theorem avoids_expireReservation (mint : Pubkey) (id : ℕ) :
    Avoids bad (expireReservation w mint id) := by
  simp only [expireReservation, avoids_bind, avoids_require, avoids_loadUnapproved hbad,
    hbad.escrow, false_imp_iff, true_and]
  exact fun _ hload _ _ => avoids_closeReservation hbad hback hload

theorem avoids_drawDeposit {seller mint : Pubkey} {v : LiquidityVault} {n : ℕ}
    (hv : w.liquidityVaults.lookup (seller, mint) = some v) (hn : n ≤ v.available) :
    Avoids bad (drawDeposit w.tokens seller mint v n) := by
  simp only [drawDeposit, avoids_bind, avoids_checkedSub, avoids_pure, hbad.escrow, false_imp_iff,
    implies_true, and_true]
  refine hbad.avoids_transfer fun h => ?_
  have hvault := hback.vault seller mint v hv h
  omega

theorem avoids_openDisputeCase (signer : Pubkey) (id : ℕ) (mint : Pubkey)
    (commitSecs revealSecs : ℤ) :
    Avoids bad (openDisputeCase P w signer id mint commitSecs revealSecs) := by
  have hrecord (claim : StakeRecoveryClaim) (n : ℕ) : Avoids bad (recordShortfall claim n) := by
    unfold recordShortfall
    split_ifs
    · simp only [avoids_bind, avoids_checkedAdd, avoids_pure, hbad.escrow, false_imp_iff,
        implies_true, and_self]
    · exact avoids_of_ok _
  simp only [openDisputeCase, avoids_bind, avoids_require, avoids_checkedSub, avoids_checkedAddI64,
    avoids_pure, avoids_loads hbad.anchor, hbad.avoids_raiseEscrow, hrecord, hbad.anchor,
    hbad.escrow, false_imp_iff, implies_true, and_true, true_and, loadLiquidityVault_ok]
  intro e _ fees _ v hv
  intros
  unfold takeDeposit
  split_ifs
  · exact avoids_drawDeposit hbad hback hv (min_le_right _ _)
  · exact avoids_of_ok _

theorem avoids_topUpArbitrationDeposit (id : ℕ) (mint : Pubkey) :
    Avoids bad (topUpArbitrationDeposit w id mint) := by
  simp only [topUpArbitrationDeposit, avoids_bind, avoids_require, avoids_load, avoids_checkedSub,
    avoids_checkedAdd, avoids_pure, avoids_loads hbad.anchor, hbad.anchor, hbad.escrow,
    false_imp_iff, implies_true, and_true, true_and, loadLiquidityVault_ok]
  intro c _ e _ v hv
  intros
  exact avoids_drawDeposit hbad hback hv (min_le_right _ _)

end

/-- What a docket has to provide for its escrow to be paid out. -/
structure PayoutBacked (bad : Failure → Prop) (d : Docket) : Prop where
  funds : bad (shortOf (.tradeEscrowTokens d.escrow.reservationId)) →
    d.escrow.amount ≤ d.tokens.balance (.tradeEscrowTokens d.escrow.reservationId)
  pending : bad (.panicked .subtraction) → d.escrow.amount ≤ d.vault.pendingSettlement

theorem PayoutBacked.settled {bad : Failure → Prop} {outcome : Option DisputeOutcome}
    {d d' : Docket} (h : PayoutBacked bad d) (hs : DepositSettlement outcome d d') :
    PayoutBacked bad d' := by
  obtain ⟨he, hv, -⟩ := DepositSettlement.keys hs
  obtain ⟨ms, hm, hsource⟩ := hs.moved
  have hkept : Ledger.Kept (· = .tradeEscrowTokens d.escrow.reservationId) d.tokens d'.tokens :=
    hm.kept fun m hm => hsource m hm ▸ Pubkey.noConfusion
  refine ⟨?_, ?_⟩
  · rw [he]
    exact fun hb => (h.funds hb).trans (hkept.balance _ rfl)
  · rw [he, hv]
    exact h.pending

section
variable {bad : Failure → Prop} (hbad : Unchecked bad) {P : Platform} {w : World} {d : Docket}
include hbad

theorem avoids_settleDeposit {outcome : Option DisputeOutcome}
    (hpool : bad (shortOf .arbitrationPool) → d.dispute.depositSettled = false →
      d.dispute.deposit ≤ d.tokens.balance .arbitrationPool) :
    Avoids bad (settleDeposit d outcome) := by
  unfold settleDeposit
  split_ifs with hheld hbuyer
  · exact avoids_of_ok _
  · exact avoids_of_ok _
  · simp only [avoids_bind, avoids_checkedAdd, avoids_pure, hbad.escrow, false_imp_iff,
      implies_true, and_true]
    have hopen : d.dispute.depositSettled = false := by
      simpa using (not_or.mp hheld).1
    exact hbad.avoids_transfer fun hb => hpool hb hopen

variable {buyerTokenAccount : Pubkey}

theorem avoids_splitDocket (hd : PayoutBacked bad d) :
    Avoids bad (splitDocket d buyerTokenAccount) := by
  simp only [splitDocket, avoids_bind, avoids_pure, implies_true, and_true]
  exact avoids_splitTradeEscrowEvenly hbad hd.funds hd.pending

theorem avoids_payVerdict {fees : FeeConfig} (outcome : DisputeOutcome) (hd : PayoutBacked bad d) :
    Avoids bad (payVerdict d fees buyerTokenAccount outcome) := by
  cases outcome with
  | buyerWins =>
    simp only [payVerdict, avoids_bind, avoids_pure, implies_true, and_true]
    exact avoids_releaseTradeEscrowFunds hbad hd.funds hd.pending
  | merchantWins | invalidDispute =>
    simp only [payVerdict, avoids_bind, avoids_pure, implies_true, and_true]
    exact avoids_unwindFundedTradeEscrow hbad hd.funds hd.pending
  | mutualSettlement => exact avoids_splitDocket hbad hd

/-- A round avoids failures that its pool, its escrow and its vault prevent. -/
theorem avoids_executeRound {fees : FeeConfig} {policy : Option Pubkey}
    (hadd : ¬ bad (.panicked .addition))
    (hpool : bad (shortOf .arbitrationPool) → d.dispute.depositSettled = false →
      d.dispute.deposit ≤ d.tokens.balance .arbitrationPool) (hd : PayoutBacked bad d) :
    Avoids bad (executeRound P w d fees buyerTokenAccount policy) := by
  have hterminal (reason : TerminalSplitReason) : Avoids bad (terminalSplit
      { d with dispute := barSilentSeats d.dispute } buyerTokenAccount reason) := by
    simp only [terminalSplit, avoids_bind, avoids_pure, implies_true, and_true]
    refine ⟨avoids_settleDeposit hbad hpool, fun d₁ h₁ => avoids_splitDocket hbad ?_⟩
    exact PayoutBacked.settled (d := { d with dispute := barSilentSeats d.dispute })
      ⟨hd.funds, hd.pending⟩ (settleDeposit_ok h₁)
  have hpublished : Avoids bad (publishedPoolSize w policy) := by
    cases policy with
    | none => exact avoids_of_ok _
    | some =>
      simp only [publishedPoolSize, avoids_bind, avoids_require, avoids_load, avoids_pure,
        hbad.anchor, hbad.escrow, false_imp_iff, implies_true, and_self]
  unfold executeRound
  split
  · simp only [executeVerdict, avoids_bind, avoids_require, avoids_pure, hadd, false_imp_iff,
      implies_true, and_true, true_and]
    intro _ _
    exact ⟨avoids_settleDeposit hbad hpool, fun d₁ h₁ =>
      avoids_payVerdict hbad _ (hd.settled (settleDeposit_ok h₁))⟩
  · simp only [handleUndecidedRound, avoids_bind, avoids_checkedAdd, hpublished, hbad.escrow,
      false_imp_iff, true_and]
    intro _ _ _ _
    split_ifs
    · exact hterminal _
    · simp only [reopenRound, avoids_bind, avoids_checkedAddI64, avoids_pure,
        hbad.avoids_raiseEscrow, hbad.escrow, false_imp_iff, implies_true, and_self]
    · exact hterminal _

theorem avoids_executeDisputeOutcome (hback : Backed bad w) (hadd : ¬ bad (.panicked .addition))
    (hpool : ∀ id c, w.disputeCases.lookup id = some c → bad (shortOf .arbitrationPool) →
      c.depositSettled = false → c.deposit ≤ w.tokens.balance .arbitrationPool)
    (a : ExecuteAccounts) : Avoids bad (executeDisputeOutcome P w a) := by
  simp only [executeDisputeOutcome, loadTreasuries, avoids_bind, avoids_require, avoids_pure,
    avoids_loads hbad.anchor, hbad.anchor, hbad.escrow, false_imp_iff, implies_true, and_true,
    true_and, require_ok, loadLiquidityVault_ok, loadTradeEscrow_ok, loadDisputeCase_ok,
    forall_const]
  intro c hc e he _ _ v hv _ _ _ _ fees _ _ _ _ _ ov _ _ _ _ _ hm hst
  intros
  obtain ⟨he, hid⟩ := he
  rw [← hid] at he
  rw [← hm] at hv
  have hfunded : phase e.state = .funded := by
    rw [hst]
    rfl
  exact avoids_executeRound hbad hadd (hpool a.caseId c hc.1)
    ⟨hback.escrow _ e he hfunded, hback.pending _ e v he hfunded hv⟩

theorem avoids_claimArbitrationReward
    (hpool : ∀ id c, w.disputeCases.lookup id = some c → bad (shortOf .arbitrationPool) →
      0 < c.rewardRemaining → c.rewardRemaining ≤ w.tokens.balance .arbitrationPool)
    (arbitrator : Pubkey) (id : ℕ) (mint target : Pubkey) :
    Avoids bad (claimArbitrationReward w arbitrator id mint target) := by
  simp only [claimArbitrationReward, avoids_bind, avoids_require, avoids_load, avoids_checkedSub,
    avoids_pure, avoids_loads hbad.anchor, hbad.anchor, hbad.escrow, false_imp_iff, implies_true,
    and_true, true_and, require_ok, loadDisputeCase_ok]
  intro c hc _ _ _ _ _ _ _ _ _ _ _ _ _ _ _ _ outcome _ _ hpos index _ _ _ _ _ _ _
  refine hbad.avoids_transfer fun hb => ?_
  exact (rewardShare_le c outcome _).trans (hpool id c hc.1 hb hpos)

end

end OpenFiat.EscrowFailures
