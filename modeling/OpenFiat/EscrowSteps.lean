import OpenFiat.CustodyRefinement

/-!
# What a step does to a trade escrow

Eight instructions write trade escrows. `EscrowStep` lists everything one of them
can have done to an escrow; the ones that pay out of its token account say to
whom, in `Payout`. `step_trade` reads this off for one escrow: it is created once,
never removed, and every other step leaves its record and its tokens alone.
-/
namespace OpenFiat.EscrowSteps
open GuardedResult FiniteTable TokenLedger ProgramAddress EscrowAccounts
open ChainWorld EscrowFunds EscrowLiquidity EscrowDisputes
open ChainSteps LedgerCustody CustodyRefinement TokenLedger.Ledger

def refund (id : ℕ) (e : TradeEscrowVault) : List (Transfer Pubkey) :=
  [⟨.tradeEscrowTokens id, .liquidityVaultTokens e.seller e.mint, e.amount⟩]

def PaysBuyer (w : World) (id : ℕ) (e : TradeEscrowVault) (target : Pubkey)
    (ms : List (Transfer Pubkey)) : Prop :=
  ∃ fees buyerAmount shares, w.feeConfig = some fees ∧
    computeFeeSplit fees e.amount = .ok (buyerAmount, shares) ∧
    ms = Ledger.payments (.tradeEscrowTokens id)
      ((target, buyerAmount) :: treasuryPayments fees shares)

def paysHalves (id : ℕ) (e : TradeEscrowVault) (target : Pubkey) : List (Transfer Pubkey) :=
  Ledger.payments (.tradeEscrowTokens id) (splitPayments e target)

/-- How a dispute that ends with the given outcome pays. -/
def PaysVerdict (w : World) (id : ℕ) (e : TradeEscrowVault) (target : Pubkey)
    (ms : List (Transfer Pubkey)) : Option DisputeOutcome → Prop
  | some .buyerWins => PaysBuyer w id e target ms
  | some .merchantWins | some .invalidDispute => ms = refund id e
  | some .mutualSettlement | none => ms = paysHalves id e target

def Closes (id : ℕ) (ix : Instruction) : Prop :=
  (∃ signer mint, ix = .cancelReservation signer mint id) ∨ ∃ mint, ix = .expireReservation mint id

/-- The transfers `ms` by which the step `ix` empties the funded escrow `e`. -/
inductive Payout (w : World) (ix : Instruction) (w' : World) (id : ℕ) (e : TradeEscrowVault)
    (ms : List (Transfer Pubkey)) : Prop
  | released {mint target : Pubkey} : ix = .releaseEscrow mint id target →
      e.state = .awaitingFiatSettlement → e.approved = true →
      w.tokens.header target = some (e.mint, e.buyer) → PaysBuyer w id e target ms →
      Payout w ix w' id e ms
  | closed : Closes id ix → e.state = .awaitingFiatSettlement → e.approved = false →
      ms = refund id e → Payout w ix w' id e ms
  | judged {a : ExecuteAccounts} {c : DisputeCase} : ix = .executeDisputeOutcome a →
      a.escrowId = id → e.state = .frozen →
      w.tokens.header a.buyerTokenAccount = some (e.mint, e.buyer) →
      w'.disputeCases.lookup id = some c → c.resolved = true →
      PaysVerdict w id e a.buyerTokenAccount ms c.outcome → Payout w ix w' id e ms

variable {id : ℕ} {ms : List (Transfer Pubkey)} {e : TradeEscrowVault} {target : Pubkey}

theorem payments_source {shares : List (Pubkey × ℕ)}
    (h : ms = payments (.tradeEscrowTokens id) shares) :
    ∀ m ∈ ms, m.source = .tradeEscrowTokens id := by
  rw [h]
  exact fun m hm => source_of_mem_payments hm

theorem refund_source (h : ms = refund id e) : ∀ m ∈ ms, m.source = .tradeEscrowTokens id := by
  intro m hm
  rw [h, refund, List.mem_singleton] at hm
  rw [hm]

theorem PaysVerdict.source {w : World} {outcome : Option DisputeOutcome}
    (h : PaysVerdict w id e target ms outcome) : ∀ m ∈ ms, m.source = .tradeEscrowTokens id := by
  match outcome, h with
  | some .buyerWins, ⟨_, _, _, _, _, h⟩ => exact payments_source h
  | some .merchantWins, h => exact refund_source h
  | some .invalidDispute, h => exact refund_source h
  | some .mutualSettlement, h => exact payments_source h
  | none, h => exact payments_source h

theorem Payout.sum {w w' : World} {ix : Instruction} (h : Payout w ix w' id e ms) :
    (ms.map (·.amount)).sum = e.amount := by
  have hbuyer {target : Pubkey} (h : PaysBuyer w id e target ms) :
      (ms.map (·.amount)).sum = e.amount := by
    obtain ⟨fees, b, shares, -, hsplit, rfl⟩ := h
    rw [sum_payments, sum_releasePayments _ hsplit]
  have hrefund (h : ms = refund id e) : (ms.map (·.amount)).sum = e.amount := by
    rw [h]
    exact Nat.add_zero _
  have hhalves {target : Pubkey} (h : ms = paysHalves id e target) :
      (ms.map (·.amount)).sum = e.amount := by
    rw [h, paysHalves, sum_payments]
    simp only [splitPayments, List.map_cons, List.map_nil, List.sum_cons, List.sum_nil]
    omega
  cases h with
  | released _ _ _ _ hpays => exact hbuyer hpays
  | closed _ _ _ hpays => exact hrefund hpays
  | @judged a c _ _ _ _ _ _ hpays =>
    rcases houtcome : c.outcome with _ | _ | _ | _ | _
    all_goals rw [houtcome] at hpays
    · exact hhalves hpays
    · exact hbuyer hpays
    · exact hrefund hpays
    · exact hhalves hpays
    · exact hrefund hpays

def Quiet (id : ℕ) (w w' : World) : Prop :=
  w'.tokens.paidBy (.tradeEscrowTokens id) = w.tokens.paidBy (.tradeEscrowTokens id)

/-- What the step `ix` from `w` to `w'` did to the escrow `e` stored under `id`. -/
inductive EscrowStep (w : World) (ix : Instruction) (w' : World) (id : ℕ)
    (e : TradeEscrowVault) : TradeEscrowVault → Prop
  | funded {merchant : ℕ} {mint : Pubkey} : ix = .fundTradeEscrow merchant mint id →
      e.state = .reserved → Quiet id w w' →
      EscrowStep w ix w' id e { e with state := .awaitingFiatSettlement }
  | approved {merchant : ℕ} : ix = .approveSettlement merchant id →
      e.state = .awaitingFiatSettlement → Quiet id w w' →
      EscrowStep w ix w' id e { e with approved := true }
  | frozen {signer : ℕ} {mint : Pubkey} {commitSecs revealSecs : ℤ} :
      ix = .openDisputeCase signer id mint commitSecs revealSecs →
      e.state = .awaitingFiatSettlement → Quiet id w w' →
      EscrowStep w ix w' id e { e with state := .frozen }
  | dropped : Closes id ix → e.state = .reserved → e.approved = false → Quiet id w w' →
      EscrowStep w ix w' id e { e with state := .cancelled }
  | carried {a : ExecuteAccounts} : ix = .executeDisputeOutcome a → a.escrowId = id →
      e.state = .frozen → Quiet id w w' → EscrowStep w ix w' id e e
  | paid {ms : List (Transfer Pubkey)} {state : VaultState} : Payout w ix w' id e ms →
      w'.tokens.paidBy (.tradeEscrowTokens id) =
        w.tokens.paidBy (.tradeEscrowTokens id) ++ ms →
      VaultState.Terminal state → EscrowStep w ix w' id e { e with state }

def escrowOf : Instruction → Option ℕ
  | .createTradeEscrow _ _ _ id .. | .fundTradeEscrow _ _ id | .approveSettlement _ id
  | .releaseEscrow _ id _ | .cancelReservation _ _ id | .expireReservation _ id
  | .openDisputeCase _ id .. => some id
  | .executeDisputeOutcome a => some a.escrowId
  | _ => none

inductive TradeStep (w : World) (ix : Instruction) (w' : World) : Prop
  | outside : escrowOf ix = none → w'.tradeEscrows = w.tradeEscrows → (∀ j, Quiet j w w') →
      TradeStep w ix w'
  | created {merchant : ℕ} {buyer mint : Pubkey} {id n : ℕ} {secs : ℤ} {e : TradeEscrowVault} :
      ix = .createTradeEscrow merchant buyer mint id n secs → w.tradeEscrows.lookup id = none →
      e.state = .reserved → e.approved = false → w'.tradeEscrows = w.tradeEscrows.insert id e →
      (∀ j, Quiet j w w') → TradeStep w ix w'
  | changed {id : ℕ} {e e' : TradeEscrowVault} : w.tradeEscrows.lookup id = some e →
      EscrowStep w ix w' id e e' → w'.tradeEscrows = w.tradeEscrows.insert id e' →
      (∀ j, j ≠ id → Quiet j w w') → TradeStep w ix w'

section
variable {P : Platform} {w w' : World} {ix : Instruction}

theorem quiet_of_kept
    (h : Ledger.Kept (fun k => ∃ id, k = .tradeEscrowTokens id) w.tokens w'.tokens)
    (id : ℕ) : Quiet id w w' := h.paidBy ⟨id, rfl⟩

theorem quiet_of_single {source : Pubkey} {n : ℕ}
    (h : Ledger.Moved [⟨source, target, n⟩] w.tokens w'.tokens)
    (hs : ∀ id, source ≠ .tradeEscrowTokens id) (id : ℕ) : Quiet id w w' :=
  quiet_of_kept (kept_single h fun ⟨j, hj⟩ => hs j hj) id

theorem quiet_of_payments {source : Pubkey} {shares : List (Pubkey × ℕ)}
    (h : Ledger.Moved (payments source shares) w.tokens w'.tokens)
    (hs : ∀ id, source ≠ .tradeEscrowTokens id) (id : ℕ) : Quiet id w w' :=
  quiet_of_kept (h.kept fun _ hm ⟨j, hj⟩ =>
    hs j ((source_of_mem_payments hm).symm.trans hj)) id

theorem quiet_of_source (h : Ledger.Moved ms w.tokens w'.tokens)
    (hs : ∀ m ∈ ms, m.source = .arbitrationPool ∨ m.source = .tradeEscrowTokens id) {j : ℕ}
    (hj : j ≠ id) : Quiet j w w' := by
  have hkept : Ledger.Kept (· = .tradeEscrowTokens j) w.tokens w'.tokens := by
    refine h.kept fun m hm hm' => ?_
    rcases hs m hm with hs | hs
    · rw [hs] at hm'
      cases hm'
    · rw [hs] at hm'
      exact hj (Pubkey.tradeEscrowTokens.inj hm').symm
  exact hkept.paidBy rfl

theorem step_outsideTrades (hc : Custodial w.tokens) (hix : escrowOf ix = none)
    (h : step P w ix = .ok w') :
    w'.tradeEscrows = w.tradeEscrows ∧ ∀ id, Quiet id w w' := by
  have hwrites : (writes ix).contains .escrows = false := by
    cases ix <;> first | rfl | cases hix
  have hpurses : (purses ix).contains .escrows = false := by
    cases ix <;> first | rfl | cases hix
  refine ⟨step_same h .escrows hwrites, quiet_of_kept (step_kept hc h ?_)⟩
  rintro k ⟨id, rfl⟩
  exact ⟨.escrows, rfl, hpurses⟩

theorem changed_of_closes (hix : Closes id ix) (h : ClosesReservation w id w') :
    TradeStep w ix w' := by
  obtain ⟨e, v, L, v', he, hid, -, happ, hst, hr, rfl⟩ := h
  rcases returnToSeller_ok hr with ⟨hfunded, hunwind⟩ | ⟨hunfunded, rfl, -⟩
  · obtain ⟨hm, -⟩ := unwindFundedTradeEscrow_ok hunwind
    rw [hid] at hm
    have hsource : ∀ m ∈ refund id e, m.source = .tradeEscrowTokens id := refund_source rfl
    refine .changed he (.paid (.closed hix hfunded happ rfl) ?_ (.inr rfl)) rfl ?_
    · exact paidBy_own hm.history hsource
    · exact fun j hj => quiet_of_source hm (fun m hm => .inr (hsource m hm)) hj
  · have hreserved := hst.resolve_right hunfunded
    exact .changed he (.dropped hix hreserved happ rfl) rfl fun _ _ => rfl

variable {d : Docket}

theorem payVerdict_pays {fees : FeeConfig} {d' : Docket} {outcome : DisputeOutcome}
    (hfees : w.feeConfig = some fees) (h : payVerdict d fees target outcome = .ok d') :
    ∃ ms state, Ledger.Moved ms d.tokens d'.tokens ∧
      PaysVerdict w d.escrow.reservationId d.escrow target ms (some outcome) ∧
      VaultState.Terminal state ∧ d'.escrow = { d.escrow with state } := by
  cases outcome with
  | buyerWins =>
    simp only [payVerdict, bind_ok, pure_ok] at h
    obtain ⟨⟨L, e, v⟩, hr, rfl⟩ := h
    obtain ⟨b, shares, hsplit, hm, -, rfl, -⟩ := releaseTradeEscrowFunds_ok hr
    exact ⟨_, .released, hm, ⟨fees, b, shares, hfees, hsplit, rfl⟩, .inl rfl, rfl⟩
  | merchantWins | invalidDispute =>
    simp only [payVerdict, bind_ok, pure_ok] at h
    obtain ⟨⟨L, v⟩, hu, rfl⟩ := h
    exact ⟨_, .cancelled, (unwindFundedTradeEscrow_ok hu).1, rfl, .inr rfl, rfl⟩
  | mutualSettlement =>
    simp only [payVerdict, splitDocket, bind_ok, pure_ok] at h
    obtain ⟨⟨L, e, v⟩, hs, rfl⟩ := h
    obtain ⟨hm, -, rfl, -⟩ := splitTradeEscrowEvenly_ok hs
    exact ⟨_, .released, hm, rfl, .inl rfl, rfl⟩

/-- The settlement of the deposit comes first and pays out of the pool only. -/
theorem paidBy_after_settlement {outcome : Option DisputeOutcome} {d₁ : Docket} {L : Ledger Pubkey}
    (hs : DepositSettlement outcome d d₁) (hm : Ledger.Moved ms d₁.tokens L)
    (hsource : ∀ m ∈ ms, m.source = .tradeEscrowTokens id) :
    L.paidBy (.tradeEscrowTokens id) = d.tokens.paidBy (.tradeEscrowTokens id) ++ ms := by
  obtain ⟨ns, hns, hpool⟩ := hs.moved
  refine paidBy_append (hns.trans hm).history (fun m hm => ?_) hsource
  rw [hpool m hm]
  exact Pubkey.noConfusion

/-- A round leaves its escrow as it is or pays it out by the outcome of its case. -/
theorem roundResult_pays {fees : FeeConfig} {d' : Docket} (hfees : w.feeConfig = some fees)
    (h : RoundResult P w fees target d d') :
    (d'.escrow = d.escrow ∧ d'.tokens = d.tokens) ∨
    ∃ ms state, PaysVerdict w d.escrow.reservationId d.escrow target ms d'.dispute.outcome ∧
      d'.dispute.resolved = true ∧ VaultState.Terminal state ∧
      d'.escrow = { d.escrow with state } ∧
      d'.tokens.paidBy (.tradeEscrowTokens d.escrow.reservationId) =
        d.tokens.paidBy (.tradeEscrowTokens d.escrow.reservationId) ++ ms := by
  cases h with
  | decided _ _ hs hp =>
    obtain ⟨ms, state, hm, hpays, hterm, he⟩ := payVerdict_pays hfees hp
    rw [hs.escrow] at hpays he
    exact .inr ⟨ms, state, hpays, rfl, hterm, he, paidBy_after_settlement hs hm hpays.source⟩
  | reopened => exact .inl ⟨rfl, rfl⟩
  | terminal _ hs hp =>
    simp only [splitDocket, bind_ok, pure_ok] at hp
    obtain ⟨⟨L, e, v⟩, hsplit, rfl⟩ := hp
    obtain ⟨hm, -, he, -⟩ := splitTradeEscrowEvenly_ok hsplit
    rw [hs.escrow] at hm he
    have hpaid := paidBy_after_settlement hs hm (payments_source rfl)
    exact .inr ⟨_, .released, rfl, rfl, .inl rfl, he, hpaid⟩

theorem step_tradeStep (hk : Keyed w) (h : step P w ix = .ok w') : TradeStep w ix w' := by
  by_cases hix : escrowOf ix = none
  · obtain ⟨he, hquiet⟩ := step_outsideTrades hk.tokens hix h
    exact .outside hix he hquiet
  obtain ⟨-, h⟩ := step_ok.mp h
  cases ix with
  | createTradeEscrow =>
    obtain ⟨v, L, t, -, -, hnone, hL, rfl⟩ := createTradeEscrow_ok h
    exact .created rfl hnone rfl rfl rfl (quiet_of_kept (kept_createAccount hL))
  | fundTradeEscrow merchant mint id =>
    obtain ⟨v, e, L, -, he, -, -, -, hst, -, hL, rfl⟩ := fundTradeEscrow_ok h
    have hsource (j : ℕ) : Pubkey.liquidityVaultTokens (.wallet merchant) mint ≠
      .tradeEscrowTokens j := Pubkey.noConfusion
    exact .changed he (.funded rfl hst (quiet_of_single hL hsource id)) rfl
      fun j _ => quiet_of_single hL hsource j
  | approveSettlement =>
    obtain ⟨e, he, hst, rfl⟩ := approveSettlement_ok h
    exact .changed he (.approved rfl hst rfl) rfl fun _ _ => rfl
  | releaseEscrow =>
    obtain ⟨e, v, c, L, e', v', he, hid, -, hfees, -, hst, happ, hbuyer, hr, rfl⟩ :=
      releaseEscrow_ok h
    obtain ⟨b, shares, hsplit, hm, -, rfl, -⟩ := releaseTradeEscrowFunds_ok hr
    rw [hid] at hm
    have hpaid := paidBy_own hm.history fun m hm => source_of_mem_payments hm
    refine .changed he (.paid (.released rfl hst happ hbuyer ⟨c, b, shares, hfees, hsplit, rfl⟩)
      hpaid (.inl rfl)) rfl fun j hj => ?_
    exact quiet_of_source hm (fun m hm => .inr (source_of_mem_payments hm)) hj
  | cancelReservation signer mint =>
    exact changed_of_closes (.inl ⟨signer, mint, rfl⟩) (cancelReservation_ok h)
  | expireReservation mint =>
    exact changed_of_closes (.inr ⟨mint, rfl⟩) (expireReservation_ok h)
  | openDisputeCase signer id mint =>
    obtain ⟨e, fees, v, L, claim, seed, he, -, -, hst, -, -, -, -, -, -, hL, -, -, rfl⟩ :=
      openDisputeCase_ok h
    have hsource (j : ℕ) : Pubkey.liquidityVaultTokens e.seller mint ≠ .tradeEscrowTokens j :=
      Pubkey.noConfusion
    exact .changed he (.frozen rfl hst (quiet_of_payments hL hsource id)) rfl
      fun j _ => quiet_of_payments hL hsource j
  | executeDisputeOutcome a =>
    obtain ⟨c, e, v, ov, fees, d, hc, he, hid, hmint, -, hfees, -, -, htrade, hst, -, -, -, hbuyer,
      hround, rfl⟩ := executeDisputeOutcome_ok h
    have hcase : a.caseId = a.escrowId := by
      rw [(hk.dispute _ _ hc).1] at htrade
      exact (Pubkey.tradeEscrow.inj htrade).symm
    obtain ⟨ms, hm, hsource⟩ := hround.moved
    rw [hid] at hsource
    rcases roundResult_pays hfees hround with
      ⟨hsame, htokens⟩ | ⟨ns, state, hpays, hres, hterm, hescrow, hpaid⟩
    · refine .changed he (.carried rfl rfl hst ?_) (by rw [hsame]) ?_
      · exact congrArg (paidBy · _) htokens
      · exact fun j _ => congrArg (paidBy · _) htokens
    · rw [hid] at hpays hpaid
      refine .changed he (.paid (.judged rfl rfl hst (hmint ▸ hbuyer) ?_ hres hpays) hpaid hterm)
        (by rw [hescrow]) fun j hj => quiet_of_source hm hsource hj
      rw [hcase, Finmap.lookup_insert]
  | _ => exact absurd rfl hix

theorem EscrowStep.escrowOf_eq {e' : TradeEscrowVault} (h : EscrowStep w ix w' id e e') :
    escrowOf ix = some id := by
  have hcloses (h : Closes id ix) : escrowOf ix = some id := by
    rcases h with ⟨_, _, rfl⟩ | ⟨_, rfl⟩ <;> rfl
  cases h with
  | funded hix | approved hix | frozen hix => rw [hix, escrowOf]
  | dropped hix => exact hcloses hix
  | carried hix hid => rw [hix, escrowOf, hid]
  | paid hpays =>
    cases hpays with
    | released hix => rw [hix, escrowOf]
    | closed hix => exact hcloses hix
    | judged hix hid => rw [hix, escrowOf, hid]

inductive TradeSlot (w : World) (ix : Instruction) (w' : World) (id : ℕ) :
    Option TradeEscrowVault → Option TradeEscrowVault → Prop
  | untouched {slot : Option TradeEscrowVault} : escrowOf ix ≠ some id → Quiet id w w' →
      TradeSlot w ix w' id slot slot
  | created {merchant : ℕ} {buyer mint : Pubkey} {n : ℕ} {secs : ℤ} {e : TradeEscrowVault} :
      ix = .createTradeEscrow merchant buyer mint id n secs → e.state = .reserved →
      e.approved = false → Quiet id w w' → TradeSlot w ix w' id none (some e)
  | changed {e e' : TradeEscrowVault} : EscrowStep w ix w' id e e' →
      TradeSlot w ix w' id (some e) (some e')

theorem step_trade (hk : Keyed w) (h : step P w ix = .ok w') (id : ℕ) :
    TradeSlot w ix w' id (w.tradeEscrows.lookup id) (w'.tradeEscrows.lookup id) := by
  cases step_tradeStep hk h with
  | outside hix he hquiet =>
    rw [he]
    refine .untouched ?_ (hquiet id)
    rw [hix]
    exact (Option.some_ne_none id).symm
  | created hix hnone hst happ he hquiet =>
    rw [he, Table.lookup_insert_eq]
    split_ifs with hid
    · subst hid
      rw [hnone]
      exact .created hix hst happ (hquiet id)
    · refine .untouched ?_ (hquiet id)
      rw [hix]
      exact fun heq => hid (Option.some.inj heq).symm
  | changed hsome hstep he hquiet =>
    rw [he, Table.lookup_insert_eq]
    split_ifs with hid
    · subst hid
      rw [hsome]
      exact .changed hstep
    · refine .untouched ?_ (hquiet id hid)
      rw [hstep.escrowOf_eq]
      exact fun heq => hid (Option.some.inj heq).symm

end

end OpenFiat.EscrowSteps
