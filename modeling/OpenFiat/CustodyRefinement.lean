import OpenFiat.CustodyBook
import OpenFiat.LedgerCustody

/-!
# The escrow program keeps a custody book

`book` reads the liquidity vaults as pools and the trade escrows as boxes, with
the balances of their token accounts. Every successful step of the chain either
opens a box or is a sequence of moves of the book: the transfers of a handler and
its counter updates match. The abstract results about books then hold of every
reachable state.

Two structural facts are carried along: records are stored under the keys they
contain, and the programs own their token accounts.
-/
namespace OpenFiat.CustodyRefinement
open FiniteTable TokenLedger ProgramAddress EscrowAccounts
open ChainWorld EscrowFunds EscrowLiquidity EscrowDisputes
open ChainSteps LedgerCustody CustodyBook FiniteTable.Table TokenLedger.Ledger

abbrev VaultKey := Pubkey × Pubkey

def vaultTokens (k : VaultKey) : Pubkey := .liquidityVaultTokens k.1 k.2

def phase : VaultState → Phase
  | .reserved => .reserved
  | .awaitingFiatSettlement => .funded
  | .frozen => .funded
  | .available => .closed
  | .released => .closed
  | .cancelled => .closed

def poolView (v : LiquidityVault) : Pool :=
  ⟨v.total, v.available, v.reserved, v.pendingSettlement, v.settled⟩

def boxView (e : TradeEscrowVault) : Box VaultKey := ⟨(e.seller, e.mint), e.amount, phase e.state⟩

def bookOf (L : Ledger Pubkey) (vaults : Table VaultKey LiquidityVault)
    (escrows : Table ℕ TradeEscrowVault) : Book VaultKey ℕ where
  pools := Table.mapValues poolView vaults
  boxes := Table.mapValues boxView escrows
  poolBalance k := L.balance (vaultTokens k)
  boxBalance id := L.balance (.tradeEscrowTokens id)

def book (w : World) : Book VaultKey ℕ := bookOf w.tokens w.liquidityVaults w.tradeEscrows

theorem vaultTokens_inj {j k : VaultKey} : vaultTokens k = vaultTokens j ↔ j = k := by
  obtain ⟨j₁, j₂⟩ := j
  obtain ⟨k₁, k₂⟩ := k
  simp [vaultTokens, eq_comm]

theorem phase_terminal {s : VaultState} (h : VaultState.Terminal s) : phase s = .closed := by
  rcases h with rfl | rfl <;> rfl

variable {d d' : Docket} {e : TradeEscrowVault} {id : ℕ} {ms : List (Transfer Pubkey)}
  {outcome : Option DisputeOutcome}

section Moves
variable {L L' : Ledger Pubkey} {vaults : Table VaultKey LiquidityVault}
  {escrows escrows' : Table ℕ TradeEscrowVault} {k : VaultKey} {v : LiquidityVault} {n : ℕ}

theorem pools_lookup (L : Ledger Pubkey) (escrows : Table ℕ TradeEscrowVault)
    (hv : vaults.lookup k = some v) :
    (bookOf L vaults escrows).pools.lookup k = some (poolView v) := by
  simp [bookOf, hv]

theorem boxes_lookup (L : Ledger Pubkey) (vaults : Table VaultKey LiquidityVault)
    (he : escrows.lookup id = some e) :
    (bookOf L vaults escrows).boxes.lookup id = some (boxView e) := by
  simp [bookOf, he]

/-- Tokens that only arrive at the program's accounts. -/
theorem move_grow
    (h : Ledger.Kept (fun k => purseOf k = some .vaults ∨ purseOf k = some .escrows) L L') :
    Move (bookOf L vaults escrows) (bookOf L' vaults escrows) :=
  Move.grow (fun _ => h.balance _ (.inl rfl)) fun _ => h.balance _ (.inr rfl)

/-- Transfers out of one vault that its available part pays for. -/
theorem move_withdraw (hv : vaults.lookup k = some v) (hm : Ledger.Moved ms L L')
    (hsource : ∀ m ∈ ms, m.source = vaultTokens k) (hsum : (ms.map (·.amount)).sum = n)
    (ha : n ≤ v.available) (ht : n ≤ v.total)
    (hboxes : mapValues boxView escrows' = mapValues boxView escrows) :
    Move (bookOf L vaults escrows) (bookOf L' (vaults.insert k
      { v with available := v.available - n, total := v.total - n }) escrows') := by
  have hout (j : Pubkey) := outflow_of_source hsource j
  have hmove := Move.withdraw (f := (bookOf L' vaults escrows).poolBalance)
    (g := (bookOf L' vaults escrows).boxBalance) (pools_lookup L escrows hv)
    ha ht (fun j => ?_) fun id => ?_
  · simp only [bookOf, hboxes, mapValues_insert] at hmove ⊢
    exact hmove
  · have hb := hm.balance (vaultTokens j)
    rw [hout, hsum] at hb
    simp only [bookOf, eq_comm (a := j), ← vaultTokens_inj (j := k)]
    omega
  · have hb := hm.balance (.tradeEscrowTokens id)
    rw [hout, if_neg Pubkey.noConfusion] at hb
    simp only [bookOf]
    omega

theorem move_deposit {source : Pubkey} (hv : vaults.lookup k = some v)
    (hm : Ledger.Moved [⟨source, vaultTokens k, n⟩] L L')
    (hsource : (∀ j, source ≠ vaultTokens j) ∧ ∀ id, source ≠ .tradeEscrowTokens id) :
    Move (bookOf L vaults escrows) (bookOf L' (vaults.insert k
      { v with total := v.total + n, available := v.available + n }) escrows) := by
  have hmove := Move.deposit (n := n) (f := (bookOf L' vaults escrows).poolBalance)
    (g := (bookOf L' vaults escrows).boxBalance) (pools_lookup L escrows hv)
    (fun j => ?_) fun id => ?_
  · simp only [bookOf, mapValues_insert] at hmove ⊢
    exact hmove
  · have hb := hm.balance (vaultTokens j)
    simp only [outflow_cons, outflow_nil, inflow_cons, inflow_nil,
      if_neg (hsource.1 j), vaultTokens_inj] at hb
    simp only [bookOf]
    omega
  · have hb := hm.balance (.tradeEscrowTokens id)
    simp only [outflow_cons, outflow_nil, if_neg (hsource.2 id)] at hb
    simp only [bookOf]
    omega

theorem move_fund (he : escrows.lookup id = some e) (hst : e.state = .reserved)
    (hv : vaults.lookup (e.seller, e.mint) = some v) (hr : e.amount ≤ v.reserved)
    (hm : Ledger.Moved [⟨vaultTokens (e.seller, e.mint), .tradeEscrowTokens id, e.amount⟩] L L') :
    Move (bookOf L vaults escrows) (bookOf L' (vaults.insert (e.seller, e.mint)
      { v with
        reserved := v.reserved - e.amount
        pendingSettlement := v.pendingSettlement + e.amount })
      (escrows.insert id { e with state := .awaitingFiatSettlement })) := by
  have hphase : (boxView e).phase = .reserved := by simp only [boxView, hst, phase]
  have hmove := Move.fund (f := (bookOf L' vaults escrows).poolBalance)
    (g := (bookOf L' vaults escrows).boxBalance) (boxes_lookup L vaults he)
    hphase (pools_lookup L escrows hv) hr (fun j => ?_) fun j => ?_
  · simp only [bookOf, mapValues_insert] at hmove ⊢
    exact hmove
  · have hb := hm.balance (vaultTokens j)
    have hne : ¬ Pubkey.tradeEscrowTokens id = vaultTokens j := Pubkey.noConfusion
    simp only [outflow_cons, outflow_nil, inflow_cons, inflow_nil,
      vaultTokens_inj, if_neg hne] at hb
    simp only [bookOf, boxView]
    by_cases hj : j = (e.seller, e.mint)
    · simp only [hj, if_true] at hb ⊢
      omega
    · simp only [hj, if_false] at hb ⊢
      omega
  · have hb := hm.balance (.tradeEscrowTokens j)
    have hne : ¬ vaultTokens (e.seller, e.mint) = .tradeEscrowTokens j := Pubkey.noConfusion
    simp only [outflow_cons, outflow_nil, inflow_cons, inflow_nil,
      if_neg hne, Pubkey.tradeEscrowTokens.injEq, eq_comm (a := id)] at hb
    simp only [bookOf, boxView]
    omega

theorem move_payout {e' : TradeEscrowVault} {v' : LiquidityVault} {s : ℕ}
    (hp : PaidOut L L' e e' v v' ms s) (he : escrows.lookup e.reservationId = some e)
    (hst : phase e.state = .funded) (hv : vaults.lookup (e.seller, e.mint) = some v) :
    Move (bookOf L vaults escrows) (bookOf L' (vaults.insert (e.seller, e.mint) v')
      (escrows.insert e.reservationId e')) := by
  have hout (j : Pubkey) := outflow_of_source hp.source j
  obtain ⟨state, hterminal, he'⟩ := hp.escrow
  have hclosed := phase_terminal hterminal
  have hmove := Move.payout (s := s) (f := (bookOf L' vaults escrows).poolBalance)
    (g := (bookOf L' vaults escrows).boxBalance) (boxes_lookup L vaults he)
    hst (pools_lookup L escrows hv) hp.pending hp.seller_le (fun j => ?_)
    fun j => ?_
  · simp only [bookOf, mapValues_insert, he', hp.vault, boxView, poolView, hclosed]
      at hmove ⊢
    exact hmove
  · have hb := hp.moved.balance (vaultTokens j)
    have hseller := hp.seller
    rw [hout, if_neg Pubkey.noConfusion] at hb
    simp only [bookOf, boxView]
    by_cases hj : j = (e.seller, e.mint)
    · simp only [hj, if_true, vaultTokens] at hb ⊢
      omega
    · simp only [hj, if_false]
      omega
  · have hb := hp.moved.balance (.tradeEscrowTokens j)
    rw [hout, hp.sum] at hb
    simp only [bookOf, boxView, Pubkey.tradeEscrowTokens.injEq] at hb ⊢
    omega

/-- An unfunded escrow gives its amount back to the available part. -/
theorem move_unreserve (he : escrows.lookup id = some e) (hst : e.state = .reserved)
    (hv : vaults.lookup (e.seller, e.mint) = some v) (hr : e.amount ≤ v.reserved) :
    Move (bookOf L vaults escrows) (bookOf L (vaults.insert (e.seller, e.mint)
      { v with reserved := v.reserved - e.amount, available := v.available + e.amount })
      (escrows.insert id { e with state := .cancelled })) := by
  have hphase : (boxView e).phase = .reserved := by simp only [boxView, hst, phase]
  have hmove := Move.unreserve (boxes_lookup L vaults he) hphase
    (pools_lookup L escrows hv) hr
  simp only [bookOf, mapValues_insert] at hmove ⊢
  exact hmove

/-- Settling a deposit leaves the deposit's vault alone or pays the deposit into it. -/
theorem moves_settlement (h : DepositSettlement outcome d d')
    (hv : vaults.lookup k = some d.openVault)
    (hk : (d.openVault.merchant, d.dispute.depositMint) = k) :
    Moves (bookOf d.tokens vaults escrows)
      (bookOf d'.tokens (vaults.insert k d'.openVault) escrows) := by
  cases h with
  | nothingHeld | forfeited => simp only [insert_lookup hv, Relation.ReflTransGen.refl]
  | @refunded L' hs hd ho hm =>
    have hsource : (∀ j, Pubkey.arbitrationPool ≠ vaultTokens j) ∧
        ∀ id, Pubkey.arbitrationPool ≠ .tradeEscrowTokens id :=
      ⟨fun j => Pubkey.noConfusion, fun id => Pubkey.noConfusion⟩
    subst hk
    exact .single (move_deposit hv hm hsource)

end Moves

/-- Records lie under the keys they contain, and cases name the vault that their
deposit came from. -/
structure Keyed (w : World) : Prop where
  tokens : Custodial w.tokens
  vault : ∀ k v, w.liquidityVaults.lookup k = some v → (v.merchant, v.mint) = k
  escrow : ∀ id e, w.tradeEscrows.lookup id = some e → e.reservationId = id
  dispute : ∀ id c, w.disputeCases.lookup id = some c →
    c.tradeEscrow = .tradeEscrow id ∧
      ∃ merchant, c.depositVault = .liquidityVault merchant c.depositMint

section Keys
variable {P : Platform} {w w' : World} {ix : Instruction}

theorem PaidOut.keys {L L' : Ledger Pubkey} {e' : TradeEscrowVault} {v v' : LiquidityVault} {s : ℕ}
    (hp : PaidOut L L' e e' v v' ms s) :
    e'.reservationId = e.reservationId ∧ (v'.merchant, v'.mint) = (v.merchant, v.mint) := by
  obtain ⟨state, -, he⟩ := hp.escrow
  exact ⟨by rw [he], by rw [hp.vault]⟩

/-- The records of two dockets lie under the same keys. -/
def SameKeys (d d' : Docket) : Prop :=
  d'.escrow.reservationId = d.escrow.reservationId ∧
    (d'.vault.merchant, d'.vault.mint) = (d.vault.merchant, d.vault.mint) ∧
    (d'.openVault.merchant, d'.openVault.mint) = (d.openVault.merchant, d.openVault.mint) ∧
    d'.dispute.tradeEscrow = d.dispute.tradeEscrow ∧
    d'.dispute.depositVault = d.dispute.depositVault ∧
    d'.dispute.depositMint = d.dispute.depositMint

theorem DepositSettlement.keys (h : DepositSettlement outcome d d') :
    d'.escrow = d.escrow ∧ d'.vault = d.vault ∧ SameKeys d d' := by
  cases h <;> exact ⟨rfl, rfl, rfl, rfl, rfl, rfl, rfl, rfl⟩

theorem sameKeys_of_paid {d₁ d₂ : Docket} (hs : DepositSettlement outcome d d₁)
    (hp : DocketPaid d₁ d₂) : SameKeys d d₂ := by
  obtain ⟨he, hv, -, -, hrest⟩ := DepositSettlement.keys hs
  obtain ⟨⟨ms, s, hpaid⟩, hopen, hdispute⟩ := hp
  obtain ⟨hid, hkeys⟩ := PaidOut.keys hpaid
  rw [SameKeys, hid, hkeys, he, hv, hopen, hdispute]
  exact ⟨rfl, rfl, hrest⟩

theorem RoundResult.keys {fees : FeeConfig} {buyerTokenAccount : Pubkey}
    (h : RoundResult P w fees buyerTokenAccount d d') : SameKeys d d' := by
  cases h with
  | decided _ _ hs hp =>
    have hkeys := sameKeys_of_paid hs (payVerdict_paid hp)
    exact hkeys
  | reopened _ _ hr =>
    obtain ⟨seed, rfl⟩ := reopenRound_ok hr
    exact ⟨rfl, rfl, rfl, rfl, rfl, rfl⟩
  | terminal _ hs hp =>
    have hkeys := sameKeys_of_paid hs (splitDocket_paid hp)
    exact hkeys

theorem keyed_genesis (h : Genesis w) : Keyed w where
  tokens := custodial_of_genesis h
  vault := forall_of_empty h.liquidityVaults
  escrow := forall_of_empty h.tradeEscrows
  dispute := forall_of_empty h.disputeCases

theorem closesReservation_keyed (hk : Keyed w) (htokens : Custodial w'.tokens)
    (h : ClosesReservation w id w') : Keyed w' := by
  obtain ⟨e, v, L, v', he, hid, hv, -, -, hr, rfl⟩ := h
  have hkeys : (v'.merchant, v'.mint) = (v.merchant, v.mint) := by
    rcases returnToSeller_ok hr with ⟨-, hu⟩ | ⟨-, -, hm⟩
    · exact (PaidOut.keys (unwindFundedTradeEscrow_paidOut hu)).2
    · obtain ⟨-, -, rfl⟩ := releaseReservationMarking_ok.mp hm
      rfl
  refine ⟨htokens, forall_insert hk.vault ?_, forall_insert hk.escrow hid, hk.dispute⟩
  rw [hkeys]
  exact hk.vault _ v hv

theorem step_keyed (hk : Keyed w) (h : step P w ix = .ok w') : Keyed w' := by
  have htokens : Custodial w'.tokens := (step_headers h).custodial hk.tokens
  by_cases hix : (writes ix).contains .vaults = false ∧ (writes ix).contains .escrows = false ∧
      (writes ix).contains .cases = false
  · have hv : w'.liquidityVaults = w.liquidityVaults := step_same h .vaults hix.1
    have he : w'.tradeEscrows = w.tradeEscrows := step_same h .escrows hix.2.1
    have hd : w'.disputeCases = w.disputeCases := step_same h .cases hix.2.2
    exact ⟨htokens, hv ▸ hk.vault, he ▸ hk.escrow, hd ▸ hk.dispute⟩
  obtain ⟨-, h⟩ := step_ok.mp h
  cases ix with
  | createLiquidityVault =>
    obtain ⟨L, -, -, rfl⟩ := createLiquidityVault_ok h
    exact ⟨htokens, forall_insert hk.vault rfl, hk.escrow, hk.dispute⟩
  | depositLiquidity =>
    obtain ⟨v, L, hv, -, -, -, -, rfl⟩ := depositLiquidity_ok h
    exact ⟨htokens, forall_insert hk.vault (hk.vault _ v hv), hk.escrow, hk.dispute⟩
  | withdrawLiquidity =>
    obtain ⟨v, L, hv, -, -, -, rfl⟩ := withdrawLiquidity_ok h
    exact ⟨htokens, forall_insert hk.vault (hk.vault _ v hv), hk.escrow, hk.dispute⟩
  | reserveLiquidity =>
    obtain ⟨v, hv, -, rfl⟩ := reserveLiquidity_ok h
    exact ⟨htokens, forall_insert hk.vault (hk.vault _ v hv), hk.escrow, hk.dispute⟩
  | chargeAdListingFee =>
    obtain ⟨v, L, c, s, hv, -, -, -, -, rfl⟩ := chargeAdListingFee_ok h
    exact ⟨htokens, forall_insert hk.vault (hk.vault _ v hv), hk.escrow, hk.dispute⟩
  | createTradeEscrow =>
    obtain ⟨v, L, t, -, -, -, -, rfl⟩ := createTradeEscrow_ok h
    exact ⟨htokens, hk.vault, forall_insert hk.escrow rfl, hk.dispute⟩
  | fundTradeEscrow =>
    obtain ⟨v, e, L, hv, -, hid, -, -, -, -, -, rfl⟩ := fundTradeEscrow_ok h
    exact ⟨htokens, forall_insert hk.vault (hk.vault _ v hv),
      forall_insert hk.escrow hid, hk.dispute⟩
  | approveSettlement merchant id =>
    obtain ⟨e, he, -, rfl⟩ := approveSettlement_ok h
    exact ⟨htokens, hk.vault, forall_insert hk.escrow (hk.escrow id e he), hk.dispute⟩
  | releaseEscrow =>
    obtain ⟨e, v, c, L, e', v', -, hid, hv, -, -, -, -, -, hr, rfl⟩ := releaseEscrow_ok h
    obtain ⟨ms, hp⟩ := releaseTradeEscrowFunds_paidOut hr
    obtain ⟨hid', hkeys⟩ := PaidOut.keys hp
    exact ⟨htokens, forall_insert hk.vault (hkeys.trans (hk.vault _ v hv)),
      forall_insert hk.escrow (hid'.trans hid), hk.dispute⟩
  | cancelReservation =>
    exact closesReservation_keyed hk htokens (cancelReservation_ok h)
  | expireReservation =>
    exact closesReservation_keyed hk htokens (expireReservation_ok h)
  | openDisputeCase =>
    obtain ⟨e, fees, v, L, claim, seed, -, hid, -, -, -, hv, -, -, -, -, -, -, -, rfl⟩ :=
      openDisputeCase_ok h
    exact ⟨htokens, forall_insert hk.vault (hk.vault _ v hv),
      forall_insert hk.escrow hid,
      forall_insert hk.dispute ⟨rfl, e.seller, rfl⟩⟩
  | topUpArbitrationDeposit id =>
    obtain ⟨c, e, v, L, n, hc, -, hv, -, -, -, -, -, -, -, -, rfl⟩ := topUpArbitrationDeposit_ok h
    exact ⟨htokens, forall_insert hk.vault (hk.vault _ v hv), hk.escrow,
      forall_insert hk.dispute (hk.dispute id c hc)⟩
  | absorbStakeRecovery =>
    obtain ⟨c, r, v, n, -, -, hv, -, -, -, -, rfl⟩ := absorbStakeRecovery_ok h
    exact ⟨htokens, forall_insert hk.vault (hk.vault _ v hv), hk.escrow, hk.dispute⟩
  | commitDisputeVote arbitrator id =>
    obtain ⟨c, hc, -, -, -, -, -, rfl⟩ := commitDisputeVote_ok h
    exact ⟨htokens, hk.vault, hk.escrow, forall_insert hk.dispute (hk.dispute id c hc)⟩
  | revealDisputeVote arbitrator id =>
    obtain ⟨c, i, weight, hc, -, -, -, -, -, rfl⟩ := revealDisputeVote_ok h
    exact ⟨htokens, hk.vault, hk.escrow, forall_insert hk.dispute (hk.dispute id c hc)⟩
  | executeDisputeOutcome a =>
    obtain ⟨c, e, v, ov, fees, d, hc, -, hid, -, hv, -, hov, -, -, -, -, -, -, -, hd, rfl⟩ :=
      executeDisputeOutcome_ok h
    obtain ⟨hid', hkeys, hopen, ht, hdv, hdm⟩ := RoundResult.keys hd
    have hcase := hk.dispute a.caseId c hc
    refine ⟨htokens,
      forall_insert (forall_insert hk.vault (hkeys.trans (hk.vault _ v hv)))
      (hopen.trans (hk.vault _ ov hov)), forall_insert hk.escrow (hid'.trans hid),
      forall_insert hk.dispute ?_⟩
    rw [ht, hdv, hdm]
    exact hcase
  | claimArbitrationReward arbitrator id =>
    obtain ⟨c, o, i, L, hc, -, -, -, -, -, -, -, -, -, rfl⟩ := claimArbitrationReward_ok h
    exact ⟨htokens, hk.vault, hk.escrow, forall_insert hk.dispute (hk.dispute id c hc)⟩
  | _ => exact absurd ⟨rfl, rfl, rfl⟩ hix

end Keys

section Steps
variable {P : Platform} {w w' : World} {ix : Instruction}

theorem moves_close (h : ClosesReservation w id w') : Moves (book w) (book w') := by
  obtain ⟨e, v, L, v', he, rfl, hv, -, hst, hr, rfl⟩ := h
  rcases returnToSeller_ok hr with ⟨hst, hu⟩ | ⟨hne, rfl, hm⟩
  · exact .single (move_payout (unwindFundedTradeEscrow_paidOut hu) he (by rw [hst]; rfl) hv)
  · obtain ⟨hle, -, rfl⟩ := releaseReservationMarking_ok.mp hm
    exact .single (move_unreserve he (hst.resolve_right hne) hv hle)

/-- Settling the deposit and paying out the escrow are two changes of two vaults. -/
theorem moves_settle_pay {vaults : Table VaultKey LiquidityVault}
    {escrows : Table ℕ TradeEscrowVault} {k : VaultKey} {d₁ d₂ : Docket}
    (hs : DepositSettlement outcome d d₁) (hp : DocketPaid d₁ d₂)
    (hk : (d.openVault.merchant, d.dispute.depositMint) = k)
    (hov : vaults.lookup k = some d.openVault)
    (hv : vaults.lookup (d.escrow.seller, d.escrow.mint) = some d.vault)
    (hne : k ≠ (d.escrow.seller, d.escrow.mint))
    (he : escrows.lookup d.escrow.reservationId = some d.escrow) (hst : d.escrow.state = .frozen) :
    Moves (bookOf d.tokens vaults escrows) (bookOf d₂.tokens
      ((vaults.insert (d.escrow.seller, d.escrow.mint) d₂.vault).insert k d₂.openVault)
      (escrows.insert d.escrow.reservationId d₂.escrow)) := by
  have hsettle : Moves (bookOf d.tokens vaults escrows)
      (bookOf d₁.tokens (vaults.insert k d₁.openVault) escrows) := moves_settlement hs hov hk
  obtain ⟨hescrow, hvault, -⟩ := DepositSettlement.keys hs
  obtain ⟨⟨ms, s, hpaid⟩, hopen, -⟩ := hp
  rw [hescrow, hvault] at hpaid
  have hv₁ : (vaults.insert k d₁.openVault).lookup (d.escrow.seller, d.escrow.mint) =
      some d.vault := by
    rw [Finmap.lookup_insert_of_ne _ hne.symm, hv]
  have hpay := move_payout hpaid he (by rw [hst]; rfl) hv₁
  rw [insert_comm _ hne, ← hopen] at hpay
  rw [hopen] at hpay ⊢
  exact hsettle.tail hpay

theorem moves_execute (hk : Keyed w) {a : ExecuteAccounts}
    (h : executeDisputeOutcome P w a = .ok w') : Moves (book w) (book w') := by
  obtain ⟨c, e, v, ov, fees, d, hc, he, hid, hm, hv, -, hov, -, -, hst, hdv, hne, -, -, hd, rfl⟩ :=
    executeDisputeOutcome_ok h
  -- The vault that the caller names is the one the deposit was taken from.
  obtain ⟨merchant, hmerchant⟩ := (hk.dispute a.caseId c hc).2
  obtain ⟨-, hmint⟩ := Pubkey.liquidityVault.inj (hdv.trans hmerchant)
  have hkey : (ov.merchant, c.depositMint) = (a.openMerchant, a.openMint) := by
    rw [← hmint, (Prod.mk.inj (hk.vault _ ov hov)).1]
  rw [← hm] at hv hne
  rw [← hid] at he
  simp only [← hm, ← hid]
  cases hd with
  | decided _ _ hs hp => exact moves_settle_pay hs (payVerdict_paid hp) hkey hov hv hne he hst
  | reopened =>
    have hsame : (w.liquidityVaults.insert (e.seller, e.mint) v).insert
        (a.openMerchant, a.openMint) ov = w.liquidityVaults := by
      rw [insert_lookup hv, insert_lookup hov]
    simp only [book, hsame, insert_lookup he, Relation.ReflTransGen.refl]
  | terminal _ hs hp => exact moves_settle_pay hs (splitDocket_paid hp) hkey hov hv hne he hst

theorem book_create {L : Ledger Pubkey} {k mint owner : Pubkey}
    {vaults : Table VaultKey LiquidityVault} {escrows : Table ℕ TradeEscrowVault}
    (h : w.tokens.createAccount k mint owner = .ok L) :
    bookOf L vaults escrows = bookOf w.tokens vaults escrows := by
  have hbalance : L.balance = w.tokens.balance := funext (balance_createAccount h)
  simp only [bookOf, hbalance]

theorem moves_open_dispute {signer : Pubkey} {mint : Pubkey} {commitSecs revealSecs : ℤ}
    (h : openDisputeCase P w signer id mint commitSecs revealSecs = .ok w') :
    Moves (book w) (book w') := by
  obtain ⟨e, fees, v, L, claim, seed, he, -, -, hst, -, hv, -, -, -, -, hL, ht, -, rfl⟩ :=
    openDisputeCase_ok h
  refine .single (move_withdraw hv hL (fun m hm => source_of_mem_payments hm) ?_
    (min_le_right _ _) ht ?_)
  · rw [sum_payments]
    simp [depositPayments]
  -- Freezing a funded escrow leaves it funded.
  · exact mapValues_insert_same boxView _ he (by simp only [boxView, hst, phase])

/-- The refinement: a step opens a box or moves funds as the book allows. -/
theorem step_refines (hk : Keyed w) (h : step P w ix = .ok w') :
    Moves (book w) (book w') ∨ ∃ merchant buyer mint id n secs,
      ix = .createTradeEscrow merchant buyer mint id n secs ∧
        Opening id (.wallet merchant, mint) n (book w) (book w') := by
  by_cases hix : (writes ix).contains .vaults = false ∧ (writes ix).contains .escrows = false
  · have hv : w'.liquidityVaults = w.liquidityVaults := step_same h .vaults hix.1
    have he : w'.tradeEscrows = w.tradeEscrows := step_same h .escrows hix.2
    have hpurses : (purses ix).contains .vaults = false ∧
      (purses ix).contains .escrows = false := by
      cases ix <;> first | exact ⟨rfl, rfl⟩ | cases hix.1
    refine .inl (.single ?_)
    simp only [book, hv, he]
    refine move_grow (step_kept hk.tokens h ?_)
    rintro k (hvaults | hescrows)
    · exact ⟨_, hvaults, hpurses.1⟩
    · exact ⟨_, hescrows, hpurses.2⟩
  obtain ⟨-, h⟩ := step_ok.mp h
  cases ix with
  | createLiquidityVault merchant mint =>
    obtain ⟨L, hnone, hL, rfl⟩ := createLiquidityVault_ok h
    refine .inl (.single ?_)
    simp only [book, book_create hL]
    have hmove := Move.openPool (b := book w) (k := (.wallet merchant, mint))
      (by simp [book, bookOf, hnone])
    simp only [book, bookOf, mapValues_insert] at hmove ⊢
    exact hmove
  | depositLiquidity =>
    obtain ⟨v, L, hv, hs, hL, -, -, rfl⟩ := depositLiquidity_ok h
    exact .inl (.single (move_deposit hv hL ⟨fun _ => ne_of_wallet hk.tokens hs rfl,
      fun _ => ne_of_wallet hk.tokens hs rfl⟩))
  | withdrawLiquidity =>
    obtain ⟨v, L, hv, hL, ha, ht, rfl⟩ := withdrawLiquidity_ok h
    refine .inl (.single (move_withdraw hv hL (fun m hm => ?_) ?_ ha ht rfl))
    · rw [List.mem_singleton.mp hm]
      rfl
    · simp
  | reserveLiquidity =>
    obtain ⟨v, hv, ha, rfl⟩ := reserveLiquidity_ok h
    have hmove := Move.reserve (pools_lookup w.tokens w.tradeEscrows hv) ha
    refine .inl (.single ?_)
    simp only [book, bookOf, mapValues_insert] at hmove ⊢
    exact hmove
  | chargeAdListingFee =>
    obtain ⟨v, L, c, shares, hv, hsum, hL, ha, ht, rfl⟩ := chargeAdListingFee_ok h
    refine .inl (.single (move_withdraw hv hL (fun m hm => source_of_mem_payments hm) ?_ ha
      ht rfl))
    rw [sum_payments, sum_treasuryPayments, hsum]
  | createTradeEscrow merchant buyer mint id n secs =>
    obtain ⟨v, L, t, hv, hn, hnone, hL, rfl⟩ := createTradeEscrow_ok h
    refine .inr ⟨merchant, buyer, mint, id, n, secs, rfl, ?_⟩
    have hbox : (book w).boxes.lookup id = none := by
      simp [book, bookOf, hnone]
    have hopening := Opening.intro hbox (pools_lookup w.tokens w.tradeEscrows hv) hn
    simp only [book, book_create hL]
    simp only [book, bookOf, mapValues_insert] at hopening ⊢
    exact hopening
  | fundTradeEscrow =>
    obtain ⟨v, e, L, hv, he, -, hs, hm, hst, hr, hL, rfl⟩ := fundTradeEscrow_ok h
    rw [← hs, ← hm] at hv hL
    simp only [← hs, ← hm]
    exact .inl (.single (move_fund he hst hv hr hL))
  | approveSettlement =>
    obtain ⟨e, he, -, rfl⟩ := approveSettlement_ok h
    have hsame := mapValues_insert_same boxView { e with approved := true } he rfl
    simp [book, bookOf, hsame, Relation.ReflTransGen.refl]
  | releaseEscrow =>
    obtain ⟨e, v, c, L, e', v', he, rfl, hv, -, -, hst, -, -, hr, rfl⟩ := releaseEscrow_ok h
    obtain ⟨ms, hp⟩ := releaseTradeEscrowFunds_paidOut hr
    exact .inl (.single (move_payout hp he (by rw [hst]; rfl) hv))
  | cancelReservation => exact .inl (moves_close (cancelReservation_ok h))
  | expireReservation => exact .inl (moves_close (expireReservation_ok h))
  | openDisputeCase => exact .inl (moves_open_dispute h)
  | topUpArbitrationDeposit =>
    obtain ⟨c, e, v, L, n, -, -, hv, -, -, -, -, -, hL, ha, ht, rfl⟩ :=
      topUpArbitrationDeposit_ok h
    refine .inl (.single (move_withdraw hv hL (fun m hm => ?_) ?_ ha ht rfl))
    · rw [List.mem_singleton.mp hm]
      rfl
    · simp
  | absorbStakeRecovery =>
    obtain ⟨c, r, v, n, -, -, hv, -, -, -, hb, rfl⟩ := absorbStakeRecovery_ok h
    have hmove := Move.absorb (pools_lookup w.tokens w.tradeEscrows hv) hb
    refine .inl (.single ?_)
    simp only [book, bookOf, mapValues_insert] at hmove ⊢
    exact hmove
  | executeDisputeOutcome => exact .inl (moves_execute hk h)
  | _ => exact absurd ⟨rfl, rfl⟩ hix

end Steps

end OpenFiat.CustodyRefinement
