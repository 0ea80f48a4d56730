import OpenFiat.ChainWorld
import Mathlib.Tactic.Ring

/-!
# Moving escrowed funds

The routines that several escrow instructions share: the four-way fee split, the
release to the buyer and the treasuries, the return to the seller's vault, the
even split, and the return of an unfunded reservation. Each takes the ledger and
the records it may change and returns them. Subtractions that the source leaves
unchecked abort the transaction, since the programs are built with overflow
checks.
-/
namespace OpenFiat.EscrowFunds
open GuardedResult TokenLedger ProgramAddress EscrowAccounts ChainWorld TokenLedger.Ledger

structure FeeShares where
  dev : ℕ
  ecosystem : ℕ
  infra : ℕ
  emergency : ℕ
deriving DecidableEq, Repr

def FeeShares.sum (s : FeeShares) : ℕ := s.dev + s.ecosystem + s.infra + s.emergency

/-- A share in basis points, computed in 128 bits and narrowed to 64. -/
def bpsShare (amount bps : ℕ) : ℕ := amount * bps / bpsDenominator % 2 ^ 64

/-- The truncation remainder goes to the ecosystem treasury. -/
def splitFeeFourWays (c : FeeConfig) (fee : ℕ) : Except EscrowError FeeShares := do
  let dev := bpsShare fee c.devTreasuryBps
  let ecosystem := bpsShare fee c.ecosystemTreasuryBps
  let infra := bpsShare fee c.infraTreasuryBps
  let emergency := bpsShare fee c.emergencyReserveBps
  let allocated ← checkedAdd 64 .overflow dev ecosystem
  let allocated ← checkedAdd 64 .overflow allocated infra
  let allocated ← checkedAdd 64 .overflow allocated emergency
  let remainder ← checkedSub .overflow fee allocated
  let ecosystem ← checkedAdd 64 .overflow ecosystem remainder
  return ⟨dev, ecosystem, infra, emergency⟩

/-- The buyer's amount and the treasury shares of the settlement fee. -/
def computeFeeSplit (c : FeeConfig) (amount : ℕ) : Except EscrowError (ℕ × FeeShares) := do
  let fee := bpsShare amount c.settlementFeeBps
  let buyerAmount ← checkedSub .overflow amount fee
  let shares ← splitFeeFourWays c fee
  return (buyerAmount, shares)

def treasuryPayments (c : FeeConfig) (s : FeeShares) : List (Pubkey × ℕ) :=
  [(c.devTreasury, s.dev), (c.ecosystemTreasury, s.ecosystem), (c.infraTreasury, s.infra),
    (c.emergencyReserve, s.emergency)]

def treasuryAccounts (c : FeeConfig) : List Pubkey :=
  [c.devTreasury, c.ecosystemTreasury, c.infraTreasury, c.emergencyReserve]

def loadTreasuries (w : World) (c : FeeConfig) : Except Failure (List (TokenAccount Pubkey)) := do
  let dev ← loadTokenAccount w c.devTreasury
  let ecosystem ← loadTokenAccount w c.ecosystemTreasury
  let infra ← loadTokenAccount w c.infraTreasury
  let emergency ← loadTokenAccount w c.emergencyReserve
  return [dev, ecosystem, infra, emergency]

def releaseReservationMarking (v : LiquidityVault) (amount : ℕ) :
    Except Failure LiquidityVault := do
  require (amount ≤ v.reserved) (.escrow .insufficientReservedLiquidity)
  let reserved ← checkedSub (.panicked .subtraction) v.reserved amount
  let available ← checkedAdd 64 (.escrow .overflow) v.available amount
  return { v with reserved, available }

/-- Pay out of the token account of one trade escrow, signed by the escrow. -/
def payFromEscrow (L : Ledger Pubkey) (e : TradeEscrowVault) (shares : List (Pubkey × ℕ)) :
    Except Failure (Ledger Pubkey) :=
  invoke (L.payEach (.tradeEscrowTokens e.reservationId) e.mint (.tradeEscrow e.reservationId)
    shares)

def unwindFundedTradeEscrow (L : Ledger Pubkey) (e : TradeEscrowVault) (v : LiquidityVault) :
    Except Failure (Ledger Pubkey × LiquidityVault) := do
  let L ← invoke (L.transfer (.tradeEscrowTokens e.reservationId) e.mint
    (.liquidityVaultTokens e.seller e.mint) (.tradeEscrow e.reservationId) e.amount)
  let pendingSettlement ← checkedSub (.panicked .subtraction) v.pendingSettlement e.amount
  let available ← checkedAdd 64 (.escrow .overflow) v.available e.amount
  return (L, { v with pendingSettlement, available })

def splitTradeEscrowEvenly (L : Ledger Pubkey) (e : TradeEscrowVault) (v : LiquidityVault)
    (buyerTokenAccount : Pubkey) :
    Except Failure (Ledger Pubkey × TradeEscrowVault × LiquidityVault) := do
  let buyerShare := e.amount / 2
  let sellerShare ← checkedSub (.escrow .overflow) e.amount buyerShare
  let L ← payFromEscrow L e [(buyerTokenAccount, buyerShare),
    (.liquidityVaultTokens e.seller e.mint, sellerShare)]
  let pendingSettlement ← checkedSub (.panicked .subtraction) v.pendingSettlement e.amount
  let available ← checkedAdd 64 (.escrow .overflow) v.available sellerShare
  let settled ← checkedAdd 64 (.escrow .overflow) v.settled buyerShare
  return (L, { e with state := .released }, { v with pendingSettlement, available, settled })

def releaseTradeEscrowFunds (L : Ledger Pubkey) (c : FeeConfig) (e : TradeEscrowVault)
    (v : LiquidityVault) (buyerTokenAccount : Pubkey) :
    Except Failure (Ledger Pubkey × TradeEscrowVault × LiquidityVault) := do
  let (buyerAmount, shares) ← raiseEscrow (computeFeeSplit c e.amount)
  let L ← payFromEscrow L e ((buyerTokenAccount, buyerAmount) :: treasuryPayments c shares)
  let pendingSettlement ← checkedSub (.panicked .subtraction) v.pendingSettlement e.amount
  let settled ← checkedAdd 64 (.escrow .overflow) v.settled e.amount
  return (L, { e with state := .released }, { v with pendingSettlement, settled })

variable {c : FeeConfig} {v v' : LiquidityVault} {L L' : Ledger Pubkey} {e e' : TradeEscrowVault}
  {buyerTokenAccount : Pubkey}

theorem splitFeeFourWays_sum {fee : ℕ} {s : FeeShares} (h : splitFeeFourWays c fee = .ok s) :
    s.sum = fee := by
  simp only [splitFeeFourWays, bind_ok, checkedAdd_ok, checkedSub_ok, pure_ok] at h
  obtain ⟨a, ⟨-, rfl⟩, b, ⟨-, rfl⟩, d, ⟨-, rfl⟩, r, ⟨hle, rfl⟩, q, ⟨-, rfl⟩, rfl⟩ := h
  simp only [FeeShares.sum]
  omega

theorem sum_treasuryPayments (s : FeeShares) :
    ((treasuryPayments c s).map Prod.snd).sum = s.sum := by
  simp only [treasuryPayments, FeeShares.sum, List.map_cons, List.map_nil, List.sum_cons,
    List.sum_nil]
  omega

theorem computeFeeSplit_sum {amount buyerAmount : ℕ} {s : FeeShares}
    (h : computeFeeSplit c amount = .ok (buyerAmount, s)) : buyerAmount + s.sum = amount := by
  simp only [computeFeeSplit, bind_ok, checkedSub_ok, pure_ok, Prod.mk.injEq] at h
  obtain ⟨b, ⟨hle, rfl⟩, t, ht, rfl, rfl⟩ := h
  rw [splitFeeFourWays_sum ht]
  omega

theorem sum_releasePayments {amount buyerAmount : ℕ} {s : FeeShares} (buyer : Pubkey)
    (h : computeFeeSplit c amount = .ok (buyerAmount, s)) :
    (((buyer, buyerAmount) :: treasuryPayments c s).map Prod.snd).sum = amount := by
  rw [List.map_cons, List.sum_cons, sum_treasuryPayments, computeFeeSplit_sum h]

/-- A fee in 64 bits always splits: the basis points sum to the denominator. -/
theorem splitFeeFourWays_total (c : FeeConfig) {fee : ℕ} (hfee : fee < 2 ^ 64) :
    ∃ s, splitFeeFourWays c fee = .ok s := by
  have hshare (bps : ℕ) : bpsShare fee bps ≤ fee * bps / bpsDenominator := Nat.mod_le _ _
  have hsum : fee * c.devTreasuryBps + fee * c.ecosystemTreasuryBps + fee * c.infraTreasuryBps +
      fee * c.emergencyReserveBps = fee * bpsDenominator := by
    rw [← c.split_eq]
    ring
  have hdev := hshare c.devTreasuryBps
  have heco := hshare c.ecosystemTreasuryBps
  have hinfra := hshare c.infraTreasuryBps
  have hemergency := hshare c.emergencyReserveBps
  simp only [bpsDenominator] at hdev heco hinfra hemergency hsum
  simp only [splitFeeFourWays, bind_ok, checkedAdd_ok, checkedSub_ok, pure_ok]
  exact ⟨_, _, ⟨by omega, rfl⟩, _, ⟨by omega, rfl⟩, _, ⟨by omega, rfl⟩, _, ⟨by omega, rfl⟩, _,
    ⟨by omega, rfl⟩, rfl⟩

theorem releaseReservationMarking_ok {amount : ℕ} :
    releaseReservationMarking v amount = .ok v' ↔
      amount ≤ v.reserved ∧ v.available + amount < 2 ^ 64 ∧
        v' = { v with reserved := v.reserved - amount, available := v.available + amount } := by
  simp only [releaseReservationMarking, bind_ok, require_ok, checkedSub_ok, checkedAdd_ok, pure_ok]
  constructor
  · rintro ⟨-, hr, _, ⟨-, rfl⟩, _, ⟨ha, rfl⟩, rfl⟩
    exact ⟨hr, ha, rfl⟩
  · rintro ⟨hr, ha, rfl⟩
    exact ⟨(), hr, _, ⟨hr, rfl⟩, _, ⟨ha, rfl⟩, rfl⟩

theorem unwindFundedTradeEscrow_ok (h : unwindFundedTradeEscrow L e v = .ok (L', v')) :
    Ledger.Moved [⟨.tradeEscrowTokens e.reservationId, .liquidityVaultTokens e.seller e.mint,
        e.amount⟩] L L' ∧
      e.amount ≤ v.pendingSettlement ∧ v.available + e.amount < 2 ^ 64 ∧
      v' = { v with
        pendingSettlement := v.pendingSettlement - e.amount
        available := v.available + e.amount } := by
  simp only [unwindFundedTradeEscrow, bind_ok, invoke_ok, checkedSub_ok, checkedAdd_ok, pure_ok,
    Prod.mk.injEq] at h
  obtain ⟨L₁, hL, _, ⟨hp, rfl⟩, _, ⟨ha, rfl⟩, rfl, rfl⟩ := h
  exact ⟨moved_transfer hL, hp, ha, rfl⟩

def splitPayments (e : TradeEscrowVault) (buyerTokenAccount : Pubkey) : List (Pubkey × ℕ) :=
  [(buyerTokenAccount, e.amount / 2),
    (.liquidityVaultTokens e.seller e.mint, e.amount - e.amount / 2)]

theorem splitTradeEscrowEvenly_ok
    (h : splitTradeEscrowEvenly L e v buyerTokenAccount = .ok (L', e', v')) :
    Ledger.Moved (payments (.tradeEscrowTokens e.reservationId)
        (splitPayments e buyerTokenAccount)) L L' ∧
      e.amount ≤ v.pendingSettlement ∧ e' = { e with state := .released } ∧
      v' = { v with
        pendingSettlement := v.pendingSettlement - e.amount
        available := v.available + (e.amount - e.amount / 2)
        settled := v.settled + e.amount / 2 } := by
  simp only [splitTradeEscrowEvenly, payFromEscrow, bind_ok, invoke_ok, checkedSub_ok,
    checkedAdd_ok, pure_ok, Prod.mk.injEq] at h
  obtain ⟨_, ⟨-, rfl⟩, L₁, hL, _, ⟨hp, rfl⟩, _, ⟨-, rfl⟩, _, ⟨-, rfl⟩, rfl, rfl, rfl⟩ := h
  exact ⟨moved_payEach hL, hp, rfl, rfl⟩

theorem releaseTradeEscrowFunds_ok
    (h : releaseTradeEscrowFunds L c e v buyerTokenAccount = .ok (L', e', v')) :
    ∃ buyerAmount shares, computeFeeSplit c e.amount = .ok (buyerAmount, shares) ∧
      Ledger.Moved (payments (.tradeEscrowTokens e.reservationId)
        ((buyerTokenAccount, buyerAmount) :: treasuryPayments c shares)) L L' ∧
      e.amount ≤ v.pendingSettlement ∧ e' = { e with state := .released } ∧
      v' = { v with
        pendingSettlement := v.pendingSettlement - e.amount, settled := v.settled + e.amount } := by
  simp only [releaseTradeEscrowFunds, payFromEscrow, bind_ok, invoke_ok, raiseEscrow_ok,
    checkedSub_ok, checkedAdd_ok, pure_ok, Prod.mk.injEq] at h
  obtain ⟨⟨b, s⟩, hc, L₁, hL, _, ⟨hp, rfl⟩, _, ⟨-, rfl⟩, rfl, rfl, rfl⟩ := h
  exact ⟨b, s, hc, moved_payEach hL, hp, rfl, rfl⟩

/-! ## Payouts

What the three routines that empty a funded escrow have in common. -/

def VaultState.Terminal (s : VaultState) : Prop := s = .released ∨ s = .cancelled

/-- The escrow `e` is closed by the transfers `ms`, all out of its own token
account and together its whole amount, of which `s` is credited to the seller's
vault and the rest counts as settled. -/
structure PaidOut (L L' : Ledger Pubkey) (e e' : TradeEscrowVault) (v v' : LiquidityVault)
    (ms : List (Transfer Pubkey)) (s : ℕ) : Prop where
  moved : Ledger.Moved ms L L'
  source : ∀ m ∈ ms, m.source = .tradeEscrowTokens e.reservationId
  sum : (ms.map (·.amount)).sum = e.amount
  seller_le : s ≤ e.amount
  seller : s ≤ Ledger.inflow (.liquidityVaultTokens e.seller e.mint) ms
  pending : e.amount ≤ v.pendingSettlement
  escrow : ∃ state, VaultState.Terminal state ∧ e' = { e with state }
  vault : v' = { v with
    pendingSettlement := v.pendingSettlement - e.amount
    available := v.available + s
    settled := v.settled + (e.amount - s) }

theorem releaseTradeEscrowFunds_paidOut
    (h : releaseTradeEscrowFunds L c e v buyerTokenAccount = .ok (L', e', v')) :
    ∃ ms, PaidOut L L' e e' v v' ms 0 := by
  obtain ⟨b, s, hc, hm, hp, he, hv⟩ := releaseTradeEscrowFunds_ok h
  refine ⟨_, hm, fun m hm => source_of_mem_payments hm, ?_, Nat.zero_le _, Nat.zero_le _, hp,
    ⟨.released, .inl rfl, he⟩, hv⟩
  rw [sum_payments, sum_releasePayments _ hc]

theorem unwindFundedTradeEscrow_paidOut (h : unwindFundedTradeEscrow L e v = .ok (L', v')) :
    PaidOut L L' e { e with state := .cancelled } v v'
      [⟨.tradeEscrowTokens e.reservationId, .liquidityVaultTokens e.seller e.mint, e.amount⟩]
      e.amount := by
  obtain ⟨hm, hp, -, hv⟩ := unwindFundedTradeEscrow_ok h
  refine ⟨hm, ?_, ?_, le_rfl, ?_, hp, ⟨.cancelled, .inr rfl, rfl⟩, ?_⟩
  · intro m hm
    rw [List.mem_singleton.mp hm]
  · simp
  · simp
  · rw [hv, Nat.sub_self, add_zero]

theorem splitTradeEscrowEvenly_paidOut
    (h : splitTradeEscrowEvenly L e v buyerTokenAccount = .ok (L', e', v')) :
    PaidOut L L' e e' v v' (payments (.tradeEscrowTokens e.reservationId)
      (splitPayments e buyerTokenAccount)) (e.amount - e.amount / 2) := by
  obtain ⟨hm, hp, he, hv⟩ := splitTradeEscrowEvenly_ok h
  have hhalf : e.amount - (e.amount - e.amount / 2) = e.amount / 2 := by omega
  refine ⟨hm, fun m hm => source_of_mem_payments hm, ?_, Nat.sub_le _ _, ?_, hp,
    ⟨.released, .inl rfl, he⟩, ?_⟩
  · rw [sum_payments]
    simp only [splitPayments, List.map_cons, List.map_nil, List.sum_cons, List.sum_nil]
    omega
  · exact le_inflow_payments (by simp [splitPayments])
  · rw [hv, hhalf]

/-! ## How a payout can fail

A routine fails in a bad way only when the escrow's account or the pending
counter is short, and then only if that shortage counts as bad. -/

section Failures
variable {bad : Failure → Prop} (hbad : Unchecked bad) {L : Ledger Pubkey} {c : FeeConfig}
  {e : TradeEscrowVault} {v : LiquidityVault} {buyerTokenAccount : Pubkey}
  (hfunds : bad (.token (.insufficientFunds (.tradeEscrowTokens e.reservationId))) →
    e.amount ≤ L.balance (.tradeEscrowTokens e.reservationId))
include hbad hfunds

theorem avoids_payFromEscrow {shares : List (Pubkey × ℕ)}
    (hsum : (shares.map Prod.snd).sum = e.amount) : Avoids bad (payFromEscrow L e shares) :=
  hbad.avoids_payEach fun h => hsum ▸ hfunds h

variable (hpending : bad (.panicked .subtraction) → e.amount ≤ v.pendingSettlement)
include hpending

theorem avoids_releaseTradeEscrowFunds :
    Avoids bad (releaseTradeEscrowFunds L c e v buyerTokenAccount) := by
  simp only [releaseTradeEscrowFunds, avoids_bind, hbad.avoids_raiseEscrow, avoids_checkedSub,
    avoids_checkedAdd, avoids_pure, hbad.escrow, false_imp_iff, implies_true, and_true, true_and,
    raiseEscrow_ok]
  intro r hr
  refine ⟨avoids_payFromEscrow hbad hfunds ?_, fun _ _ => hpending⟩
  rw [sum_releasePayments _ hr]

theorem avoids_unwindFundedTradeEscrow :
    Avoids bad (unwindFundedTradeEscrow L e v) := by
  simp only [unwindFundedTradeEscrow, avoids_bind, avoids_checkedSub, avoids_checkedAdd,
    avoids_pure, hbad.escrow, false_imp_iff, implies_true, and_true]
  exact ⟨hbad.avoids_transfer hfunds, fun _ _ => hpending⟩

theorem avoids_splitTradeEscrowEvenly :
    Avoids bad (splitTradeEscrowEvenly L e v buyerTokenAccount) := by
  simp only [splitTradeEscrowEvenly, avoids_bind, avoids_checkedSub, avoids_checkedAdd,
    avoids_pure, hbad.escrow, false_imp_iff, implies_true, and_true, true_and, checkedSub_ok]
  rintro _ ⟨-, rfl⟩
  refine ⟨avoids_payFromEscrow hbad hfunds ?_, fun _ _ => hpending⟩
  simp only [List.map_cons, List.map_nil, List.sum_cons, List.sum_nil]
  omega

omit hfunds hpending in
theorem avoids_releaseReservationMarking {n : ℕ} : Avoids bad (releaseReservationMarking v n) := by
  simp only [releaseReservationMarking, avoids_bind, avoids_require, avoids_checkedSub,
    avoids_checkedAdd, avoids_pure, hbad.escrow, false_imp_iff, implies_true, and_true, true_and,
    require_ok]
  exact fun _ h _ => h

end Failures

end OpenFiat.EscrowFunds
