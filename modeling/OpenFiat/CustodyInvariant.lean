import OpenFiat.EscrowFailures

/-!
# The custody invariant of the escrow program

Every reachable state has a sound book. Read back in the program's own terms:
the counters of each liquidity vault add up, its token account covers what it
promises, the pending counter is the sum over its funded escrows, and each of
those is covered by its own token account. The unchecked subtractions of the
handlers are then never reached with too small a counter, and no payout finds its
account short.
-/
namespace OpenFiat.CustodyInvariant
open GuardedResult FiniteTable ProgramAddress EscrowAccounts
open ChainWorld EscrowFunds EscrowLiquidity EscrowDisputes
open TransactionRuns ChainSteps LedgerCustody CustodyBook CustodyRefinement EscrowFailures

variable {P : Platform} {w w' : World} {ix : Instruction}

/-- The structural and the financial part of the invariant. -/
structure InCustody (w : World) : Prop where
  keyed : Keyed w
  sound : Sound (book w)

theorem inCustody_genesis (h : Genesis w) : InCustody w := by
  have hpools (k : VaultKey) : (book w).pools.lookup k = none := by
    simp [book, bookOf, h.liquidityVaults]
  have hboxes (id : ℕ) : (book w).boxes.lookup id = none := by
    simp [book, bookOf, h.tradeEscrows]
  refine ⟨keyed_genesis h, ?_, ?_, ?_, ?_, ?_⟩
  · intro k p hp
    rw [hpools] at hp
    cases hp
  · intro k p hp
    rw [hpools] at hp
    cases hp
  · intro k p hp
    rw [hpools] at hp
    cases hp
  · intro id x hx
    rw [hboxes] at hx
    cases hx
  · intro id x hx
    rw [hboxes] at hx
    cases hx

theorem step_inCustody (h : InCustody w) (hs : step P w ix = .ok w') : InCustody w' := by
  refine ⟨step_keyed h.keyed hs, ?_⟩
  rcases step_refines h.keyed hs with hmoves | ⟨_, _, _, _, _, _, -, hopening⟩
  · exact hmoves.sound h.sound
  · exact hopening.sound h.sound

theorem run_inCustody (h : Genesis w) (txs : List Instruction) :
    InCustody (run (step P) w txs) :=
  run_invariant_always (fun _ _ _ hc hs => step_inCustody hc hs) (inCustody_genesis h) txs

/-- A trade escrow that holds its tokens: funded, or frozen by a dispute. -/
def Funded (s : VaultState) : Prop := s = .awaitingFiatSettlement ∨ s = .frozen

instance (s : VaultState) : Decidable (Funded s) := inferInstanceAs (Decidable (_ ∨ _))

theorem funded_iff (s : VaultState) : phase s = .funded ↔ Funded s := by
  cases s <;> decide

def escrowTotal (w : World) (merchant mint : Pubkey) (states : VaultState → Prop)
    [DecidablePred states] : ℕ :=
  Table.total (fun _ e => if e.seller = merchant ∧ e.mint = mint ∧ states e.state
    then e.amount else 0) w.tradeEscrows

theorem held_eq_escrowTotal (w : World) (merchant mint : Pubkey) (states : VaultState → Prop)
    [DecidablePred states] {q : Phase} (h : ∀ s, phase s = q ↔ states s) :
    (book w).held (merchant, mint) q = escrowTotal w merchant mint states := by
  simp [Book.held, book, bookOf, Table.total_mapValues, escrowTotal, share, boxView, h, and_assoc]

variable {e : TradeEscrowVault} {id : ℕ}

theorem amount_le_escrowTotal (states : VaultState → Prop) [DecidablePred states]
    (he : w.tradeEscrows.lookup id = some e) (hst : states e.state) :
    e.amount ≤ escrowTotal w e.seller e.mint states := by
  have hle := Table.le_total (fun _ (x : TradeEscrowVault) => if x.seller = e.seller ∧
    x.mint = e.mint ∧ states x.state then x.amount else 0) he
  rw [escrowTotal]
  simpa [hst] using hle

theorem InCustody.vault (h : InCustody w) {merchant mint : Pubkey} {v : LiquidityVault}
    (hv : w.liquidityVaults.lookup (merchant, mint) = some v) :
    v.total = v.available + v.reserved + v.pendingSettlement + v.settled ∧
      v.available + v.reserved ≤ w.tokens.balance (.liquidityVaultTokens merchant mint) ∧
      v.pendingSettlement = escrowTotal w merchant mint Funded := by
  have hpool := pools_lookup w.tokens w.tradeEscrows hv
  refine ⟨h.sound.parts _ _ hpool, h.sound.backed _ _ hpool, ?_⟩
  rw [← held_eq_escrowTotal w merchant mint Funded funded_iff]
  exact h.sound.pending _ _ hpool

theorem InCustody.escrow (h : InCustody w) (he : w.tradeEscrows.lookup id = some e)
    (hst : Funded e.state) : e.amount ≤ w.tokens.balance (.tradeEscrowTokens id) :=
  h.sound.boxed id _ (boxes_lookup w.tokens w.liquidityVaults he)
    ((funded_iff _).mpr hst)

/-- A funded escrow is part of the pending counter of its vault. -/
theorem InCustody.pending (h : InCustody w) {v : LiquidityVault}
    (he : w.tradeEscrows.lookup id = some e) (hst : Funded e.state)
    (hv : w.liquidityVaults.lookup (e.seller, e.mint) = some v) :
    e.amount ≤ v.pendingSettlement := by
  rw [(h.vault hv).2.2]
  exact amount_le_escrowTotal Funded he hst

theorem InCustody.backed (h : InCustody w) (bad : Failure → Prop) : Backed bad w where
  vault _ _ _ hv _ := (h.vault hv).2.1
  escrow _ _ he hst _ := h.escrow he ((funded_iff _).mp hst)
  pending _ _ _ he hst hv _ := h.pending he ((funded_iff _).mp hst) hv

/-- The instructions that lower a counter of a vault or pay out of a vault or an
escrow; no other handler subtracts without a check. -/
def drawsOnVaults : Instruction → Bool
  | .withdrawLiquidity .. | .reserveLiquidity .. | .chargeAdListingFee .. | .fundTradeEscrow ..
  | .releaseEscrow .. | .cancelReservation .. | .expireReservation .. | .openDisputeCase ..
  | .topUpArbitrationDeposit .. | .executeDisputeOutcome .. => true
  | _ => false

/-- An aborted subtraction, or a vault or escrow that is short of tokens. -/
def LosesCustody : Failure → Prop
  | .panicked .subtraction => True
  | .token (.insufficientFunds k) => (∃ m t, k = .liquidityVaultTokens m t) ∨
      ∃ id, k = .tradeEscrowTokens id
  | _ => False

theorem unchecked_losesCustody : Unchecked LosesCustody where
  anchor _ h := h
  escrow _ h := h
  staking _ h := h
  token e h := by
    cases e with
    | insufficientFunds k => exact ⟨k, rfl⟩
    | _ => cases h

theorem avoids_losesCustody (h : InCustody w) (hix : drawsOnVaults ix = true) :
    Avoids LosesCustody (step P w ix) := by
  have hbad := unchecked_losesCustody
  have hback := h.backed LosesCustody
  refine avoids_step hbad ?_
  cases ix with
  | withdrawLiquidity => exact avoids_withdrawLiquidity hbad hback _ _ _ _
  | reserveLiquidity => exact avoids_reserveLiquidity hbad _ _ _
  | chargeAdListingFee => exact avoids_chargeAdListingFee hbad hback _ _
  | fundTradeEscrow => exact avoids_fundTradeEscrow hbad hback _ _ _
  | releaseEscrow => exact avoids_releaseEscrow hbad hback _ _ _
  | cancelReservation => exact avoids_cancelReservation hbad hback _ _ _
  | expireReservation => exact avoids_expireReservation hbad hback _ _
  | openDisputeCase =>
    exact avoids_openDisputeCase hbad hback _ _ _ _ _
  | topUpArbitrationDeposit => exact avoids_topUpArbitrationDeposit hbad hback _ _
  | executeDisputeOutcome a =>
    have hpool : ¬ LosesCustody (shortOf .arbitrationPool) := by
      rintro (⟨_, _, h⟩ | ⟨_, h⟩) <;> cases h
    exact avoids_executeDisputeOutcome hbad hback id (fun _ _ _ hb => absurd hb hpool) a
  | _ => cases hix

/-- In every reachable state the counters of each vault add up, its token account
covers its available and reserved parts, its pending part is the sum over its
funded escrows, each of which its own token account covers; and no instruction
that draws on these accounts fails for lack of them. -/
theorem escrow_custody (P : Platform) (w₀ : World) (hg : Genesis w₀) (txs : List Instruction) :
    (∀ merchant mint v,
      (run (step P) w₀ txs).liquidityVaults.lookup (merchant, mint) = some v →
        v.total = v.available + v.reserved + v.pendingSettlement + v.settled ∧
        v.available + v.reserved ≤
          (run (step P) w₀ txs).tokens.balance (.liquidityVaultTokens merchant mint) ∧
        v.pendingSettlement = escrowTotal (run (step P) w₀ txs) merchant mint Funded) ∧
      (∀ id e, (run (step P) w₀ txs).tradeEscrows.lookup id = some e → Funded e.state →
        e.amount ≤ (run (step P) w₀ txs).tokens.balance (.tradeEscrowTokens id)) ∧
      ∀ ix e, drawsOnVaults ix = true → step P (run (step P) w₀ txs) ix = .error e →
        ¬ LosesCustody e := by
  have h := run_inCustody (P := P) hg txs
  exact ⟨fun _ _ _ hv => h.vault hv, fun _ _ he hst => h.escrow he hst,
    fun _ e hix he => avoids_losesCustody h hix e he⟩

/-- After wallet 1 funds an escrow of 60 out of a vault of 100. -/
theorem escrow_custody_funded :
    (chainAfter (reserveHundred (.fixed .mockUsdc) ++
        [.createTradeEscrow 1 (.wallet 2) (.fixed .mockUsdc) 7 60 600,
          .fundTradeEscrow 1 (.fixed .mockUsdc) 7])).liquidityVaults.lookup
        (.wallet 1, .fixed .mockUsdc) =
      some ⟨.wallet 1, .fixed .mockUsdc, 100, 40, 0, 0, 60⟩ ∧
    60 = escrowTotal (chainAfter (reserveHundred (.fixed .mockUsdc) ++
        [.createTradeEscrow 1 (.wallet 2) (.fixed .mockUsdc) 7 60 600,
          .fundTradeEscrow 1 (.fixed .mockUsdc) 7])) (.wallet 1) (.fixed .mockUsdc) Funded :=
  ⟨by decide +kernel, ((escrow_custody recordedPlatform emptyChain genesis_emptyChain _).1 _ _
    ⟨.wallet 1, .fixed .mockUsdc, 100, 40, 0, 0, 60⟩ (by decide +kernel)).2.2⟩

end OpenFiat.CustodyInvariant
