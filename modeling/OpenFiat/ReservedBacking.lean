import OpenFiat.CustodyInvariant

/-!
# Reservations and the escrows made on them

Creating an escrow compares its amount with the reserved counter of the vault and
claims nothing of it, so two escrows can be made on one reservation; whichever is
funded, cancelled or expired first leaves the other stuck. When every escrow is
created within what the reserved counter leaves over the escrows that are still
unfunded, the counter covers all of them in every reachable state, and none of
the three instructions runs out of it.
-/
namespace OpenFiat.ReservedBacking
open GuardedResult FiniteTable TokenLedger ProgramAddress EscrowAccounts
open ChainWorld EscrowFunds EscrowLiquidity TransactionRuns ChainSteps
open CustodyBook CustodyRefinement CustodyInvariant

variable {P : Platform} {w w' : World} {ix : Instruction}

def Unfunded (s : VaultState) : Prop := s = .reserved

instance (s : VaultState) : Decidable (Unfunded s) := inferInstanceAs (Decidable (_ = _))

theorem unfunded_iff (s : VaultState) : phase s = .reserved ↔ Unfunded s := by
  cases s <;> decide

/-- The created escrow and the ones still unfunded fit the reserved counter. -/
def createsWithinReserve (t : Transition World Instruction) : Bool :=
  match t.label with
  | .createTradeEscrow merchant _ mint _ n _ =>
    (t.before.liquidityVaults.lookup (.wallet merchant, mint)).all fun v =>
      n + escrowTotal t.before (.wallet merchant) mint Unfunded ≤ v.reserved
  | _ => true

structure Reserving (w : World) : Prop where
  custody : InCustody w
  covered : Covered (book w)

theorem step_reserving (h : Reserving w) (hs : step P w ix = .ok w')
    (hroom : createsWithinReserve ⟨w, ix, w'⟩ = true) : Reserving w' := by
  refine ⟨step_inCustody h.custody hs, ?_⟩
  rcases step_refines h.custody.keyed hs with hmoves | ⟨m, b, mint, id, n, secs, rfl, hopening⟩
  · exact hmoves.covered h.custody.sound h.covered
  · refine hopening.covered h.covered fun p hp => ?_
    simp only [book, bookOf, Table.lookup_mapValues, Option.map_eq_some_iff] at hp
    obtain ⟨v, hv, rfl⟩ := hp
    rw [held_eq_escrowTotal w (.wallet m) mint Unfunded unfunded_iff]
    simp only [createsWithinReserve, hv, Option.all_some, decide_eq_true_eq] at hroom
    exact hroom

theorem Reserving.total_le (h : Reserving w) {merchant mint : Pubkey} {v : LiquidityVault}
    (hv : w.liquidityVaults.lookup (merchant, mint) = some v) :
    escrowTotal w merchant mint Unfunded ≤ v.reserved := by
  rw [← held_eq_escrowTotal w merchant mint Unfunded unfunded_iff]
  exact h.covered _ _ (pools_lookup w.tokens w.tradeEscrows hv)

theorem Reserving.amount_le (h : Reserving w) {id : ℕ} {e : TradeEscrowVault} {v : LiquidityVault}
    (he : w.tradeEscrows.lookup id = some e) (hst : e.state = .reserved)
    (hv : w.liquidityVaults.lookup (e.seller, e.mint) = some v) : e.amount ≤ v.reserved :=
  (amount_le_escrowTotal Unfunded he hst).trans (h.total_le hv)

def OutOfReserve (e : Failure) : Prop := e = .escrow .insufficientReservedLiquidity

/-- The instructions that take an escrow's amount off the reserved counter. -/
def takesReserve : Instruction → Bool
  | .fundTradeEscrow .. | .cancelReservation .. | .expireReservation .. => true
  | _ => false

theorem avoids_fund (h : Reserving w) (merchant mint : Pubkey) (id : ℕ) :
    Avoids OutOfReserve (fundTradeEscrow w merchant mint id) := by
  have hanchor (e : AnchorError) : ¬ OutOfReserve (.anchor e) := Failure.noConfusion
  have htoken (e : TransferError Pubkey) : ¬ OutOfReserve (.token e) := Failure.noConfusion
  simp only [fundTradeEscrow, avoids_bind, avoids_require, avoids_checkedSub, avoids_checkedAdd,
    avoids_pure, avoids_loads hanchor, avoids_invoke htoken, OutOfReserve, reduceCtorEq,
    Failure.escrow.injEq, false_imp_iff, implies_true, and_true, true_and, require_ok,
    loadLiquidityVault_ok, loadTradeEscrow_ok, forall_const]
  intro v hv _ _ e he _ _ _ _ hs hm hst
  rw [← hs, ← hm] at hv
  exact h.amount_le he.1 hst hv

theorem avoids_close (h : Reserving w) {mint : Pubkey} {id : ℕ} {e : TradeEscrowVault}
    {v : LiquidityVault} (hload : loadUnapproved w mint id = .ok (e, v)) :
    Avoids OutOfReserve (closeReservation w mint id e v) := by
  have htoken (e : TransferError Pubkey) : ¬ OutOfReserve (.token e) := Failure.noConfusion
  obtain ⟨rfl, he, -, hv, -, hstate⟩ := loadUnapproved_ok hload
  simp only [closeReservation, returnToSeller, avoids_bind, avoids_pure, implies_true, and_true]
  split_ifs with hst
  · simp only [unwindFundedTradeEscrow, avoids_bind, avoids_checkedSub, avoids_checkedAdd,
      avoids_pure, avoids_invoke htoken, OutOfReserve, reduceCtorEq, Failure.escrow.injEq,
      false_imp_iff, implies_true, and_self]
  · simp only [releaseReservationMarking, avoids_bind, avoids_require, avoids_checkedSub,
      avoids_checkedAdd, avoids_pure, OutOfReserve, reduceCtorEq, Failure.escrow.injEq,
      false_imp_iff, implies_true, and_true, forall_const]
    exact h.amount_le he (hstate.resolve_right hst) hv

theorem avoids_outOfReserve (h : Reserving w) (hix : takesReserve ix = true) :
    Avoids OutOfReserve (step P w ix) := by
  have hanchor (e : AnchorError) : ¬ OutOfReserve (.anchor e) := Failure.noConfusion
  have hload (mint : Pubkey) (id : ℕ) : Avoids OutOfReserve (loadUnapproved w mint id) := by
    simp only [loadUnapproved, avoids_bind, avoids_require, avoids_pure, avoids_loads hanchor,
      OutOfReserve, reduceCtorEq, Failure.escrow.injEq, false_imp_iff, implies_true, and_self]
  simp only [step, avoids_bind, avoids_require, hanchor, false_imp_iff, true_and]
  intro _ _
  cases ix with
  | fundTradeEscrow => exact avoids_fund h _ _ _
  | cancelReservation | expireReservation =>
    simp only [dispatch, cancelReservation, expireReservation, avoids_bind, avoids_require, hload,
      OutOfReserve, reduceCtorEq, Failure.escrow.injEq, false_imp_iff, true_and]
    exact fun _ hl _ _ => avoids_close h hl
  | _ => cases hix

/-- In a run that creates every escrow within the reserve, the reserved counter of
each vault covers all of its unfunded escrows in the state reached, and funding,
cancelling and expiring never fail for lack of reserved liquidity there. -/
theorem reserved_backs_unfunded (P : Platform) (w₀ : World) (hg : Genesis w₀)
    (txs : List Instruction)
    (hroom : ∀ t ∈ transitions (step P) w₀ txs, createsWithinReserve t = true) :
    (∀ merchant mint v,
      (run (step P) w₀ txs).liquidityVaults.lookup (merchant, mint) = some v →
        escrowTotal (run (step P) w₀ txs) merchant mint Unfunded ≤ v.reserved) ∧
      ∀ ix, takesReserve ix = true →
        step P (run (step P) w₀ txs) ix ≠ .error (.escrow .insufficientReservedLiquidity) := by
  have h : Reserving (run (step P) w₀ txs) := by
    refine run_invariant (fun _ _ _ h hs ht => step_reserving h hs ht)
      ⟨inCustody_genesis hg, fun k p hp => ?_⟩ txs hroom
    simp [book, bookOf, hg.liquidityVaults] at hp
  exact ⟨fun _ _ _ hv => h.total_le hv, fun ix hix he => avoids_outOfReserve h hix _ he rfl⟩

def overReserved : List Instruction :=
  reserveHundred (.fixed .mockUsdc) ++
    [.createTradeEscrow 1 (.wallet 2) (.fixed .mockUsdc) 7 100 600,
      .createTradeEscrow 1 (.wallet 2) (.fixed .mockUsdc) 8 100 600,
      .fundTradeEscrow 1 (.fixed .mockUsdc) 7,
      .advanceClock 1000 []]

/-- Escrows of 60 and 40, created within a reserve of 100: the second can be funded after the
first. -/
theorem reserved_backs_unfunded_pair :
    step recordedPlatform (chainAfter (reserveHundred (.fixed .mockUsdc) ++
        [.createTradeEscrow 1 (.wallet 2) (.fixed .mockUsdc) 7 60 600,
          .createTradeEscrow 1 (.wallet 2) (.fixed .mockUsdc) 8 40 600,
          .fundTradeEscrow 1 (.fixed .mockUsdc) 7]))
      (.fundTradeEscrow 1 (.fixed .mockUsdc) 8) ≠
        .error (.escrow .insufficientReservedLiquidity) :=
  (reserved_backs_unfunded recordedPlatform emptyChain genesis_emptyChain _ (by decide +kernel)).2 _
    rfl

/-- Two escrows of 100 on one reservation of 100: once the first is funded, the
second can be neither funded nor cancelled nor expired. -/
theorem two_escrows_on_one_reserve :
    escrowTotal (chainAfter overReserved) (.wallet 1)
        (.fixed .mockUsdc) Unfunded = 100 ∧
      ((chainAfter overReserved).liquidityVaults.lookup
        (.wallet 1, .fixed .mockUsdc)).map (·.reserved) = some 0 ∧
      step recordedPlatform (chainAfter overReserved)
        (.fundTradeEscrow 1 (.fixed .mockUsdc) 8) =
          .error (.escrow .insufficientReservedLiquidity) ∧
      step recordedPlatform (chainAfter overReserved)
        (.cancelReservation 2 (.fixed .mockUsdc) 8) =
          .error (.escrow .insufficientReservedLiquidity) ∧
      step recordedPlatform (chainAfter overReserved)
        (.expireReservation (.fixed .mockUsdc) 8) =
          .error (.escrow .insufficientReservedLiquidity) :=
  ⟨by decide +kernel, by decide +kernel, rfl, rfl, rfl⟩

end OpenFiat.ReservedBacking
