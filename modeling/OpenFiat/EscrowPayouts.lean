import OpenFiat.EscrowSteps
import OpenFiat.CustodyInvariant

/-!
# A trade escrow pays out once and in full

`EscrowHistory` relates the transitions executed so far to the record of one
escrow and to the transfers its token account has made: none before it is closed,
none if it was never funded, and otherwise the transfers of exactly the transition
that closed it. A closed escrow is final.
-/
namespace OpenFiat.EscrowPayouts
open TokenLedger ProgramAddress EscrowAccounts
open ChainWorld EscrowFunds EscrowLiquidity
open TransactionRuns ChainSteps CustodyRefinement CustodyInvariant EscrowSteps

def funds (id : ℕ) (t : Transition World Instruction) : Bool :=
  match t.label with
  | .fundTradeEscrow _ _ id' => id' = id
  | _ => false

theorem funds_iff (id : ℕ) (t : Transition World Instruction) :
    funds id t = true ↔ ∃ merchant mint, t.label = .fundTradeEscrow merchant mint id := by
  constructor
  · intro h
    unfold funds at h
    split at h
    · rename_i merchant mint id' hlabel
      exact ⟨merchant, mint, hlabel.trans (by rw [of_decide_eq_true h])⟩
    · cases h
  · intro h
    obtain ⟨merchant, mint, hlabel⟩ := h
    rw [funds, hlabel]
    exact decide_eq_true rfl

/-- What the executed transitions `H` and the payments `paid` of an escrow's token
account mean for its record. -/
inductive EscrowHistory (id : ℕ) (H : List (Transition World Instruction))
    (paid : List (Transfer Pubkey)) : Option TradeEscrowVault → Prop
  | absent : (∀ t ∈ H, funds id t = false) → paid = [] → EscrowHistory id H paid none
  | unfunded {e : TradeEscrowVault} : (∀ t ∈ H, funds id t = false) → paid = [] →
      e.state = .reserved → EscrowHistory id H paid (some e)
  | dropped {e : TradeEscrowVault} : (∀ t ∈ H, funds id t = false) → paid = [] →
      e.state = .cancelled → EscrowHistory id H paid (some e)
  | holding {e : TradeEscrowVault} : (∃ t ∈ H, funds id t = true) → paid = [] → Funded e.state →
      EscrowHistory id H paid (some e)
  | closed {t : Transition World Instruction} {e : TradeEscrowVault} {state : VaultState} :
      (∃ u ∈ H, funds id u = true) → t ∈ H → t.before.tradeEscrows.lookup id = some e →
      Payout t.before t.label t.after id e paid → VaultState.Terminal state →
      EscrowHistory id H paid (some { e with state })

section
variable {P : Platform} {w w' : World} {ix : Instruction} {id : ℕ}
  {H : List (Transition World Instruction)} {paid : List (Transfer Pubkey)}
  {slot : Option TradeEscrowVault} {e : TradeEscrowVault}

theorem not_funded_of_terminal {s : VaultState} (h : VaultState.Terminal s) : ¬ Funded s := by
  rcases h with rfl | rfl <;> decide

theorem ne_reserved_of_terminal {s : VaultState} (h : VaultState.Terminal s) : s ≠ .reserved := by
  rcases h with rfl | rfl <;> decide

variable {t : Transition World Instruction}

theorem not_funds_append (h : ∀ u ∈ H, funds id u = false) (ht : funds id t = false) :
    ∀ u ∈ H ++ [t], funds id u = false :=
  List.forall_mem_append.mpr ⟨h, List.forall_mem_singleton.mpr ht⟩

theorem funds_append (h : ∃ u ∈ H, funds id u = true) : ∃ u ∈ H ++ [t], funds id u = true := by
  obtain ⟨u, hu, hfunds⟩ := h
  exact ⟨u, List.mem_append_left _ hu, hfunds⟩

theorem EscrowHistory.extend (h : EscrowHistory id H paid slot) (ht : funds id t = false) :
    EscrowHistory id (H ++ [t]) paid slot := by
  cases h with
  | absent hnone hpaid => exact .absent (not_funds_append hnone ht) hpaid
  | unfunded hnone hpaid hst => exact .unfunded (not_funds_append hnone ht) hpaid hst
  | dropped hnone hpaid hst => exact .dropped (not_funds_append hnone ht) hpaid hst
  | holding hsome hpaid hst => exact .holding (funds_append hsome) hpaid hst
  | closed hsome hmem he hpays hterm =>
    exact .closed (funds_append hsome) (List.mem_append_left _ hmem) he hpays hterm

theorem EscrowHistory.of_reserved (h : EscrowHistory id H paid (some e))
    (hst : e.state = .reserved) : (∀ t ∈ H, funds id t = false) ∧ paid = [] := by
  cases h with
  | unfunded hnone hpaid | dropped hnone hpaid => exact ⟨hnone, hpaid⟩
  | holding _ _ hfunded =>
    rw [hst] at hfunded
    exact absurd hfunded (by decide)
  | closed _ _ _ _ hterm => exact absurd hst (ne_reserved_of_terminal hterm)

theorem EscrowHistory.of_funded (h : EscrowHistory id H paid (some e)) (hst : Funded e.state) :
    (∃ t ∈ H, funds id t = true) ∧ paid = [] := by
  cases h with
  | unfunded _ _ hres =>
    rw [hres] at hst
    exact absurd hst (by decide)
  | dropped _ _ hcancelled =>
    rw [hcancelled] at hst
    exact absurd hst (by decide)
  | holding hsome hpaid => exact ⟨hsome, hpaid⟩
  | closed _ _ _ _ hterm => exact absurd hst (not_funded_of_terminal hterm)

theorem funded_of_payout {ms : List (Transfer Pubkey)} (h : Payout w ix w' id e ms) :
    Funded e.state := by
  cases h with
  | released _ hst | closed _ hst => exact .inl hst
  | judged _ _ hst => exact .inr hst

theorem step_escrowHistory (hk : Keyed w) (hs : step P w ix = .ok w')
    (h : EscrowHistory id H (w.tokens.paidBy (.tradeEscrowTokens id))
      (w.tradeEscrows.lookup id)) :
    EscrowHistory id (H ++ [⟨w, ix, w'⟩]) (w'.tokens.paidBy (.tradeEscrowTokens id))
      (w'.tradeEscrows.lookup id) := by
  have hslot := step_trade hk hs id
  have hnot (hix : ∀ merchant mint, ix ≠ .fundTradeEscrow merchant mint id) :
      funds id ⟨w, ix, w'⟩ = false := by
    refine Bool.eq_false_iff.mpr fun hfunds => ?_
    obtain ⟨merchant, mint, hlabel⟩ := (funds_iff id _).mp hfunds
    exact hix merchant mint hlabel
  generalize hold : w.tradeEscrows.lookup id = slot at hslot h
  generalize w'.tradeEscrows.lookup id = slot' at hslot ⊢
  cases hslot with
  | untouched hix hquiet =>
    rw [hquiet]
    refine h.extend (hnot fun merchant mint hfund => hix ?_)
    rw [hfund, escrowOf]
  | created hix hst _ hquiet =>
    rw [hquiet]
    cases h with
    | absent hnone hpaid =>
      refine .unfunded (not_funds_append hnone (hnot fun merchant mint hfund => ?_)) hpaid hst
      rw [hix] at hfund
      cases hfund
  | @changed e e' hstep =>
    have hnew : (⟨w, ix, w'⟩ : Transition World Instruction) ∈ H ++ [⟨w, ix, w'⟩] :=
      List.mem_append_right _ (List.mem_singleton_self _)
    cases hstep with
    | @funded merchant mint hix hst hquiet =>
      obtain ⟨-, hpaid⟩ := h.of_reserved hst
      rw [hquiet]
      exact .holding ⟨_, hnew, (funds_iff id _).mpr ⟨merchant, mint, hix⟩⟩ hpaid (.inl rfl)
    | approved hix hst hquiet =>
      obtain ⟨hsome, hpaid⟩ := h.of_funded (.inl hst)
      rw [hquiet]
      exact .holding (funds_append hsome) hpaid (.inl hst)
    | frozen hix hst hquiet =>
      obtain ⟨hsome, hpaid⟩ := h.of_funded (.inl hst)
      rw [hquiet]
      exact .holding (funds_append hsome) hpaid (.inr rfl)
    | dropped hix hst happ hquiet =>
      obtain ⟨hnone, hpaid⟩ := h.of_reserved hst
      rw [hquiet]
      refine .dropped (not_funds_append hnone (hnot fun merchant mint hfund => ?_)) hpaid rfl
      rw [hfund] at hix
      rcases hix with ⟨_, _, hix⟩ | ⟨_, hix⟩ <;> cases hix
    | carried hix hid hst hquiet =>
      rw [hquiet]
      refine h.extend (hnot fun merchant mint hfund => ?_)
      rw [hix] at hfund
      cases hfund
    | paid hpays hpaid hterm =>
      obtain ⟨hsome, hnothing⟩ := h.of_funded (funded_of_payout hpays)
      rw [hpaid, hnothing]
      exact .closed (funds_append hsome) hnew hold hpays hterm

theorem open_of_escrowStep {e' : TradeEscrowVault} (h : EscrowStep w ix w' id e e') :
    ¬ VaultState.Terminal e.state := by
  intro hterm
  have hopen : ¬ Funded e.state := not_funded_of_terminal hterm
  cases h with
  | funded _ hst | dropped _ hst => exact absurd hst (ne_reserved_of_terminal hterm)
  | approved _ hst | frozen _ hst => exact absurd (.inl hst) hopen
  | carried _ _ hst => exact absurd (.inr hst) hopen
  | paid hpays => exact absurd (funded_of_payout hpays) hopen

theorem step_closed (hk : Keyed w) (hs : step P w ix = .ok w')
    (he : w.tradeEscrows.lookup id = some e) (hterm : VaultState.Terminal e.state) :
    w'.tradeEscrows.lookup id = some e ∧ Quiet id w w' ∧ escrowOf ix ≠ some id := by
  have hslot := step_trade hk hs id
  rw [he] at hslot
  generalize w'.tradeEscrows.lookup id = slot' at hslot ⊢
  cases hslot with
  | untouched hix hquiet => exact ⟨rfl, hquiet, hix⟩
  | changed hstep => exact absurd hterm (open_of_escrowStep hstep)

theorem run_escrowHistory (hg : Genesis w) (txs : List Instruction) :
    Keyed (run (step P) w txs) ∧ ∀ id, EscrowHistory id (transitions (step P) w txs)
      ((run (step P) w txs).tokens.paidBy (.tradeEscrowTokens id))
      ((run (step P) w txs).tradeEscrows.lookup id) := by
  refine run_history_rule (J := fun H s => Keyed s ∧ ∀ id, EscrowHistory id H
    (s.tokens.paidBy (.tradeEscrowTokens id)) (s.tradeEscrows.lookup id)) (G := fun _ => True)
    ?_ (H := []) ⟨keyed_genesis hg, ?_⟩ txs fun _ _ => trivial
  · intro H s ix s' hJ hs _
    exact ⟨step_keyed hJ.1 hs, fun id => step_escrowHistory hJ.1 hs (hJ.2 id)⟩
  · intro id
    rw [hg.tradeEscrows, Ledger.paidBy, hg.history]
    exact .absent (fun t ht => by cases ht) rfl

end

/-- Over every run: a closed escrow keeps its record and its account pays nothing
more; an escrow that is still open, or was never funded, has paid nothing; and a
funded escrow that is closed has paid exactly its amount, in the one transition
that closed it and to the accounts that `Payout` lists for that instruction. -/
theorem escrow_pays_out_once (P : Platform) (w₀ : World) (hg : Genesis w₀)
    (txs : List Instruction) (id : ℕ) (e : TradeEscrowVault)
    (he : (run (step P) w₀ txs).tradeEscrows.lookup id = some e) :
    (VaultState.Terminal e.state → ∀ more,
      (run (step P) w₀ (txs ++ more)).tradeEscrows.lookup id = some e ∧
      (run (step P) w₀ (txs ++ more)).tokens.paidBy (.tradeEscrowTokens id) =
        (run (step P) w₀ txs).tokens.paidBy (.tradeEscrowTokens id)) ∧
    (¬ VaultState.Terminal e.state →
      (run (step P) w₀ txs).tokens.paidBy (.tradeEscrowTokens id) = []) ∧
    ((∀ t ∈ transitions (step P) w₀ txs, funds id t = false) →
      (run (step P) w₀ txs).tokens.paidBy (.tradeEscrowTokens id) = []) ∧
    (VaultState.Terminal e.state → (∃ t ∈ transitions (step P) w₀ txs, funds id t = true) →
      (((run (step P) w₀ txs).tokens.paidBy (.tradeEscrowTokens id)).map (·.amount)).sum =
        e.amount ∧
      ∃ t ∈ transitions (step P) w₀ txs, ∃ before,
        t.before.tradeEscrows.lookup id = some before ∧ e = { before with state := e.state } ∧
        Payout t.before t.label t.after id before
          ((run (step P) w₀ txs).tokens.paidBy (.tradeEscrowTokens id))) := by
  obtain ⟨hk, hhistory⟩ := run_escrowHistory (P := P) hg txs
  have h := hhistory id
  rw [he] at h
  refine ⟨fun hterm more => ?_, fun hopen => ?_, fun hnone => ?_, fun hterm hsome => ?_⟩
  · rw [run_append]
    refine (run_invariant_always (I := fun s => Keyed s ∧ s.tradeEscrows.lookup id = some e ∧
      s.tokens.paidBy (.tradeEscrowTokens id) =
        (run (step P) w₀ txs).tokens.paidBy (.tradeEscrowTokens id)) ?_ ⟨hk, he, rfl⟩ more).2
    intro s ix s' ⟨hks, hes, hps⟩ hstep
    obtain ⟨hes', hquiet, -⟩ := step_closed hks hstep hes hterm
    exact ⟨step_keyed hks hstep, hes', hquiet.trans hps⟩
  · cases h with
    | unfunded _ hpaid | dropped _ hpaid | holding _ hpaid => exact hpaid
    | closed _ _ _ _ hterm => exact absurd hterm hopen
  · cases h with
    | unfunded _ hpaid | dropped _ hpaid | holding _ hpaid => exact hpaid
    | closed hsome =>
      obtain ⟨t, ht, hfunds⟩ := hsome
      exact absurd hfunds (Bool.eq_false_iff.mp (hnone t ht))
  · obtain ⟨u, hu, hfunds⟩ := hsome
    cases h with
    | unfunded hnone | dropped hnone => exact absurd hfunds (Bool.eq_false_iff.mp (hnone u hu))
    | holding _ _ hst => exact absurd hst (not_funded_of_terminal hterm)
    | closed _ hmem hbefore hpays =>
      exact ⟨hpays.sum, _, hmem, _, hbefore, rfl, hpays⟩

/-- A dispute that nobody votes on splits the escrow of 100 evenly. -/
theorem escrow_pays_out_once_split :
    (chainAfter (fundedEscrow 5 ++ openCaseSeven ::
        endUnstaffed)).tokens.paidBy (.tradeEscrowTokens 7) =
      [⟨.tradeEscrowTokens 7, .wallet 20, 50⟩,
        ⟨.tradeEscrowTokens 7, .liquidityVaultTokens (.wallet 1) (.fixed .mockUsdc), 50⟩] ∧
    (((chainAfter (fundedEscrow 5 ++ openCaseSeven ::
        endUnstaffed)).tokens.paidBy (.tradeEscrowTokens 7)).map (·.amount)).sum = 100 := by
  refine ⟨by decide +kernel, ?_⟩
  have hescrow : ((chainAfter (fundedEscrow 5 ++ openCaseSeven ::
      endUnstaffed)).tradeEscrows.lookup 7).map (fun e => (e.state, e.amount)) =
        some (.released, 100) := by decide +kernel
  have hfunds : (transitions (step recordedPlatform) emptyChain (fundedEscrow 5 ++ openCaseSeven ::
      endUnstaffed)).any (funds 7) = true := by decide +kernel
  obtain ⟨e, he, hvalues⟩ := Option.map_eq_some_iff.mp hescrow
  obtain ⟨hstate, hamount⟩ := Prod.mk.inj hvalues
  rw [← hamount]
  exact ((escrow_pays_out_once recordedPlatform emptyChain genesis_emptyChain _ 7 e he).2.2.2
    (.inl hstate) (List.any_eq_true.mp hfunds)).1

end OpenFiat.EscrowPayouts
