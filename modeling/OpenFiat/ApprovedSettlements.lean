import OpenFiat.EscrowPayouts

/-!
# What can still happen to an approved settlement

Once the seller has approved, neither party can cancel the trade and it cannot
expire. Opening a dispute asks only whether the escrow is funded, so it remains
possible, and the arbitrators may then send the funds back. `AfterApproval` lists
the positions that an approved escrow can be in, with the transitions since the
approval that led there.
-/
namespace OpenFiat.ApprovedSettlements
open TokenLedger ProgramAddress EscrowAccounts
open ChainWorld EscrowFunds EscrowLiquidity EscrowDisputes
open TransactionRuns ChainSteps LedgerCustody CustodyRefinement EscrowSteps EscrowPayouts

def disputes (id : ℕ) (t : Transition World Instruction) : Bool :=
  match t.label with
  | .openDisputeCase _ reservationId .. => reservationId = id
  | _ => false

/-- A transition that releases the escrow `e` by paying `paid` to the buyer and the
treasuries. -/
def Releases (id : ℕ) (e : TradeEscrowVault) (paid : List (Transfer Pubkey))
    (t : Transition World Instruction) : Prop :=
  ∃ mint target, t.label = .releaseEscrow mint id target ∧
    t.before.tokens.header target = some (e.mint, e.buyer) ∧ PaysBuyer t.before id e target paid

/-- A transition that executes a case over the escrow, after a dispute was opened. -/
def Judges (id : ℕ) (H : List (Transition World Instruction)) : Prop :=
  ∃ earlier t later a, H = earlier ++ t :: later ∧ (∃ u ∈ earlier, disputes id u = true) ∧
    t.label = .executeDisputeOutcome a ∧ a.escrowId = id

/-- The state of an escrow approved as `e`, after the transitions `H`, with the
payments `paid` that its token account has made. -/
inductive AfterApproval (id : ℕ) (e : TradeEscrowVault) (H : List (Transition World Instruction))
    (paid : List (Transfer Pubkey)) : VaultState → Prop
  | waiting : (∀ t ∈ H, disputes id t = false) → paid = [] →
      AfterApproval id e H paid .awaitingFiatSettlement
  | released {t : Transition World Instruction} {state : VaultState} :
      (∀ u ∈ H, disputes id u = false) → t ∈ H → Releases id e paid t →
      VaultState.Terminal state → AfterApproval id e H paid state
  | disputed : (∃ t ∈ H, disputes id t = true) → paid = [] → AfterApproval id e H paid .frozen
  | judged {state : VaultState} : Judges id H → VaultState.Terminal state →
      AfterApproval id e H paid state

section
variable {P : Platform} {w w' : World} {ix : Instruction} {id : ℕ} {e : TradeEscrowVault}
  {H : List (Transition World Instruction)} {paid : List (Transfer Pubkey)} {state : VaultState}
  {t : Transition World Instruction}

theorem disputes_of_escrowOf (h : escrowOf t.label ≠ some id) : disputes id t = false := by
  unfold disputes
  split
  · rename_i heq
    rw [heq] at h
    exact decide_eq_false fun hid => h (congrArg some hid)
  · rfl

theorem not_disputes_append (h : ∀ u ∈ H, disputes id u = false) (ht : disputes id t = false) :
    ∀ u ∈ H ++ [t], disputes id u = false :=
  List.forall_mem_append.mpr ⟨h, List.forall_mem_singleton.mpr ht⟩

theorem Judges.append (h : Judges id H) : Judges id (H ++ [t]) := by
  obtain ⟨earlier, u, later, a, rfl, hopen, hlabel, hid⟩ := h
  exact ⟨earlier, u, later ++ [t], a, by rw [List.append_assoc, List.cons_append], hopen, hlabel,
    hid⟩

theorem AfterApproval.extend (h : AfterApproval id e H paid state)
    (ht : escrowOf t.label ≠ some id) : AfterApproval id e (H ++ [t]) paid state := by
  have hquiet := disputes_of_escrowOf ht
  cases h with
  | waiting hnone hpaid => exact .waiting (not_disputes_append hnone hquiet) hpaid
  | released hnone hmem hreleases hterm =>
    exact .released (not_disputes_append hnone hquiet) (List.mem_append_left _ hmem) hreleases hterm
  | disputed hsome hpaid =>
    obtain ⟨u, hu, hopen⟩ := hsome
    exact .disputed ⟨u, List.mem_append_left _ hu, hopen⟩ hpaid
  | judged hjudges hterm => exact .judged hjudges.append hterm

/-- An escrow that waits for its release is released, disputed or left as it is. -/
theorem AfterApproval.step_waiting {e' : TradeEscrowVault} {more : List (Transfer Pubkey)}
    (happ : e.approved = true) (hnone : ∀ u ∈ H, disputes id u = false)
    (hmore : w'.tokens.paidBy (.tradeEscrowTokens id) = more)
    (hpaid : w.tokens.paidBy (.tradeEscrowTokens id) = [])
    (hs : EscrowStep w ix w' id { e with state := .awaitingFiatSettlement } e') :
    ∃ s, e' = { e with state := s } ∧ AfterApproval id e (H ++ [⟨w, ix, w'⟩]) more s := by
  cases hs with
  | funded _ hst | dropped _ hst | carried _ _ hst => cases hst
  | approved hix _ hquiet =>
    refine ⟨.awaitingFiatSettlement, by rw [← happ], .waiting (not_disputes_append hnone ?_) ?_⟩
    · rw [disputes, hix]
    · rw [← hmore, hquiet, hpaid]
  | frozen hix _ hquiet =>
    refine ⟨.frozen, rfl, .disputed ⟨_, List.mem_append_right _ (List.mem_singleton_self _), ?_⟩ ?_⟩
    · rw [hix]
      exact decide_eq_true rfl
    · rw [← hmore, hquiet, hpaid]
  | @paid ms s hpays hpaid' hterm =>
    refine ⟨s, rfl, ?_⟩
    rw [hpaid, hmore] at hpaid'
    subst hpaid'
    cases hpays with
    | @released mint target hix _ _ hbuyer hpays =>
      refine .released (not_disputes_append hnone ?_)
        (List.mem_append_right _ (List.mem_singleton_self _)) ⟨mint, target, hix, hbuyer, ?_⟩ hterm
      · rw [disputes, hix]
      · exact hpays
    | closed _ _ hunapproved => exact Bool.noConfusion (happ.symm.trans hunapproved)
    | judged _ _ hst => cases hst

/-- A frozen escrow is carried over to another round or paid out by a verdict. -/
theorem AfterApproval.step_disputed {e' : TradeEscrowVault} {more : List (Transfer Pubkey)}
    (hsome : ∃ u ∈ H, disputes id u = true)
    (hmore : w'.tokens.paidBy (.tradeEscrowTokens id) = more)
    (hpaid : w.tokens.paidBy (.tradeEscrowTokens id) = [])
    (hs : EscrowStep w ix w' id { e with state := .frozen } e') :
    ∃ s, e' = { e with state := s } ∧ AfterApproval id e (H ++ [⟨w, ix, w'⟩]) more s := by
  cases hs with
  | funded _ hst | approved _ hst | frozen _ hst | dropped _ hst => cases hst
  | carried _ _ _ hquiet =>
    obtain ⟨u, hu, hopen⟩ := hsome
    refine ⟨.frozen, rfl, .disputed ⟨u, List.mem_append_left _ hu, hopen⟩ ?_⟩
    rw [← hmore, hquiet, hpaid]
  | @paid ms s hpays hpaid' hterm =>
    refine ⟨s, rfl, ?_⟩
    cases hpays with
    | released _ hst | closed _ hst => cases hst
    | @judged a c hix hid => exact .judged ⟨H, _, [], a, rfl, hsome, hix, hid⟩ hterm

theorem step_afterApproval (hk : Keyed w) (hs : step P w ix = .ok w') (happ : e.approved = true)
    (he : w.tradeEscrows.lookup id = some { e with state })
    (h : AfterApproval id e H (w.tokens.paidBy (.tradeEscrowTokens id)) state) :
    ∃ s, w'.tradeEscrows.lookup id = some { e with state := s } ∧
      AfterApproval id e (H ++ [⟨w, ix, w'⟩]) (w'.tokens.paidBy (.tradeEscrowTokens id)) s := by
  have hslot := step_trade hk hs id
  rw [he] at hslot
  generalize w'.tradeEscrows.lookup id = slot' at hslot ⊢
  cases hslot with
  | untouched hix hquiet =>
    rw [hquiet]
    exact ⟨state, rfl, h.extend hix⟩
  | changed hstep =>
    cases h with
    | waiting hnone hpaid =>
      obtain ⟨s, rfl, hs⟩ := AfterApproval.step_waiting happ hnone rfl hpaid hstep
      exact ⟨s, rfl, hs⟩
    | released _ _ _ hterm | judged _ hterm => exact absurd hterm (open_of_escrowStep hstep)
    | disputed hsome hpaid =>
      obtain ⟨s, rfl, hs⟩ := AfterApproval.step_disputed hsome rfl hpaid hstep
      exact ⟨s, rfl, hs⟩

theorem not_closes_of_approved (hs : step P w ix = .ok w')
    (he : w.tradeEscrows.lookup id = some e) (happ : e.approved = true) : ¬ Closes id ix := by
  intro hcloses
  have hclose : ClosesReservation w id w' := by
    rcases hcloses with ⟨signer, mint, rfl⟩ | ⟨mint, rfl⟩
    · exact cancelReservation_ok (step_ok.mp hs).2
    · exact expireReservation_ok (step_ok.mp hs).2
  obtain ⟨e', v, L, v', he', -, -, hunapproved, -⟩ := hclose
  obtain rfl := Option.mem_unique he he'
  exact Bool.noConfusion (happ.symm.trans hunapproved)

theorem run_afterApproval (hk : Keyed w) (he : w.tradeEscrows.lookup id = some e)
    (happ : e.approved = true) (hst : e.state = .awaitingFiatSettlement)
    (hpaid : w.tokens.paidBy (.tradeEscrowTokens id) = []) (txs : List Instruction) :
    (∀ t ∈ transitions (step P) w txs, ¬ Closes id t.label) ∧
      ∃ s, (run (step P) w txs).tradeEscrows.lookup id = some { e with state := s } ∧
        AfterApproval id e (transitions (step P) w txs)
          ((run (step P) w txs).tokens.paidBy (.tradeEscrowTokens id)) s := by
  refine (run_history_rule (J := fun H s => Keyed s ∧ (∀ t ∈ H, ¬ Closes id t.label) ∧
    ∃ state, s.tradeEscrows.lookup id = some { e with state } ∧
      AfterApproval id e H (s.tokens.paidBy (.tradeEscrowTokens id)) state)
    (G := fun _ => True) ?_ (H := []) ⟨hk, fun t ht => (List.not_mem_nil ht).elim,
      .awaitingFiatSettlement, ?_, .waiting (fun t ht => (List.not_mem_nil ht).elim) hpaid⟩ txs
    fun _ _ => trivial).2
  · intro H s ix s' hJ hs _
    obtain ⟨hks, hopen, state, hes, hafter⟩ := hJ
    refine ⟨step_keyed hks hs, List.forall_mem_append.mpr ⟨hopen, List.forall_mem_singleton.mpr ?_⟩,
      step_afterApproval hks hs happ hes hafter⟩
    exact not_closes_of_approved hs hes happ
  · rw [he, ← hst]

end

/-- After an approval no cancellation and no expiry of the escrow succeeds. As long as
no dispute is opened after it, the escrow waits with its funds or was released to
the buyer and the treasuries. Its funds go elsewhere only by the verdict on a
dispute that was opened after the approval. -/
theorem approved_settlement_paths (P : Platform) (w₀ : World) (hg : Genesis w₀)
    (before : List Instruction) (merchant id : ℕ) (w₁ : World)
    (happrove : step P (run (step P) w₀ before) (.approveSettlement merchant id) = .ok w₁)
    (after : List Instruction) :
    (∀ t ∈ transitions (step P) w₁ after, ¬ Closes id t.label) ∧
    ∃ e s, w₁.tradeEscrows.lookup id = some e ∧
      (run (step P) w₁ after).tradeEscrows.lookup id = some { e with state := s } ∧
      ((∀ t ∈ transitions (step P) w₁ after, disputes id t = false) →
        (s = .awaitingFiatSettlement ∧
          (run (step P) w₁ after).tokens.paidBy (.tradeEscrowTokens id) = []) ∨
        (VaultState.Terminal s ∧ ∃ t ∈ transitions (step P) w₁ after,
          Releases id e ((run (step P) w₁ after).tokens.paidBy (.tradeEscrowTokens id)) t)) ∧
      ((run (step P) w₁ after).tokens.paidBy (.tradeEscrowTokens id) ≠ [] →
        (∃ t ∈ transitions (step P) w₁ after,
          Releases id e ((run (step P) w₁ after).tokens.paidBy (.tradeEscrowTokens id)) t) ∨
        Judges id (transitions (step P) w₁ after)) := by
  obtain ⟨hk, hhistory⟩ := run_escrowHistory (P := P) hg before
  obtain ⟨e, he, hst, hw₁⟩ := approveSettlement_ok (step_ok.mp happrove).2
  have hheld := hhistory id
  rw [he] at hheld
  have hpaid : w₁.tokens.paidBy (.tradeEscrowTokens id) = [] := hw₁ ▸ (hheld.of_funded (.inl hst)).2
  have he₁ : w₁.tradeEscrows.lookup id = some { e with approved := true } :=
    hw₁ ▸ Finmap.lookup_insert _
  obtain ⟨hopen, s, hes, hafter⟩ := run_afterApproval (P := P) (step_keyed hk happrove) he₁ rfl hst
    hpaid after
  refine ⟨hopen, _, s, he₁, hes, fun hnone => ?_, fun hsome => ?_⟩
  · cases hafter with
    | waiting _ hpaid => exact .inl ⟨rfl, hpaid⟩
    | released _ hmem hreleases hterm => exact .inr ⟨hterm, _, hmem, hreleases⟩
    | disputed hsome =>
      obtain ⟨t, ht, hdispute⟩ := hsome
      exact absurd hdispute (Bool.eq_false_iff.mp (hnone t ht))
    | judged hjudges =>
      obtain ⟨earlier, t, later, a, hH, ⟨u, hu, hdispute⟩, -⟩ := hjudges
      have hmem : u ∈ transitions (step P) w₁ after := by
        rw [hH]
        exact List.mem_append_left _ hu
      exact absurd hdispute (Bool.eq_false_iff.mp (hnone u hmem))
  · cases hafter with
    | waiting _ hpaid | disputed _ hpaid => exact absurd hpaid hsome
    | released _ hmem hreleases => exact .inl ⟨_, hmem, hreleases⟩
    | judged hjudges => exact .inr hjudges

theorem approve_fundedEscrow :
    step recordedPlatform (chainAfter (fundedEscrow 5))
        (.approveSettlement 1 7) =
      .ok (apply (step recordedPlatform) (chainAfter (fundedEscrow 5))
        (.approveSettlement 1 7)) := step_eq_apply (by decide +kernel)

/-- The seller approves, an attempt to cancel fails and the escrow is released: the
buyer receives all of it. -/
theorem approved_settlement_paths_release :
    ∃ w₁, step recordedPlatform (chainAfter (fundedEscrow 5))
        (.approveSettlement 1 7) = .ok w₁ ∧
      (run (step recordedPlatform) w₁ [.cancelReservation 2 (.fixed .mockUsdc) 7,
        .releaseEscrow (.fixed .mockUsdc) 7 (.wallet 20)]).tokens.paidBy (.tradeEscrowTokens 7) =
        [⟨.tradeEscrowTokens 7, .wallet 20, 100⟩] ∧
      ∀ t ∈ transitions (step recordedPlatform) w₁ [.cancelReservation 2 (.fixed .mockUsdc) 7,
        .releaseEscrow (.fixed .mockUsdc) 7 (.wallet 20)], ¬ Closes 7 t.label := by
  refine ⟨_, approve_fundedEscrow, by decide +kernel, ?_⟩
  exact (approved_settlement_paths recordedPlatform emptyChain genesis_emptyChain (fundedEscrow 5)
    1 7 _ approve_fundedEscrow _).1

/-- The seller approves and then opens a dispute. Nobody votes, and the even split
returns half of the escrow to the seller's vault. -/
theorem approved_settlement_returned :
    ¬ ∀ (P : Platform) (w₀ : World), Genesis w₀ → ∀ before merchant id w₁,
      step P (run (step P) w₀ before) (.approveSettlement merchant id) = .ok w₁ →
      ∀ after e, w₁.tradeEscrows.lookup id = some e →
      ∀ m ∈ (run (step P) w₁ after).tokens.paidBy (.tradeEscrowTokens id),
        m.target ≠ .liquidityVaultTokens e.seller e.mint := by
  intro h
  have hescrow : ((apply (step recordedPlatform) (chainAfter
    (fundedEscrow 5)) (.approveSettlement 1 7)).tradeEscrows.lookup 7).map
      (fun e => (e.seller, e.mint)) = some (.wallet 1, .fixed .mockUsdc) := by decide +kernel
  obtain ⟨e, he, hkeys⟩ := Option.map_eq_some_iff.mp hescrow
  obtain ⟨hseller, hmint⟩ := Prod.mk.inj hkeys
  have hpaid : ⟨.tradeEscrowTokens 7, .liquidityVaultTokens (.wallet 1) (.fixed .mockUsdc), 50⟩ ∈
      (run (step recordedPlatform) (apply (step recordedPlatform) (run (step recordedPlatform)
        emptyChain (fundedEscrow 5)) (.approveSettlement 1 7))
        (.openDisputeCase 1 7 (.wallet 50) 60 60 :: endUnstaffed)).tokens.paidBy
          (.tradeEscrowTokens 7) := by decide +kernel
  have hne := h recordedPlatform emptyChain genesis_emptyChain (fundedEscrow 5) 1 7 _
    approve_fundedEscrow (.openDisputeCase 1 7 (.wallet 50) 60 60 :: endUnstaffed) e he _ hpaid
  rw [hseller, hmint] at hne
  exact hne rfl

end OpenFiat.ApprovedSettlements
