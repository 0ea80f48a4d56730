import OpenFiat.SettlementAuthority

/-!
# Replaying a signed settlement action

A signed payload carries no number that is used up, so the only guard against applying it
twice is the state of the settlement. Once a settlement has been approved, rejected,
cancelled, disputed or completed it never waits for a payment again, and approvals,
rejections and cancellations are spent. Between waiting for a payment and having one
submitted the state goes back and forth, and there a payload that was applied before is
applied again.
-/
namespace OpenFiat.SettlementReplay
open GuardedResult NodePayloads TradingNode SettlementRegistry
open NodeSteps TransactionRuns SettlementAuthority

def IsSettlementPayload : Event → Prop
  | .settlementInitiated _ | .paymentSubmitted _ | .paymentReversed _ | .settlementApproved _
  | .settlementRejected _ | .settlementCancelled _ => True
  | _ => False

/-- The settlement that a payment declaration or its reversal is about is back in the state
that the payload starts from. -/
def Reopened (w : Node) : Event → Prop
  | .paymentSubmitted signed =>
    (w.settlements.lookup signed.payload.settlementId).map Settlement.state = some .awaitingPayment
  | .paymentReversed signed =>
    (w.settlements.lookup signed.payload.settlementId).map Settlement.state = some .paymentSubmitted
  | _ => False

def Unchanged (w w' : Node) : Prop :=
  w'.settlements = w.settlements ∧ w'.reservations = w.reservations

/-- A settlement that no longer changes hands between its parties. -/
def Closed (s : Settlement) : Prop := s.state ≠ .awaitingPayment ∧ s.state ≠ .paymentSubmitted

variable {p : NodePlatform} {now : Timestamp} {w w' : Node} {e : Event} {id : SettlementId}
  {s s' : Settlement}

/-- The two open states lead to each other and are entered from nowhere else. -/
theorem Move.closed {effect : Effect} (h : Move p now w id s e effect s') (hs : Closed s) :
    Closed s' := by
  constructor
  · intro hstate
    obtain ⟨signed, -, -, hacts⟩ := h.into_awaitingPayment hstate
    exact hs.2 hacts.state
  · intro hstate
    obtain ⟨signed, -, -, hacts⟩ := h.into_paymentSubmitted hstate
    exact hs.1 hacts.state

/-- Settlements stay, keep their terms, and stay closed. -/
def Persists (w w' : Node) : Prop := ∀ id s, w.settlements.lookup id = some s → ∃ s',
  w'.settlements.lookup id = some s' ∧ SameTerms s s' ∧ (Closed s → Closed s')

theorem persists_refl (w : Node) : Persists w w :=
  fun _ s hs => ⟨s, hs, SameTerms.refl s, fun h => h⟩

theorem persists_trans (w w' w'' : Node) (h : Persists w w') (h' : Persists w' w'') :
    Persists w w'' := by
  intro id s hs
  obtain ⟨s', hs', hterms, hclosed⟩ := h id s hs
  obtain ⟨s'', hs'', hterms', hclosed'⟩ := h' id s' hs'
  exact ⟨s'', hs'', hterms.trans hterms', fun hs => hclosed' (hclosed hs)⟩

theorem step_persists (w : Node) (input : Input) (w' : Node) (h : step p w input = .ok w') :
    Persists w w' := by
  intro id s hs
  cases (step_change h).settlement id with
  | same hsame => exact ⟨s, hsame.trans hs, SameTerms.refl s, fun h => h⟩
  | initiated signed _ _ _ _ hfresh =>
    rw [hfresh] at hs
    cases hs
  | moved s₀ effect s' hmove hnew =>
    obtain rfl : s₀ = s := Option.mem_unique hmove.found hs
    exact ⟨s', hnew, hmove.sameTerms, Move.closed hmove⟩

theorem unchanged_of_refused {input : Input} (h : ∀ w', step p w input ≠ .ok w') :
    Unchanged w (apply (step p) w input) := by
  cases hstep : step p w input with
  | error =>
    rw [apply_error hstep]
    exact ⟨rfl, rfl⟩
  | ok w' => exact absurd hstep (h w')

theorem not_unchanged {input : Input} (hstep : step p w input = .ok w')
    (hs : w.settlements.lookup id = some s) (hs' : w'.settlements.lookup id = some s')
    (hne : s.state ≠ s'.state) : ¬ Unchanged w (apply (step p) w input) := by
  rintro ⟨hsettlements, -⟩
  rw [apply_ok hstep] at hsettlements
  rw [hsettlements, hs] at hs'
  exact hne (congrArg Settlement.state (Option.some.inj hs'))

section PartyReplay
variable {party : Settlement → PeerId × PublicKey} {claimed : PeerId} {statement : Statement}
  {signature : Signature} {start : SettlementState} {w₁ : Node} {s₁ : Settlement}

/-- The check of a party's action depends on the record through the party's name and key,
which do not change, and through the state. -/
theorem PartyActs.again (h : PartyActs p w id party claimed statement signature start s)
    (hs₁ : w₁.settlements.lookup id = some s₁) (hparty : party s₁ = party s)
    (hstate : s₁.state = start) :
    PartyActs p w₁ id party claimed statement signature start s₁ where
  found := hs₁
  named := hparty ▸ h.named
  verified := hparty ▸ h.verified
  state := hstate

theorem PartyActs.state_eq (h : PartyActs p w id party claimed statement signature start s)
    (hs₁ : w.settlements.lookup id = some s₁) : s₁.state = start := by
  rw [← Option.mem_unique h.found hs₁]
  exact h.state

/-- An action that does no more than to move its settlement from one state to another is
applied again exactly when the settlement is back in the first. -/
theorem unchanged_iff_state {input : Input} (mark : Settlement → Settlement)
    (hok : ∀ w w', step p w input = .ok w' ↔ ∃ s,
      PartyActs p w id party claimed statement signature start s ∧
        putSettlement w id (mark s) = w')
    (hmark : ∀ s, (mark s).state ≠ start)
    (hacts : PartyActs p w id party claimed statement signature start s)
    (hs₁ : w₁.settlements.lookup id = some s₁) (hparty : party s₁ = party s) :
    Unchanged w₁ (apply (step p) w₁ input) ↔ s₁.state ≠ start := by
  constructor
  · intro hunchanged hstate
    have hstep := (hok w₁ _).mpr ⟨s₁, PartyActs.again hacts hs₁ hparty hstate, rfl⟩
    refine not_unchanged hstep hs₁ (Finmap.lookup_insert _) ?_ hunchanged
    rw [hstate]
    exact (hmark s₁).symm
  · intro hstate
    refine unchanged_of_refused fun w₂ hstep => ?_
    obtain ⟨s₂, hacts₂, -⟩ := (hok w₁ w₂).mp hstep
    exact hstate (PartyActs.state_eq hacts₂ hs₁)

end PartyReplay

/-- In every run: a settlement payload that was accepted, delivered once more at any later
point, leaves every settlement and reservation as it is, except exactly when it is a payment
declaration or a reversal and the settlement is back in the state it starts from. -/
theorem replay_unchanged_iff (p : NodePlatform) (inputs : List Input)
    (t : Transition Node Input) (ht : t ∈ transitions (step p) emptyNode inputs)
    (hpayload : IsSettlementPayload t.label.event) (now : Timestamp) :
    Unchanged (run (step p) emptyNode inputs)
        (apply (step p) (run (step p) emptyNode inputs) ⟨now, t.label.event⟩) ↔
      ¬ Reopened (run (step p) emptyNode inputs) t.label.event := by
  -- the settlement that the payload met is still there, with the same parties and keys
  have hpersists := relation_of_mem persists_refl persists_trans step_persists ht
  have hstep := step_of_mem ht
  obtain ⟨before, ⟨now₀, event⟩, after⟩ := t
  generalize run (step p) emptyNode inputs = w at hpersists ⊢
  dsimp only at hpersists hstep hpayload ⊢
  cases event with
  | settlementInitiated =>
    simp only [step, mapError_ok, applyInitiate_ok] at hstep
    obtain ⟨-, -, -, rfl⟩ := hstep
    obtain ⟨s₁, hs₁, -⟩ := hpersists _ _ (Finmap.lookup_insert _)
    refine ⟨fun _ h => h, fun _ => unchanged_of_refused fun w' hagain => ?_⟩
    simp only [step, mapError_ok, applyInitiate_ok] at hagain
    rw [hagain.2.2.1] at hs₁
    cases hs₁
  | paymentSubmitted signed =>
    simp only [step, mapError_ok, applyPaymentSubmitted_ok] at hstep
    obtain ⟨s, hacts, rfl⟩ := hstep
    obtain ⟨s₁, hs₁, hterms, -⟩ := hpersists _ _ (Finmap.lookup_insert _)
    have hparty : buyerOf s₁ = buyerOf s := Prod.ext hterms.buyer hterms.buyerPublicKey
    rw [Reopened, hs₁, Option.map_some, Option.some.injEq]
    refine unchanged_iff_state (markSubmitted · signed.payload) (fun w w' => ?_) (fun s => ?_)
      hacts hs₁ hparty
    · simp [step, applyPaymentSubmitted_ok]
    · simp [markSubmitted]
  | paymentReversed signed =>
    simp only [step, mapError_ok, applyPaymentReversed_ok] at hstep
    obtain ⟨s, hacts, rfl⟩ := hstep
    obtain ⟨s₁, hs₁, hterms, -⟩ := hpersists _ _ (Finmap.lookup_insert _)
    have hparty : buyerOf s₁ = buyerOf s := Prod.ext hterms.buyer hterms.buyerPublicKey
    rw [Reopened, hs₁, Option.map_some, Option.some.injEq]
    refine unchanged_iff_state (markReversed · signed.payload) (fun w w' => ?_) (fun s => ?_)
      hacts hs₁ hparty
    · simp [step, applyPaymentReversed_ok]
    · simp [markReversed]
  -- the remaining payloads closed the settlement, which never reopens
  | settlementApproved signed | settlementRejected signed =>
    simp only [step, mapError_ok, applyApproved_ok, applyRejected_ok] at hstep
    obtain ⟨s, hacts, rfl⟩ := hstep
    obtain ⟨s₁, hs₁, -, hclosed⟩ := hpersists _ _ (Finmap.lookup_insert _)
    refine ⟨fun _ h => h, fun _ => unchanged_of_refused fun w' hagain => ?_⟩
    simp only [step, mapError_ok, applyApproved_ok, applyRejected_ok] at hagain
    obtain ⟨s₂, hacts₂, -⟩ := hagain
    have hends := hclosed ⟨by simp [markApproved, markRejected],
      by simp [markApproved, markRejected]⟩
    exact hends.2 (PartyActs.state_eq hacts₂ hs₁)
  | settlementCancelled signed =>
    simp only [step, mapError_ok, applyCancelled_ok] at hstep
    obtain ⟨s, hacts, rfl⟩ := hstep
    obtain ⟨s₁, hs₁, -, hclosed⟩ := hpersists _ _ (Finmap.lookup_insert _)
    refine ⟨fun _ h => h, fun _ => unchanged_of_refused fun w' hagain => ?_⟩
    simp only [step, mapError_ok, applyCancelled_ok] at hagain
    obtain ⟨s₂, hacts₂, -⟩ := hagain
    rw [← Option.mem_unique hacts₂.found hs₁] at hclosed
    have hends := hclosed ⟨by simp [markCancelled], by simp [markCancelled]⟩
    exact hends.1 hacts₂.state
  | _ => exact hpayload.elim

/-- An approval is spent: delivered once more it is refused. -/
theorem replay_unchanged_iff_approval :
    Unchanged (run (step (tradePlatform (.filled 3))) emptyNode (tradeInputs (.filled 3)))
      (apply (step (tradePlatform (.filled 3)))
        (run (step (tradePlatform (.filled 3))) emptyNode (tradeInputs (.filled 3)))
        ⟨5000, approvalInput.event⟩) :=
  (replay_unchanged_iff (tradePlatform (.filled 3)) (tradeInputs (.filled 3)) _
    (last_mem_transitions (by decide +kernel)) trivial 5000).mpr fun h => h

def initiateInput : Input := ⟨1000, .settlementInitiated ⟨tradeInitiate (.filled 3), ⟨[]⟩⟩⟩

def paidInput : Input := ⟨2000, .paymentSubmitted ⟨tradePaid, ⟨[]⟩⟩⟩

def tradeReversal : PaymentReversed := ⟨⟨"settle-1"⟩, peer 2, 3000⟩

def reversalInput : Input := ⟨3000, .paymentReversed ⟨tradeReversal, ⟨[]⟩⟩⟩

def reversalPlatform : NodePlatform :=
  signedPlatform ((.filled 2, .paymentReversed tradeReversal) :: tradeSignatures (.filled 3))

def reversedInputs : List Input :=
  [initiateInput] ++ [paidInput] ++ [reversalInput]

/-- After the reversal, the old declaration marks the settlement paid a second time. -/
theorem declaration_applied_twice :
    ∃ t ∈ transitions (step reversalPlatform) emptyNode reversedInputs,
      t.label = paidInput ∧
      ¬ Unchanged (run (step reversalPlatform) emptyNode reversedInputs)
        (apply (step reversalPlatform) (run (step reversalPlatform) emptyNode reversedInputs)
          ⟨4000, t.label.event⟩) := by
  have hmem : _ ∈ transitions (step reversalPlatform) emptyNode ([initiateInput] ++ [paidInput]) :=
    last_mem_transitions (by decide +kernel)
  have hlater := List.mem_append_left (transitions (step reversalPlatform)
    (run (step reversalPlatform) emptyNode ([initiateInput] ++ [paidInput])) [reversalInput]) hmem
  rw [← transitions_append] at hlater
  refine ⟨_, hlater, rfl, fun hunchanged => ?_⟩
  have hstate := congrArg (fun settlements =>
    (settlements.lookup ⟨"settle-1"⟩).map Settlement.state) hunchanged.1
  revert hstate
  decide +kernel

end OpenFiat.SettlementReplay
