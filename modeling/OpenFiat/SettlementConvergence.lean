import OpenFiat.ObservedRuns
import OpenFiat.SettlementReplay

/-!
# Settlements on two replicas

Nodes have no sequencer: the parties' payloads about one settlement reach two replicas in
different orders. A settlement is a register that answers a payload or ignores it, and what
it ignores once it never applies later. Two replicas therefore end with the same settlements
when they see the payloads that either of them applies to one settlement in the same order.
The payloads of one party keep their order on every replica, so the condition is about
payloads of different parties. Where these overtake each other the replicas part: an
approval that arrives before the payment it approves is lost on that replica.
-/
namespace OpenFiat.SettlementConvergence
open GuardedResult NodePayloads TradingNode SettlementRegistry
open NodeSteps TransactionRuns ObservedRuns SettlementAuthority SettlementReplay

def signer : Event → Option PeerId
  | .settlementInitiated signed => some signed.payload.buyer
  | .paymentSubmitted signed => some signed.payload.buyer
  | .paymentReversed signed => some signed.payload.buyer
  | .settlementApproved signed => some signed.payload.seller
  | .settlementRejected signed => some signed.payload.seller
  | .settlementCancelled signed => some signed.payload.canceller
  | _ => none

variable {p : NodePlatform} {now now₁ now₂ : Timestamp} {w w' w₁ w₂ w₁' : Node} {e : Event}
  {id : SettlementId}

theorem step_lookup_of_ne (hpayload : IsSettlementPayload e) (h : step p w ⟨now, e⟩ = .ok w')
    (hne : signedFor e ≠ some id) : w'.settlements.lookup id = w.settlements.lookup id := by
  cases (step_change h).settlement id with
  | same hsame => exact hsame
  | initiated signed he hid => exact absurd ((congrArg signedFor he).trans (congrArg some hid)) hne
  | moved s effect s' hmove =>
    cases hmove with
    | submitted signed hid | reversed signed hid | approved signed hid | rejected signed hid
    | cancelled signed hid => exact absurd (congrArg some hid) hne
    | released | disputed => exact hpayload.elim
    | resolved _ verdict signature hs hstate hverdict =>
      cases e <;> first | cases hverdict; done | exact hpayload.elim

/-- Whether a payload is accepted, and the record it writes, depend on the stored record alone. -/
theorem step_congr (now₂ : Timestamp) (hid : signedFor e = some id)
    (hview : w₁.settlements.lookup id = w₂.settlements.lookup id)
    (h : step p w₁ ⟨now₁, e⟩ = .ok w₁') :
    ∃ w₂', step p w₂ ⟨now₂, e⟩ = .ok w₂' ∧
      w₁'.settlements.lookup id = w₂'.settlements.lookup id := by
  have hput (w₁ w₂ : Node) (s : Settlement) : (putSettlement w₁ id s).settlements.lookup id =
      (putSettlement w₂ id s).settlements.lookup id := by
    simp [putSettlement]
  cases e with
  | settlementInitiated =>
    cases hid
    simp only [step, mapError_ok, applyInitiate_ok] at h ⊢
    obtain ⟨hkey, hverify, hfresh, rfl⟩ := h
    exact ⟨_, ⟨hkey, hverify, hview ▸ hfresh, rfl⟩, hput ..⟩
  | paymentSubmitted | paymentReversed | settlementApproved | settlementRejected =>
    cases hid
    simp only [step, mapError_ok, applyPaymentSubmitted_ok, applyPaymentReversed_ok,
      applyApproved_ok, applyRejected_ok] at h ⊢
    obtain ⟨s, hacts, rfl⟩ := h
    exact ⟨_, ⟨s, PartyActs.again hacts (hview ▸ hacts.found) rfl hacts.state, rfl⟩, hput ..⟩
  | settlementCancelled =>
    cases hid
    simp only [step, mapError_ok, applyCancelled_ok] at h ⊢
    obtain ⟨s, hacts, rfl⟩ := h
    exact ⟨_, ⟨s, ⟨hview ▸ hacts.found, hacts.verified, hacts.state⟩, rfl⟩, hput ..⟩
  | _ => cases hid

theorem observes_settlement (p : NodePlatform) (id : SettlementId) :
    Observes (step p) (fun w : Node => w.settlements.lookup id) Input.event IsSettlementPayload
      (fun e => signedFor e = some id) := by
  have hframe (w : Node) (input : Input) (hpayload : IsSettlementPayload input.event)
      (hne : signedFor input.event ≠ some id) :
      (apply (step p) w input).settlements.lookup id = w.settlements.lookup id := by
    cases hstep : step p w input with
    | error => rw [apply_error hstep]
    | ok =>
      rw [apply_ok hstep]
      exact step_lookup_of_ne hpayload hstep hne
  refine ⟨hframe, ?_⟩
  rintro w₁ w₂ ⟨now₁, e⟩ ⟨now₂, e₂⟩ hpayload hview rfl
  by_cases hid : signedFor e = some id
  · cases h₁ : step p w₁ ⟨now₁, e⟩ with
    | ok =>
      obtain ⟨w₂', h₂, hsame⟩ := step_congr now₂ hid hview h₁
      rw [apply_ok h₁, apply_ok h₂]
      exact hsame
    | error =>
      cases h₂ : step p w₂ ⟨now₂, e⟩ with
      | ok =>
        obtain ⟨w₁', h₁', -⟩ := step_congr now₁ hid hview.symm h₂
        rw [h₁] at h₁'
        cases h₁'
      | error =>
        rw [apply_error h₁, apply_error h₂]
        exact hview
  · exact (hframe w₁ _ hpayload hid).trans (hview.trans (hframe w₂ ⟨now₂, e⟩ hpayload hid).symm)

def initiates (id : SettlementId) : Event → Bool
  | .settlementInitiated signed => signed.payload.id = id
  | _ => false

/-- The list delivers the payloads that each party signed, in the order it signed them, and
delivers a payload only after an initiate for its settlement, if there is one among them. -/
structure Delivers (signed : PeerId → List Event) (l : List Event) : Prop where
  payloads : ∀ e ∈ l, IsSettlementPayload e
  nodup : l.Nodup
  own : ∀ peer, l.filter (fun e => signer e = some peer) = signed peer
  after : ∀ e ∈ l, ∀ id ∈ signedFor e, (∃ i ∈ l, initiates id i = true) →
    initiates id e = true ∨ ∃ i ∈ l.takeWhile (· ≠ e), initiates id i = true

theorem exists_signer (h : IsSettlementPayload e) : ∃ peer, signer e = some peer := by
  cases e <;> first | exact ⟨_, rfl⟩ | exact h.elim

variable {signed : PeerId → List Event} {l₁ l₂ : List Event}

theorem Delivers.subset (h₁ : Delivers signed l₁) (h₂ : Delivers signed l₂) (he : e ∈ l₁) :
    e ∈ l₂ := by
  obtain ⟨peer, hpeer⟩ := exists_signer (h₁.payloads e he)
  have hmem : e ∈ l₁.filter fun e => signer e = some peer :=
    List.mem_filter.mpr ⟨he, decide_eq_true hpeer⟩
  rw [h₁.own peer, ← h₂.own peer] at hmem
  exact List.mem_of_mem_filter hmem

theorem Delivers.perm (h₁ : Delivers signed l₁) (h₂ : Delivers signed l₂) : l₁.Perm l₂ :=
  (List.perm_ext_iff_of_nodup h₁.nodup h₂.nodup).mpr fun _ => ⟨h₁.subset h₂, h₂.subset h₁⟩

theorem Delivers.before_own (h₁ : Delivers signed l₁) (h₂ : Delivers signed l₂) {a b : Event}
    (hpayload : IsSettlementPayload a) (hsigner : signer a = signer b) (h : Before l₁ a b) :
    Before l₂ a b := by
  obtain ⟨peer, hpeer⟩ := exists_signer hpayload
  have hown := List.Sublist.filter (fun e => decide (signer e = some peer)) h
  simp only [List.filter_cons, hpeer, ← hsigner, decide_true, if_true, List.filter_nil] at hown
  rw [h₁.own peer, ← h₂.own peer] at hown
  exact hown.trans List.filter_sublist

def applied (p : NodePlatform) (w : Node) (inputs : List Input) : List Event :=
  taken (step p) Input.event w inputs

/-- No payload overtakes a payload of the other party about the same settlement, among those
that one of the two replicas applies. -/
def SameTurns (p : NodePlatform) (w₁ w₂ : Node) (inputs₁ inputs₂ : List Input) : Prop :=
  ∀ a ∈ applied p w₁ inputs₁ ++ applied p w₂ inputs₂,
    ∀ b ∈ applied p w₁ inputs₁ ++ applied p w₂ inputs₂,
      signedFor a = signedFor b → signer a ≠ signer b →
        Before (inputs₁.map Input.event) a b → Before (inputs₂.map Input.event) a b

instance (p : NodePlatform) (w₁ w₂ : Node) (inputs₁ inputs₂ : List Input) :
    Decidable (SameTurns p w₁ w₂ inputs₁ inputs₂) :=
  inferInstanceAs (Decidable (∀ a ∈ _, ∀ b ∈ _, _))

theorem mem_events_of_applied {inputs : List Input} (h : e ∈ applied p w inputs) :
    e ∈ inputs.map Input.event := by
  obtain ⟨t, ht, rfl⟩ := List.mem_map.mp h
  exact List.mem_map_of_mem (label_mem_of_mem ht)

/-- Two replicas with equal settlements go through the payloads of the same parties, each in
an order of its own and at its own times. If no applied payload overtakes one of the other
party about the same settlement, the replicas end with equal settlements. -/
theorem settlements_converge (p : NodePlatform) (signed : PeerId → List Event) (w₁ w₂ : Node)
    (inputs₁ inputs₂ : List Input) (hequal : w₁.settlements = w₂.settlements)
    (h₁ : Delivers signed (inputs₁.map Input.event))
    (h₂ : Delivers signed (inputs₂.map Input.event))
    (hturns : SameTurns p w₁ w₂ inputs₁ inputs₂) :
    (run (step p) w₁ inputs₁).settlements = (run (step p) w₂ inputs₂).settlements := by
  refine Finmap.ext_lookup fun id => ?_
  refine (observes_settlement p id).converge (congrArg (·.lookup id) hequal) (h₁.perm h₂)
    h₁.nodup h₁.payloads fun a ha b hb haboutA haboutB hbefore => ?_
  by_cases hsigner : signer a = signer b
  · have hmem : a ∈ inputs₁.map Input.event := by
      rcases List.mem_append.mp ha with ha | ha
      · exact mem_events_of_applied ha
      · exact h₂.subset h₁ (mem_events_of_applied ha)
    exact h₁.before_own h₂ (h₁.payloads a hmem) hsigner hbefore
  · exact hturns a ha b hb (haboutA.trans haboutB.symm) hsigner hbefore

theorem filter_swap {a b : Event} (h : signer a ≠ signer b) (pre post : List Event)
    (peer : PeerId) :
    (pre ++ a :: b :: post).filter (fun e => signer e = some peer) =
      (pre ++ b :: a :: post).filter (fun e => signer e = some peer) := by
  simp only [List.filter_append, List.filter_cons, decide_eq_true_eq]
  by_cases ha : signer a = some peer
  · have hb : signer b ≠ some peer := fun hb => h (ha.trans hb.symm)
    simp [hb]
  · simp [ha]

/-! A second buyer opens a settlement with the same seller. -/

def otherInitiate : SettlementInitiate :=
  { tradeInitiate (.filled 3) with
    id := ⟨"settle-2"⟩
    buyer := peer 4
    buyerPublicKey := .filled 4 }

def otherInput : Input := ⟨1500, .settlementInitiated ⟨otherInitiate, ⟨[]⟩⟩⟩

def marketPlatform : NodePlatform :=
  signedPlatform ((.filled 4, .settlementInitiate otherInitiate) :: tradeSignatures (.filled 3))

def firstReplica : List Input := [initiateInput, paidInput, approvalInput, otherInput]

def secondReplica : List Input := [initiateInput, paidInput, otherInput, approvalInput]

/-- The second replica learns of the other settlement before the approval. -/
theorem settlements_converge_market :
    (run (step marketPlatform) emptyNode firstReplica).settlements =
        (run (step marketPlatform) emptyNode secondReplica).settlements ∧
      ((run (step marketPlatform) emptyNode firstReplica).settlements.lookup
        ⟨"settle-1"⟩).map Settlement.state = some .approved := by
  refine ⟨settlements_converge marketPlatform
    (fun peer => (firstReplica.map Input.event).filter fun e => signer e = some peer)
    emptyNode emptyNode firstReplica secondReplica rfl
    ⟨by simp [firstReplica, IsSettlementPayload, initiateInput, paidInput, approvalInput,
      otherInput], by decide +kernel, fun _ => rfl, by decide +kernel⟩
    ⟨by simp [secondReplica, IsSettlementPayload, initiateInput, paidInput, approvalInput,
      otherInput], by decide +kernel, fun peer => ?_, by decide +kernel⟩ (by decide +kernel),
    by decide +kernel⟩
  exact filter_swap (by decide +kernel) [initiateInput.event, paidInput.event] [] peer

def saleInOrder : List Input := [initiateInput, paidInput, approvalInput]

def saleOvertaken : List Input := [initiateInput, approvalInput, paidInput]

/-- The seller's approval reaches the second replica before the buyer's declaration, which
it answers: there it is lost, and the settlement stays unapproved. -/
theorem approval_overtakes_declaration :
    ∃ signed, Delivers signed (saleInOrder.map Input.event) ∧
      Delivers signed (saleOvertaken.map Input.event) ∧
      ((run (step (tradePlatform (.filled 3))) emptyNode saleInOrder).settlements.lookup
        ⟨"settle-1"⟩).map Settlement.state = some .approved ∧
      ((run (step (tradePlatform (.filled 3))) emptyNode saleOvertaken).settlements.lookup
        ⟨"settle-1"⟩).map Settlement.state = some .paymentSubmitted := by
  refine ⟨fun peer => (saleInOrder.map Input.event).filter fun e => signer e = some peer,
    ⟨by simp [saleInOrder, IsSettlementPayload, initiateInput, paidInput, approvalInput],
      by decide +kernel, fun _ => rfl, by decide +kernel⟩,
    ⟨by simp [saleOvertaken, IsSettlementPayload, initiateInput, paidInput, approvalInput],
      by decide +kernel, fun peer => ?_, by decide +kernel⟩,
    by decide +kernel, by decide +kernel⟩
  exact filter_swap (by decide +kernel) [initiateInput.event] [] peer

end OpenFiat.SettlementConvergence
