import OpenFiat.DisputeRegistry
import OpenFiat.TransactionRuns

/-!
# Steps of a trading node

`step` hands an event to the registry it belongs to; an event that a registry refuses
changes nothing. `Change` says once what an accepted event does. Everything a settlement
goes through after its creation is a `Move` of its record with an effect on the reservation
behind it; the reservation registry ignores an effect that does not fit its state.
-/
namespace OpenFiat.NodeSteps
open GuardedResult FiniteTable NodePayloads TradingNode AdvertisementRegistry
open ReservationRegistry SettlementRegistry DisputeRegistry TransactionRuns

inductive NodeError where
  | advertisement (e : AdvertisementError)
  | reservation (e : ReservationError)
  | settlement (e : SettlementError)
  | dispute (e : DisputeError)
deriving DecidableEq, Repr

def step (p : NodePlatform) (w : Node) (input : Input) : Except NodeError Node :=
  match input.event with
  | .advertisementCreated signed => (applyCreate p w signed).mapError .advertisement
  | .advertisementStatusSet signed => (applyStatusSet p w signed).mapError .advertisement
  | .advertisementTermsUpdated signed => (applyTermsUpdate p w signed).mapError .advertisement
  | .advertisementPriceUpdated signed => (applyPricingUpdate p w signed).mapError .advertisement
  | .reservationRequested signed => (applyRequest p input.now w signed).mapError .reservation
  | .reservationCancelled signed => (applyCancel p input.now w signed).mapError .reservation
  | .settlementInitiated signed => (applyInitiate p input.now w signed).mapError .settlement
  | .paymentSubmitted signed => (applyPaymentSubmitted p w signed).mapError .settlement
  | .paymentReversed signed => (applyPaymentReversed p w signed).mapError .settlement
  | .settlementApproved signed => (applyApproved p input.now w signed).mapError .settlement
  | .settlementRejected signed => (applyRejected p input.now w signed).mapError .settlement
  | .settlementCancelled signed => (applyCancelled p input.now w signed).mapError .settlement
  | .disputeOpened signed => (applyOpen p w signed).mapError .dispute
  | .arbitratorJoined signed => (applyArbitratorJoin p w signed).mapError .dispute
  | .voteCommitted signed => (applyVoteCommit p w signed).mapError .dispute
  | .voteRevealed signed => (applyVoteReveal p w signed).mapError .dispute
  | .mutualSettlementAgreed signed => (applyMutualSettlementAgree p w signed).mapError .dispute
  | .expireStale window => .ok (expireStale input.now window w).1
  | .escrowReleased id signature =>
    (applyEscrowReleased input.now w id signature).mapError .settlement
  | .disputeResolved id verdict signature =>
    (applyDisputeResolved input.now w id verdict signature).mapError .settlement
  | .onchainExecution id signature outcome =>
    (applyOnchainExecution input.now w id signature outcome).mapError .dispute

/-- What a settlement asks of its reservation when it moves. -/
inductive Effect where
  | keep
  | complete
  | abandon
deriving DecidableEq, Repr

def Effect.apply (now : Timestamp) (w : Node) (id : ReservationId) : Effect → Node
  | .keep => w
  | .complete => attempt w (settlementCompleted now w id)
  | .abandon => attempt w (settlementAbandoned now w id)

def effectOf : DisputeVerdict → Effect
  | .escrowReleased => .complete
  | .escrowReturned => .abandon

/-- The settlement that a party signed the event for. -/
def signedFor : Event → Option SettlementId
  | .settlementInitiated signed => some signed.payload.id
  | .paymentSubmitted signed => some signed.payload.settlementId
  | .paymentReversed signed => some signed.payload.settlementId
  | .settlementApproved signed => some signed.payload.settlementId
  | .settlementRejected signed => some signed.payload.settlementId
  | .settlementCancelled signed => some signed.payload.settlementId
  | _ => none

/-- The settlement that an event brings a verdict on, and the verdict. -/
def verdictOn (w : Node) : Event → Option (SettlementId × DisputeVerdict)
  | .disputeResolved id verdict _ => some (id, verdict)
  | .onchainExecution id _ (some outcome) =>
    (w.disputes.lookup id).map fun d => (d.settlementId, outcome.escrowVerdict)
  | _ => none

inductive Move (p : NodePlatform) (now : Timestamp) (w : Node) (id : SettlementId)
    (s : Settlement) : Event → Effect → Settlement → Prop where
  | submitted (signed : Signed PaymentSubmitted) (hid : signed.payload.settlementId = id)
      (h : PartyActs p w id buyerOf signed.payload.buyer (.paymentSubmitted signed.payload)
        signed.signature .awaitingPayment s) :
      Move p now w id s (.paymentSubmitted signed) .keep (markSubmitted s signed.payload)
  | reversed (signed : Signed PaymentReversed) (hid : signed.payload.settlementId = id)
      (h : PartyActs p w id buyerOf signed.payload.buyer (.paymentReversed signed.payload)
        signed.signature .paymentSubmitted s) :
      Move p now w id s (.paymentReversed signed) .keep (markReversed s signed.payload)
  | approved (signed : Signed SettlementApproved) (hid : signed.payload.settlementId = id)
      (h : PartyActs p w id sellerOf signed.payload.seller (.settlementApproved signed.payload)
        signed.signature .paymentSubmitted s) :
      Move p now w id s (.settlementApproved signed) .complete (markApproved s signed.payload)
  | rejected (signed : Signed SettlementRejected) (hid : signed.payload.settlementId = id)
      (h : PartyActs p w id sellerOf signed.payload.seller (.settlementRejected signed.payload)
        signed.signature .paymentSubmitted s) :
      Move p now w id s (.settlementRejected signed) .abandon (markRejected s signed.payload)
  | cancelled (signed : Signed SettlementCancelled) (hid : signed.payload.settlementId = id)
      (h : CancellerActs p w signed s) :
      Move p now w id s (.settlementCancelled signed) .abandon (markCancelled s signed.payload)
  | released (signature : String) (hs : w.settlements.lookup id = some s)
      (hstate : s.state = .approved) :
      Move p now w id s (.escrowReleased id signature) .keep (markReleased now s signature)
  | disputed (signed : Signed DisputeOpen) (hid : signed.payload.settlementId = id)
      (hs : w.settlements.lookup id = some s) (hcancelled : s.state ≠ .cancelled)
      (hdisputed : s.state ≠ .disputed) :
      Move p now w id s (.disputeOpened signed) .keep (markDisputed s signed.payload.timestamp)
  | resolved (e : Event) (verdict : DisputeVerdict) (signature : String)
      (hs : w.settlements.lookup id = some s) (hstate : s.state = .disputed)
      (hverdict : verdictOn w e = some (id, verdict)) :
      Move p now w id s e (effectOf verdict) (markResolved now s signature verdict)

def IsEdit : Event → Prop
  | .advertisementStatusSet _ | .advertisementTermsUpdated _ | .advertisementPriceUpdated _ => True
  | _ => False

def IsArbitration : Event → Prop
  | .arbitratorJoined _ | .voteCommitted _ | .voteRevealed _ | .mutualSettlementAgreed _
  | .onchainExecution _ _ _ => True
  | _ => False

inductive Change (p : NodePlatform) (now : Timestamp) (w : Node) : Event → Node → Prop where
  | created (signed : Signed AdvertisementCreate)
      (hfresh : w.advertisements.lookup signed.payload.id = none)
      (hlimits : Limits (newAdvertisement signed.payload)) :
      Change p now w (.advertisementCreated signed)
        (putAdvertisement w signed.payload.id (newAdvertisement signed.payload))
  | edited (e : Event) (id : AdvertisementId) (ad ad' : Advertisement) (he : IsEdit e)
      (had : w.advertisements.lookup id = some ad) (hedit : Edit ad ad') :
      Change p now w e (putAdvertisement w id ad')
  | requested (signed : Signed ReservationRequest) (ad ad' : Advertisement)
      (haccepts : Accepts now w signed.payload ad ad') :
      Change p now w (.reservationRequested signed)
        (putReservation (putAdvertisement w signed.payload.advertisementId ad') signed.payload.id
          (newReservation signed.payload))
  | withdrawn (signed : Signed ReservationCancel) (r : Reservation)
      (hr : w.reservations.lookup signed.payload.id = some r) (hstate : r.state = .escrowLocked) :
      Change p now w (.reservationCancelled signed)
        (putReservation (attempt w (releaseLiquidity now w r.advertisementId r.amount))
          signed.payload.id { r with state := .cancelled, updatedAt := signed.payload.timestamp })
  | initiated (signed : Signed SettlementInitiate)
      (hkey : p.peerIdFromPublicKey signed.payload.buyerPublicKey = some signed.payload.buyer)
      (hverify : p.verify signed.payload.buyerPublicKey (.settlementInitiate signed.payload)
        signed.signature = true)
      (hfresh : w.settlements.lookup signed.payload.id = none) :
      Change p now w (.settlementInitiated signed)
        (putSettlement (attempt w (settlementStarted now w signed.payload.reservationId))
          signed.payload.id (newSettlement signed.payload))
  | moved (e : Event) (id : SettlementId) (s s' : Settlement) (effect : Effect)
      (disputes : Table DisputeId Dispute) (hmove : Move p now w id s e effect s')
      (hdisputes : disputes = w.disputes ∨ (∃ signed, e = .disputeOpened signed) ∨
        IsArbitration e) :
      Change p now w e
        { putSettlement (effect.apply now w s.reservationId) id s' with disputes }
  | arbitrated (e : Event) (disputes : Table DisputeId Dispute) (he : IsArbitration e) :
      Change p now w e { w with disputes }
  | swept (window : ℕ) : Change p now w (.expireStale window) (expireStale now window w).1

variable {p : NodePlatform} {now : Timestamp} {w w' : Node} {e : Event}

section Frames
variable (now w) (id : ReservationId) (start : List ReservationState) (target : ReservationState)

theorem attempt_transition_frame : ∃ reservations,
    attempt w (transition now w id start target) = { w with reservations } := by
  cases hshift : transition now w id start target with
  | error => exact ⟨w.reservations, rfl⟩
  | ok =>
    obtain ⟨r, -, -, rfl⟩ := transition_ok.mp hshift
    exact ⟨_, rfl⟩

theorem effect_frame (effect : Effect) : ∃ reservations,
    effect.apply now w id = { w with reservations } := by
  cases effect with
  | keep => exact ⟨w.reservations, rfl⟩
  | complete | abandon => exact attempt_transition_frame now w id _ _

theorem attempt_transition_advertisements :
    (attempt w (transition now w id start target)).advertisements = w.advertisements := by
  obtain ⟨_, h⟩ := attempt_transition_frame now w id start target
  rw [h]

theorem attempt_transition_settlements :
    (attempt w (transition now w id start target)).settlements = w.settlements := by
  obtain ⟨_, h⟩ := attempt_transition_frame now w id start target
  rw [h]

theorem attempt_transition_disputes :
    (attempt w (transition now w id start target)).disputes = w.disputes := by
  obtain ⟨_, h⟩ := attempt_transition_frame now w id start target
  rw [h]

theorem effect_advertisements (effect : Effect) :
    (effect.apply now w id).advertisements = w.advertisements := by
  obtain ⟨_, h⟩ := effect_frame now w id effect
  rw [h]

theorem effect_settlements (effect : Effect) :
    (effect.apply now w id).settlements = w.settlements := by
  obtain ⟨_, h⟩ := effect_frame now w id effect
  rw [h]

theorem effect_disputes (effect : Effect) :
    (effect.apply now w id).disputes = w.disputes := by
  obtain ⟨_, h⟩ := effect_frame now w id effect
  rw [h]

end Frames

theorem change_of_edits {id : AdvertisementId} (he : IsEdit e) (h : Edits w id w') :
    Change p now w e w' := by
  obtain ⟨ad, ad', had, rfl, hedit⟩ := h
  exact .edited e id ad ad' he had hedit

theorem change_of_disputes (he : IsArbitration e) (h : OnlyDisputes w w') :
    Change p now w e w' := by
  obtain ⟨disputes, rfl⟩ := h
  exact .arbitrated e disputes he

variable {effect : Effect} {id : SettlementId} {s s' : Settlement}

theorem change_of_move (hmove : Move p now w id s e effect s') :
    Change p now w e (putSettlement (effect.apply now w s.reservationId) id s') :=
  .moved e id s s' effect (effect.apply now w s.reservationId).disputes hmove
    (.inl (effect_disputes now w s.reservationId effect))

theorem resolveReservation_effect (w : Node) (id : ReservationId) (verdict : DisputeVerdict) :
    attempt w (resolveReservation now w id verdict) = (effectOf verdict).apply now w id := by
  cases verdict <;> rfl

/-- The chain's execution resolves the settlement when it can. -/
theorem change_of_execution {id : DisputeId} {signature : String} {outcome : Option Resolution}
    (h : applyOnchainExecution now w id signature outcome = .ok w') :
    Change p now w (.onchainExecution id signature outcome) w' := by
  obtain ⟨d, hd, -, rfl⟩ := applyOnchainExecution_iff.mp h
  cases outcome with
  | none => exact change_of_disputes trivial (onlyDisputes_put w _ _)
  | some o =>
    rw [Option.elim_some]
    cases hresolve : applyDisputeResolved now w d.settlementId o.escrowVerdict signature with
    | error => exact .arbitrated _ _ trivial
    | ok =>
      obtain ⟨s, hs, hstate, rfl⟩ := applyDisputeResolved_ok.mp hresolve
      rw [resolveReservation_effect]
      refine .moved _ d.settlementId s _ _ _
        (.resolved _ o.escrowVerdict signature hs hstate ?_) (.inr (.inr trivial))
      rw [verdictOn, hd, Option.map_some]

theorem step_change {input : Input} (h : step p w input = .ok w') :
    Change p input.now w input.event w' := by
  obtain ⟨now, event⟩ := input
  cases event <;> simp only [step, mapError_ok] at h
  case advertisementCreated signed =>
    obtain ⟨-, hfresh, hlimits, rfl⟩ := applyCreate_ok h
    exact .created signed hfresh hlimits
  case advertisementStatusSet => exact change_of_edits trivial (applyStatusSet_ok h)
  case advertisementTermsUpdated => exact change_of_edits trivial (applyTermsUpdate_ok h)
  case advertisementPriceUpdated => exact change_of_edits trivial (applyPricingUpdate_ok h)
  case reservationRequested signed =>
    obtain ⟨-, -, ad, ad', haccepts, rfl⟩ := applyRequest_ok h
    exact .requested signed ad ad' haccepts
  case reservationCancelled signed =>
    obtain ⟨r, hr, -, -, hstate, rfl⟩ := applyCancel_ok.mp h
    exact .withdrawn signed r hr hstate
  case settlementInitiated signed =>
    obtain ⟨hkey, hverify, hfresh, rfl⟩ := applyInitiate_ok.mp h
    exact .initiated signed hkey hverify hfresh
  case paymentSubmitted signed =>
    obtain ⟨s, hacts, rfl⟩ := applyPaymentSubmitted_ok.mp h
    exact change_of_move (.submitted signed rfl hacts)
  case paymentReversed signed =>
    obtain ⟨s, hacts, rfl⟩ := applyPaymentReversed_ok.mp h
    exact change_of_move (.reversed signed rfl hacts)
  case settlementApproved signed =>
    obtain ⟨s, hacts, rfl⟩ := applyApproved_ok.mp h
    exact change_of_move (.approved signed rfl hacts)
  case settlementRejected signed =>
    obtain ⟨s, hacts, rfl⟩ := applyRejected_ok.mp h
    exact change_of_move (.rejected signed rfl hacts)
  case settlementCancelled signed =>
    obtain ⟨s, hacts, rfl⟩ := applyCancelled_ok.mp h
    exact change_of_move (.cancelled signed rfl hacts)
  case disputeOpened signed =>
    obtain ⟨-, -, s, hs, -, hcancelled, hdisputed, rfl⟩ := applyOpen_ok h
    exact .moved _ _ s _ .keep _ (.disputed signed rfl hs hcancelled hdisputed)
      (.inr (.inl ⟨signed, rfl⟩))
  case arbitratorJoined => exact change_of_disputes trivial (applyArbitratorJoin_ok h)
  case voteCommitted => exact change_of_disputes trivial (applyVoteCommit_ok h)
  case voteRevealed => exact change_of_disputes trivial (applyVoteReveal_ok h)
  case mutualSettlementAgreed =>
    obtain ⟨d, -, -, _, _, -, -, rfl⟩ := applyMutualSettlementAgree_iff.mp h
    exact change_of_disputes trivial (onlyDisputes_put w _ _)
  case expireStale window =>
    cases h
    exact .swept window
  case escrowReleased id signature =>
    obtain ⟨s, hs, hstate, rfl⟩ := applyEscrowReleased_ok.mp h
    exact change_of_move (.released signature hs hstate)
  case disputeResolved id verdict signature =>
    obtain ⟨s, hs, hstate, rfl⟩ := applyDisputeResolved_ok.mp h
    rw [resolveReservation_effect]
    exact change_of_move (.resolved _ verdict signature hs hstate rfl)
  case onchainExecution => exact change_of_execution h

theorem releaseLiquidity_settlements {id : AdvertisementId} {amount : Amount}
    (h : releaseLiquidity now w id amount = .ok w') : w'.settlements = w.settlements := by
  obtain ⟨_, _, -, rfl, -⟩ := releaseLiquidity_ok h
  rfl

theorem expireStale_settlements (w : Node) (window : ℕ) :
    (expireStale now window w).1.settlements = w.settlements := by
  refine expireStale_rule (P := fun w' => w'.settlements = w.settlements) ?_ rfl
  rintro w₀ w₁ id r h - - - hrelease
  exact (releaseLiquidity_settlements hrelease).trans h

inductive SettlementChange (p : NodePlatform) (now : Timestamp) (w w' : Node) (id : SettlementId)
    (e : Event) : Prop where
  | same (h : w'.settlements.lookup id = w.settlements.lookup id)
  | initiated (signed : Signed SettlementInitiate) (he : e = .settlementInitiated signed)
      (hid : signed.payload.id = id)
      (hkey : p.peerIdFromPublicKey signed.payload.buyerPublicKey = some signed.payload.buyer)
      (hverify : p.verify signed.payload.buyerPublicKey (.settlementInitiate signed.payload)
        signed.signature = true)
      (hfresh : w.settlements.lookup id = none)
      (hnew : w'.settlements.lookup id = some (newSettlement signed.payload))
  | moved (s : Settlement) (effect : Effect) (s' : Settlement)
      (hmove : Move p now w id s e effect s') (hnew : w'.settlements.lookup id = some s')

theorem Change.settlement (h : Change p now w e w') (id : SettlementId) :
    SettlementChange p now w w' id e := by
  cases h with
  | created | edited | requested | arbitrated => exact .same rfl
  | withdrawn signed r =>
    refine .same ?_
    cases hrelease : releaseLiquidity now w r.advertisementId r.amount with
    | error => rfl
    | ok => exact congrArg (·.lookup id) (releaseLiquidity_settlements hrelease)
  | initiated signed hkey hverify hfresh =>
    obtain ⟨_, hframe⟩ := attempt_transition_frame now w
      signed.payload.reservationId [.escrowLocked] .settling
    rw [settlementStarted, hframe]
    by_cases hid : id = signed.payload.id
    · subst hid
      exact .initiated signed rfl rfl hkey hverify hfresh (Finmap.lookup_insert _)
    · exact .same (Finmap.lookup_insert_of_ne _ hid)
  | moved _ id₀ s s' effect disputes hmove =>
    obtain ⟨_, hframe⟩ := effect_frame now w s.reservationId effect
    rw [hframe]
    by_cases hid : id = id₀
    · subst hid
      exact .moved s effect s' hmove (Finmap.lookup_insert _)
    · exact .same (Finmap.lookup_insert_of_ne _ hid)
  | swept window => exact .same (congrArg (·.lookup id) (expireStale_settlements w window))

theorem Move.found (h : Move p now w id s e effect s') : w.settlements.lookup id = some s := by
  cases h with
  | submitted signed hid hacts | reversed signed hid hacts | approved signed hid hacts
  | rejected signed hid hacts => exact hacts.found
  | cancelled signed hid hacts => exact hid ▸ hacts.found
  | released signature hs | disputed signed hid hs | resolved _ verdict signature hs => exact hs

/-- The terms of a settlement, fixed when it is initiated. -/
structure SameTerms (s s' : Settlement) : Prop where
  reservationId : s'.reservationId = s.reservationId
  buyer : s'.buyer = s.buyer
  buyerPublicKey : s'.buyerPublicKey = s.buyerPublicKey
  seller : s'.seller = s.seller
  sellerPublicKey : s'.sellerPublicKey = s.sellerPublicKey
  amount : s'.amount = s.amount

theorem SameTerms.refl (s : Settlement) : SameTerms s s := ⟨rfl, rfl, rfl, rfl, rfl, rfl⟩

theorem SameTerms.trans {s₁ s₂ s₃ : Settlement} (h : SameTerms s₁ s₂) (h' : SameTerms s₂ s₃) :
    SameTerms s₁ s₃ where
  reservationId := h'.reservationId.trans h.reservationId
  buyer := h'.buyer.trans h.buyer
  buyerPublicKey := h'.buyerPublicKey.trans h.buyerPublicKey
  seller := h'.seller.trans h.seller
  sellerPublicKey := h'.sellerPublicKey.trans h.sellerPublicKey
  amount := h'.amount.trans h.amount

theorem Move.sameTerms (h : Move p now w id s e effect s') : SameTerms s s' := by
  cases h with
  | resolved _ verdict => cases verdict <;> exact ⟨rfl, rfl, rfl, rfl, rfl, rfl⟩
  | _ => exact ⟨rfl, rfl, rfl, rfl, rfl, rfl⟩

def nextStates : SettlementState → List SettlementState
  | .awaitingPayment => [.paymentSubmitted, .cancelled, .disputed]
  | .paymentSubmitted => [.awaitingPayment, .approved, .rejected, .disputed]
  | .approved => [.completed, .disputed]
  | .completed => [.disputed]
  | .rejected => [.disputed]
  | .cancelled => []
  | .disputed => [.completed, .cancelled]

theorem Move.next (h : Move p now w id s e effect s') : s'.state ∈ nextStates s.state := by
  have hfrom {a b : SettlementState} (ha : s.state = a) (hb : b ∈ nextStates a) :
      b ∈ nextStates s.state := ha ▸ hb
  cases h with
  | submitted _ _ h => exact hfrom (b := .paymentSubmitted) h.state (by decide)
  | reversed _ _ h => exact hfrom (b := .awaitingPayment) h.state (by decide)
  | approved _ _ h => exact hfrom (b := .approved) h.state (by decide)
  | rejected _ _ h => exact hfrom (b := .rejected) h.state (by decide)
  | cancelled _ _ h => exact hfrom (b := .cancelled) h.state (by decide)
  | released _ _ hstate => exact hfrom (b := .completed) hstate (by decide)
  | disputed _ _ _ hcancelled hdisputed =>
    change SettlementState.disputed ∈ _
    cases hstate : s.state with
    | cancelled => exact absurd hstate hcancelled
    | disputed => exact absurd hstate hdisputed
    | _ => decide
  | resolved _ verdict _ _ hstate =>
    cases verdict with
    | escrowReleased => exact hfrom (b := .completed) hstate (by decide)
    | escrowReturned => exact hfrom (b := .cancelled) hstate (by decide)

theorem Change.move_of_ne (h : Change p now w e w') (hs : w.settlements.lookup id = some s)
    (hs' : w'.settlements.lookup id = some s') (hne : s.state ≠ s'.state) :
    ∃ effect, Move p now w id s e effect s' := by
  cases h.settlement id with
  | same hsame =>
    have heq := (hs.symm.trans hsame.symm).trans hs'
    exact absurd (congrArg Settlement.state (Option.some.inj heq)) hne
  | initiated signed he hid hkey hverify hfresh =>
    rw [hfresh] at hs
    cases hs
  | moved s₀ effect s₁ hmove hnew =>
    obtain rfl : s₀ = s := Option.mem_unique hmove.found hs
    obtain rfl : s₁ = s' := Option.mem_unique hnew hs'
    exact ⟨effect, hmove⟩

section Entries
variable {id : SettlementId} {s s' : Settlement} {effect : Effect}

/-! Each state is entered by one kind of event, except that a verdict also leads to the
completed and the cancelled state. -/

variable (h : Move p now w id s e effect s')
include h

theorem Move.into_paymentSubmitted
    (hstate : s'.state = .paymentSubmitted) : ∃ signed, e = .paymentSubmitted signed ∧
      signed.payload.settlementId = id ∧ PartyActs p w id buyerOf signed.payload.buyer
        (.paymentSubmitted signed.payload) signed.signature .awaitingPayment s := by
  cases h with
  | submitted signed hid hacts => exact ⟨signed, rfl, hid, hacts⟩
  | resolved _ verdict => cases verdict <;> cases hstate
  | _ => cases hstate

theorem Move.into_awaitingPayment
    (hstate : s'.state = .awaitingPayment) : ∃ signed, e = .paymentReversed signed ∧
      signed.payload.settlementId = id ∧ PartyActs p w id buyerOf signed.payload.buyer
        (.paymentReversed signed.payload) signed.signature .paymentSubmitted s := by
  cases h with
  | reversed signed hid hacts => exact ⟨signed, rfl, hid, hacts⟩
  | resolved _ verdict => cases verdict <;> cases hstate
  | _ => cases hstate

theorem Move.into_cancelled (hstate : s'.state = .cancelled) :
    (∃ signed, e = .settlementCancelled signed ∧ signed.payload.settlementId = id) ∨
      verdictOn w e = some (id, .escrowReturned) := by
  cases h with
  | cancelled signed hid => exact .inl ⟨signed, rfl, hid⟩
  | resolved _ verdict signature hs _ hverdict =>
    cases verdict with
    | escrowReleased => cases hstate
    | escrowReturned => exact .inr hverdict
  | _ => cases hstate

end Entries

/-- The platform on which exactly the listed statements have been signed; a peer id is the
bytes of its key. -/
def signedPlatform (signatures : List (PublicKey × Statement)) : NodePlatform where
  verify key statement _ := decide ((key, statement) ∈ signatures)
  peerIdFromPublicKey key := some ⟨key.bytes⟩
  base58 bytes := String.ofList (bytes.map fun byte => Char.ofNat byte.toNat)
  sha256 _ := .filled 0
  double :=
    { ofInt := fun n => ⟨UInt64.ofNat n.toNat⟩
      add := fun a _ => a
      mul := fun a _ => a
      div := fun a _ => a
      powi := fun a _ => a
      isFinite := fun _ => true
      lt := fun a b => decide (a.bits < b.bits)
      le := fun a b => decide (a.bits ≤ b.bits)
      roundTiesEven := fun a => a
      toU64 := fun a => a.bits.toFin }

end OpenFiat.NodeSteps
