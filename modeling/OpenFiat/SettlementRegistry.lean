import OpenFiat.ReservationRegistry

/-!
# The settlement registry

The buyer's initiate payload fixes the two parties and their keys. Every later action is
checked against the stored record: the named party, the signature under that party's stored
key, and the state. The reservation behind a settlement is moved along on a best-effort
basis, so an action takes effect also when the reservation is unknown or in another state.
-/
namespace OpenFiat.SettlementRegistry
open GuardedResult NodePayloads TradingNode ReservationRegistry

section Handlers
variable (p : NodePlatform)

def verifyInitiate (signed : Signed SettlementInitiate) : Except SettlementError Unit :=
  p.verifyAuthor signed.payload.buyerPublicKey signed.payload.buyer
    (.settlementInitiate signed.payload) signed.signature .unauthorized .invalidSignature

def newSettlement (initiate : SettlementInitiate) : Settlement where
  __ := initiate
  state := .awaitingPayment
  paymentReference := none
  escrowReleaseSignature := none
  paymentSubmittedAt := none
  merchantRespondedAt := none
  paymentDiscrepancy := none
  disputedAt := none
  createdAt := initiate.timestamp
  updatedAt := initiate.timestamp

def putSettlement (w : Node) (id : SettlementId) (s : Settlement) : Node :=
  { w with settlements := w.settlements.insert id s }

def applyInitiate (now : Timestamp) (w : Node)
    (signed : Signed SettlementInitiate) : Except SettlementError Node := do
  let initiate := signed.payload
  verifyInitiate p signed
  require (w.settlements.lookup initiate.id = none) .duplicateSettlementId
  let w := attempt w (settlementStarted now w initiate.reservationId)
  return putSettlement w initiate.id (newSettlement initiate)

/-- The checks of an action that belongs to one party: the stored party is the claimed one,
the signature verifies under the party's stored key, and the settlement is in the state that
the action starts from. -/
def authorizeParty (w : Node) (id : SettlementId)
    (party : Settlement → PeerId × PublicKey) (claimed : PeerId) (statement : Statement)
    (signature : Signature) (start : SettlementState) : Except SettlementError Settlement := do
  let s ← load (w.settlements.lookup id) .settlementNotFound
  require ((party s).1 = claimed) .unauthorized
  require (p.verify (party s).2 statement signature = true) .invalidSignature
  require (s.state = start) .invalidStateTransition
  return s

def buyerOf (s : Settlement) : PeerId × PublicKey := (s.buyer, s.buyerPublicKey)

def sellerOf (s : Settlement) : PeerId × PublicKey := (s.seller, s.sellerPublicKey)

def markSubmitted (s : Settlement) (action : PaymentSubmitted) : Settlement :=
  { s with
    state := .paymentSubmitted
    paymentReference := action.paymentReference
    paymentSubmittedAt := some action.timestamp
    updatedAt := action.timestamp }

def applyPaymentSubmitted (w : Node) (signed : Signed PaymentSubmitted) :
    Except SettlementError Node := do
  let action := signed.payload
  let s ← authorizeParty p w action.settlementId buyerOf action.buyer (.paymentSubmitted action)
    signed.signature .awaitingPayment
  return putSettlement w action.settlementId (markSubmitted s action)

def markReversed (s : Settlement) (action : PaymentReversed) : Settlement :=
  { s with
    state := .awaitingPayment
    paymentReference := none
    paymentSubmittedAt := none
    updatedAt := action.timestamp }

def applyPaymentReversed (w : Node) (signed : Signed PaymentReversed) :
    Except SettlementError Node := do
  let action := signed.payload
  let s ← authorizeParty p w action.settlementId buyerOf action.buyer (.paymentReversed action)
    signed.signature .paymentSubmitted
  return putSettlement w action.settlementId (markReversed s action)

def markApproved (s : Settlement) (action : SettlementApproved) : Settlement :=
  { s with
    state := .approved
    merchantRespondedAt := some action.timestamp
    updatedAt := action.timestamp }

def applyApproved (now : Timestamp) (w : Node)
    (signed : Signed SettlementApproved) : Except SettlementError Node := do
  let action := signed.payload
  let s ← authorizeParty p w action.settlementId sellerOf action.seller
    (.settlementApproved action) signed.signature .paymentSubmitted
  let w := attempt w (settlementCompleted now w s.reservationId)
  return putSettlement w action.settlementId (markApproved s action)

def markRejected (s : Settlement) (action : SettlementRejected) : Settlement :=
  { s with
    state := .rejected
    merchantRespondedAt := some action.timestamp
    paymentDiscrepancy := some action.discrepancy
    updatedAt := action.timestamp }

def applyRejected (now : Timestamp) (w : Node)
    (signed : Signed SettlementRejected) : Except SettlementError Node := do
  let action := signed.payload
  let s ← authorizeParty p w action.settlementId sellerOf action.seller
    (.settlementRejected action) signed.signature .paymentSubmitted
  let w := attempt w (settlementAbandoned now w s.reservationId)
  return putSettlement w action.settlementId (markRejected s action)

/-- The key a cancellation is checked under: the buyer's if the canceller is the buyer, else
the seller's. -/
def cancellerKey (s : Settlement) (canceller : PeerId) : Option PublicKey :=
  if canceller = s.buyer then some s.buyerPublicKey
  else if canceller = s.seller then some s.sellerPublicKey
  else none

def markCancelled (s : Settlement) (action : SettlementCancelled) : Settlement :=
  { s with state := .cancelled, updatedAt := action.timestamp }

def applyCancelled (now : Timestamp) (w : Node)
    (signed : Signed SettlementCancelled) : Except SettlementError Node := do
  let action := signed.payload
  let s ← load (w.settlements.lookup action.settlementId) .settlementNotFound
  let key ← load (cancellerKey s action.canceller) .unauthorized
  require (p.verify key (.settlementCancelled action) signed.signature = true) .invalidSignature
  require (s.state = .awaitingPayment) .invalidStateTransition
  let w := attempt w (settlementAbandoned now w s.reservationId)
  return putSettlement w action.settlementId (markCancelled s action)

end Handlers

def markReleased (now : Timestamp) (s : Settlement) (signature : String) : Settlement :=
  { s with
    state := .completed
    escrowReleaseSignature := some signature
    updatedAt := now }

def applyEscrowReleased (now : Timestamp) (w : Node) (id : SettlementId) (signature : String) :
    Except SettlementError Node := do
  let s ← load (w.settlements.lookup id) .settlementNotFound
  require (s.state = .approved) .invalidStateTransition
  return putSettlement w id (markReleased now s signature)

def markDisputed (s : Settlement) (openedAt : Timestamp) : Settlement :=
  { s with state := .disputed, disputedAt := some openedAt, updatedAt := openedAt }

def applyDisputeOpened (w : Node) (id : SettlementId) (openedAt : Timestamp) :
    Except SettlementError Node := do
  let s ← load (w.settlements.lookup id) .settlementNotFound
  require (¬ (s.state = .cancelled ∨ s.state = .disputed)) .invalidStateTransition
  return putSettlement w id (markDisputed s openedAt)

/-- The state a verdict leads to; an earlier release signature is kept. -/
def markResolved (now : Timestamp) (s : Settlement) (signature : String) :
    DisputeVerdict → Settlement
  | .escrowReleased =>
    { s with
      state := .completed
      escrowReleaseSignature := some (s.escrowReleaseSignature.getD signature)
      updatedAt := now }
  | .escrowReturned => { s with state := .cancelled, updatedAt := now }

def resolveReservation (now : Timestamp) (w : Node) (id : ReservationId) :
    DisputeVerdict → Except ReservationError Node
  | .escrowReleased => settlementCompleted now w id
  | .escrowReturned => settlementAbandoned now w id

def applyDisputeResolved (now : Timestamp) (w : Node) (id : SettlementId)
    (verdict : DisputeVerdict) (signature : String) : Except SettlementError Node := do
  let s ← load (w.settlements.lookup id) .settlementNotFound
  require (s.state = .disputed) .invalidStateTransition
  let w := attempt w (resolveReservation now w s.reservationId verdict)
  return putSettlement w id (markResolved now s signature verdict)

variable {p : NodePlatform} {now : Timestamp} {w w' : Node} {id : SettlementId}

theorem applyInitiate_ok {signed : Signed SettlementInitiate} :
    applyInitiate p now w signed = .ok w' ↔
      p.peerIdFromPublicKey signed.payload.buyerPublicKey = some signed.payload.buyer ∧
      p.verify signed.payload.buyerPublicKey (.settlementInitiate signed.payload)
        signed.signature = true ∧
      w.settlements.lookup signed.payload.id = none ∧
      w' = putSettlement (attempt w (settlementStarted now w signed.payload.reservationId))
        signed.payload.id (newSettlement signed.payload) := by
  simp only [applyInitiate, verifyInitiate, bind_ok, SignatureScheme.verifyAuthor_ok, require_ok,
    pure_ok]
  constructor
  · rintro ⟨-, ⟨hkey, hverify⟩, -, hfresh, rfl⟩
    exact ⟨hkey, hverify, hfresh, rfl⟩
  · rintro ⟨hkey, hverify, hfresh, rfl⟩
    exact ⟨(), ⟨hkey, hverify⟩, (), hfresh, rfl⟩

structure PartyActs (p : NodePlatform) (w : Node) (id : SettlementId)
    (party : Settlement → PeerId × PublicKey) (claimed : PeerId) (statement : Statement)
    (signature : Signature) (start : SettlementState) (s : Settlement) : Prop where
  found : w.settlements.lookup id = some s
  named : (party s).1 = claimed
  verified : p.verify (party s).2 statement signature = true
  state : s.state = start

variable {party : Settlement → PeerId × PublicKey} {claimed : PeerId} {statement : Statement}
  {signature : Signature} {start : SettlementState} {s : Settlement}

@[simp] theorem authorizeParty_ok :
    authorizeParty p w id party claimed statement signature start = .ok s ↔
      PartyActs p w id party claimed statement signature start s := by
  simp only [authorizeParty, bind_ok, load_ok, require_ok, pure_ok]
  constructor
  · rintro ⟨_, hs, -, hnamed, -, hverify, -, hstate, rfl⟩
    exact ⟨hs, hnamed, hverify, hstate⟩
  · intro h
    exact ⟨s, h.found, (), h.named, (), h.verified, (), h.state, rfl⟩

theorem applyPaymentSubmitted_ok {signed : Signed PaymentSubmitted} :
    applyPaymentSubmitted p w signed = .ok w' ↔ ∃ s,
      PartyActs p w signed.payload.settlementId buyerOf signed.payload.buyer
        (.paymentSubmitted signed.payload) signed.signature .awaitingPayment s ∧
      putSettlement w signed.payload.settlementId (markSubmitted s signed.payload) = w' := by
  simp only [applyPaymentSubmitted, bind_ok, authorizeParty_ok, pure_ok]

theorem applyPaymentReversed_ok {signed : Signed PaymentReversed} :
    applyPaymentReversed p w signed = .ok w' ↔ ∃ s,
      PartyActs p w signed.payload.settlementId buyerOf signed.payload.buyer
        (.paymentReversed signed.payload) signed.signature .paymentSubmitted s ∧
      putSettlement w signed.payload.settlementId (markReversed s signed.payload) = w' := by
  simp only [applyPaymentReversed, bind_ok, authorizeParty_ok, pure_ok]

theorem applyApproved_ok {signed : Signed SettlementApproved} :
    applyApproved p now w signed = .ok w' ↔ ∃ s,
      PartyActs p w signed.payload.settlementId sellerOf signed.payload.seller
        (.settlementApproved signed.payload) signed.signature .paymentSubmitted s ∧
      putSettlement (attempt w (settlementCompleted now w s.reservationId))
        signed.payload.settlementId (markApproved s signed.payload) = w' := by
  simp only [applyApproved, bind_ok, authorizeParty_ok, pure_ok]

theorem applyRejected_ok {signed : Signed SettlementRejected} :
    applyRejected p now w signed = .ok w' ↔ ∃ s,
      PartyActs p w signed.payload.settlementId sellerOf signed.payload.seller
        (.settlementRejected signed.payload) signed.signature .paymentSubmitted s ∧
      putSettlement (attempt w (settlementAbandoned now w s.reservationId))
        signed.payload.settlementId (markRejected s signed.payload) = w' := by
  simp only [applyRejected, bind_ok, authorizeParty_ok, pure_ok]

structure CancellerActs (p : NodePlatform) (w : Node) (signed : Signed SettlementCancelled)
    (s : Settlement) : Prop where
  found : w.settlements.lookup signed.payload.settlementId = some s
  verified : ∃ key, cancellerKey s signed.payload.canceller = some key ∧
    p.verify key (.settlementCancelled signed.payload) signed.signature = true
  state : s.state = .awaitingPayment

theorem applyCancelled_ok {signed : Signed SettlementCancelled} :
    applyCancelled p now w signed = .ok w' ↔ ∃ s, CancellerActs p w signed s ∧
      putSettlement (attempt w (settlementAbandoned now w s.reservationId))
        signed.payload.settlementId (markCancelled s signed.payload) = w' := by
  simp only [applyCancelled, bind_ok, load_ok, require_ok, pure_ok]
  constructor
  · rintro ⟨s, hs, key, hkey, -, hverify, -, hstate, rfl⟩
    exact ⟨s, ⟨hs, ⟨key, hkey, hverify⟩, hstate⟩, rfl⟩
  · rintro ⟨s, ⟨hs, ⟨key, hkey, hverify⟩, hstate⟩, rfl⟩
    exact ⟨s, hs, key, hkey, (), hverify, (), hstate, rfl⟩

theorem applyEscrowReleased_ok {signature : String} :
    applyEscrowReleased now w id signature = .ok w' ↔ ∃ s, w.settlements.lookup id = some s ∧
      s.state = .approved ∧ putSettlement w id (markReleased now s signature) = w' := by
  simp only [applyEscrowReleased, bind_ok, load_ok, require_ok, pure_ok, exists_const]

theorem applyDisputeOpened_ok {openedAt : Timestamp} :
    applyDisputeOpened w id openedAt = .ok w' ↔ ∃ s, w.settlements.lookup id = some s ∧
      (s.state ≠ .cancelled ∧ s.state ≠ .disputed) ∧
      putSettlement w id (markDisputed s openedAt) = w' := by
  simp only [applyDisputeOpened, bind_ok, load_ok, require_ok, pure_ok, exists_const, not_or,
    ne_eq]

theorem applyDisputeResolved_ok {verdict : DisputeVerdict} {signature : String} :
    applyDisputeResolved now w id verdict signature = .ok w' ↔ ∃ s,
      w.settlements.lookup id = some s ∧ s.state = .disputed ∧
      putSettlement (attempt w (resolveReservation now w s.reservationId verdict)) id
        (markResolved now s signature verdict) = w' := by
  simp only [applyDisputeResolved, bind_ok, load_ok, require_ok, pure_ok, exists_const]

end OpenFiat.SettlementRegistry
