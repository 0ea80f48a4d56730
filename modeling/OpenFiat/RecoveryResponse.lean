import OpenFiat.GossipNode

/-!
# What a recovering peer is served

The response to a recovery request holds the stored events of the subscription, oldest first,
up to a budget below the size limit of the transport. The filling stops at the first event
that does not fit, so the queue of `BudgetedPrefix` may be blocked.
-/
namespace OpenFiat.RecoveryResponse
open FiniteTable BudgetedPrefix ProgramAddress WireBytes GossipEvents GossipNode

/-- The transport refuses envelopes above this size. -/
def maxEnvelopeBytes : ℕ := 2 ^ 20

/-- An unauthenticated, uncompressed transport envelope in the postcard format. -/
def transportBytes (ofsSpec : UInt16) (messageType : String) (sequence : UInt64) (now : UInt64)
    (payload : List UInt8) : List UInt8 :=
  varint 3 1 ++ varint 3 ofsSpec.toNat ++ byteSeq (utf8 messageType) ++
    varint 10 sequence.toNat ++ varint 10 now.toNat ++ varint 5 (payload.length % 2 ^ 32) ++
    boolByte false ++ boolByte false ++ byteSeq payload ++ [0]

def gossipOfsSpec : UInt16 := 1200

def pushBytes (now : UInt64) (e : EventEnvelope) : List UInt8 :=
  transportBytes gossipOfsSpec "GossipPush" 1 now e.wireBytes

def responseBytes (now : UInt64) (events : List EventEnvelope) : List UInt8 :=
  transportBytes gossipOfsSpec "GossipRecoveryResponse" 1 now (seq EventEnvelope.wireBytes events)

theorem length_byteSeq_le (bytes : List UInt8) : (byteSeq bytes).length ≤ 10 + bytes.length := by
  rw [byteSeq, List.length_append]
  exact Nat.add_le_add_right (length_varint_le 10 _) _

theorem length_transportBytes_le (ofsSpec : UInt16) (messageType : String)
    (sequence now : UInt64) (payload : List UInt8) :
    (transportBytes ofsSpec messageType sequence now payload).length ≤
      54 + (utf8 messageType).length + payload.length := by
  have hversion := length_varint_le 3 1
  have hspec := length_varint_le 3 ofsSpec.toNat
  have htype := length_byteSeq_le (utf8 messageType)
  have hsequence := length_varint_le 10 sequence.toNat
  have hnow := length_varint_le 10 now.toNat
  have hlength := length_varint_le 5 (payload.length % 2 ^ 32)
  have hpayload := length_byteSeq_le payload
  simp only [transportBytes, List.length_append, boolByte, List.length_singleton]
  omega

theorem length_seq_le (events : List EventEnvelope) :
    (seq EventEnvelope.wireBytes events).length ≤
      10 + total EventEnvelope.wireSize events := by
  rw [seq, List.length_append, List.length_flatMap]
  exact Nat.add_le_add_right (length_varint_le 10 _) _

theorem payload_length_le_wireSize (e : EventEnvelope) : e.payload.length ≤ e.wireSize := by
  simp only [EventEnvelope.wireSize, EventEnvelope.wireBytes, byteSeq, List.length_append]
  omega

theorem wireSize_le (e : EventEnvelope) :
    e.wireSize ≤ 90 + (utf8 e.eventType).length + e.origin.bytes.length +
      e.signature.bytes.length + e.payload.length := by
  have htype := length_byteSeq_le (utf8 e.eventType)
  have hspec := length_varint_le 3 e.ofsSpec.toNat
  have hversion := length_varint_le 3 e.version.toNat
  have horigin := length_byteSeq_le e.origin.bytes
  have htime := length_varint_le 10 e.timestamp.toNat
  have hsignature := length_byteSeq_le e.signature.bytes
  have hpayload := length_byteSeq_le e.payload
  simp only [EventEnvelope.wireSize, EventEnvelope.wireBytes, List.length_append, e.id.length_eq,
    List.length_singleton]
  omega

section Queue
variable {store : EventStore} {subscription : Subscription} {e : EventEnvelope}

def Matching (store : EventStore) (subscription : Subscription) (e : EventEnvelope) : Prop :=
  (∃ id, store.lookup id = some e) ∧
    subscription.accepts (channelForOfsSpec e.ofsSpec) = true

theorem mem_all : e ∈ EventStore.all store ↔ ∃ id, store.lookup id = some e := by
  simp only [EventStore.all, List.mem_filterMap, Table.mem_ascending, Finmap.mem_keys]
  constructor
  · rintro ⟨id, -, hid⟩
    exact ⟨id, hid⟩
  · rintro ⟨id, hid⟩
    exact ⟨id, Finmap.mem_of_lookup_eq_some hid, hid⟩

theorem mem_recoveryQueue : e ∈ recoveryQueue store subscription ↔
    Matching store subscription e := by
  unfold recoveryQueue EventStore.allForSubscription Matching
  rw [List.mem_insertionSort, List.mem_filter, mem_all]

theorem notLater_of_mem_ahead {e' : EventEnvelope} (he : e ∈ recoveryQueue store subscription)
    (h : e' ∈ ahead (recoveryQueue store subscription) e) : notLater e' e := by
  have hsorted : (recoveryQueue store subscription).Pairwise notLater :=
    List.pairwise_insertionSort _ _
  rw [← List.takeWhile_append_dropWhile (p := (· ≠ e)) (l := recoveryQueue store subscription)]
    at he hsorted
  have hrest : e ∈ (recoveryQueue store subscription).dropWhile (· ≠ e) := by
    refine (List.mem_append.mp he).resolve_left fun hmem => ?_
    simpa using List.mem_takeWhile_imp hmem
  exact (List.pairwise_append.mp hsorted).2.2 e' h e hrest

end Queue

/-- A first request on a connection is answered with matching events, in a message that the
transport takes. The answer makes progress and leaves nothing out without need exactly when the
queue is not blocked. -/
theorem recovery_progress_iff {π : Type} [DecidableEq π] (g : GossipService π) (peer : π)
    (hpeer : peer ∉ g.recoveryServed) (subscription : Subscription) (now : UInt64) :
    (∀ e ∈ (answerRecovery g peer subscription).1, Matching g.store subscription e) ∧
    (responseBytes now (answerRecovery g peer subscription).1).length ≤ maxEnvelopeBytes ∧
    (∀ e e', Matching g.store subscription e →
      e' ∈ ahead (recoveryQueue g.store subscription) e → notLater e' e) ∧
    ((((∃ e, Matching g.store subscription e ∧ e.wireSize ≤ recoveryResponseBudgetBytes) →
        (answerRecovery g peer subscription).1 ≠ []) ∧
      ∀ e, Matching g.store subscription e → e ∉ (answerRecovery g peer subscription).1 →
        recoveryResponseBudgetBytes < e.wireSize ∨
          recoveryResponseBudgetBytes < total EventEnvelope.wireSize
            (fittingAhead EventEnvelope.wireSize recoveryResponseBudgetBytes
              (recoveryQueue g.store subscription) e) + e.wireSize) ↔
      ¬ Blocked EventEnvelope.wireSize recoveryResponseBudgetBytes
        (recoveryQueue g.store subscription)) := by
  rw [answerRecovery, if_neg hpeer]
  dsimp only [recoverableFor, fillBudget]
  simp only [← mem_recoveryQueue]
  refine ⟨fun e he => takeWithin_prefix.subset he, ?_, fun e e' => notLater_of_mem_ahead, ?_⟩
  · have hheader := length_transportBytes_le gossipOfsSpec "GossipRecoveryResponse" 1 now
      (seq EventEnvelope.wireBytes (takeWithin EventEnvelope.wireSize recoveryResponseBudgetBytes
        (recoveryQueue g.store subscription)))
    have hevents := length_seq_le (takeWithin EventEnvelope.wireSize recoveryResponseBudgetBytes
      (recoveryQueue g.store subscription))
    have hbudget : total EventEnvelope.wireSize (takeWithin EventEnvelope.wireSize
        recoveryResponseBudgetBytes (recoveryQueue g.store subscription)) ≤
          recoveryResponseBudgetBytes :=
      total_takeWithin_le
    have htype : (utf8 "GossipRecoveryResponse").length = 22 := by decide
    unfold responseBytes maxEnvelopeBytes
    unfold recoveryResponseBudgetBytes at hbudget hevents hheader ⊢
    omega
  · rw [← rule_iff_not_blocked]
    exact ⟨And.right, fun hrule => ⟨takeWithin_ne_nil hrule, hrule⟩⟩

def headDigest (input : List UInt8) : Digest := .filled (input.headD 0)

def openPlatform : GossipPlatform where
  sha256 := headDigest
  verifyBytes _ _ _ := true
  publicKeyFromPeerId _ := some (.filled 7)

def peerEvent (eventType : String) (timestamp : UInt64) (payload : List UInt8) : EventEnvelope where
  id := headDigest (utf8 eventType)
  eventType := eventType
  ofsSpec := 2100
  version := 1
  origin := ⟨List.replicate 38 0⟩
  timestamp := timestamp
  ttl := 8
  priority := .advertisement
  signature := ⟨List.replicate 64 0⟩
  payload := payload

/-- An event that the transport takes, but that is larger than the budget. -/
def bulkyEvent : EventEnvelope := peerEvent "Bulk" 0 (List.replicate 800000 0)

def plainEvent : EventEnvelope := peerEvent "Plain" 1 []

def loggingNode (store : EventStore) : GossipService ℕ := .new 1 ⟨[]⟩ store

def plainLog : EventStore := (∅ : EventStore).insert plainEvent.id plainEvent

/-- A small event on its own is served. -/
theorem recovery_progress_iff_plain :
    (answerRecovery (loggingNode plainLog) 0 .all).1 ≠ [] := by
  have hqueue : recoveryQueue plainLog .all = [plainEvent] := rfl
  have hfree : ¬ Blocked EventEnvelope.wireSize recoveryResponseBudgetBytes
      (recoveryQueue plainLog .all) := by
    rintro ⟨a, ha, ⟨b, hb, -⟩, -⟩
    rw [hqueue] at ha hb
    rw [List.mem_singleton.mp ha] at hb
    simp [ahead] at hb
  refine ((recovery_progress_iff (loggingNode plainLog) 0 List.not_mem_nil .all 0).2.2.2.mpr
    hfree).1 ⟨plainEvent, mem_recoveryQueue.mp ?_, by decide +kernel⟩
  exact List.mem_singleton_self _

def bulkyLog : EventStore :=
  ((∅ : EventStore).insert bulkyEvent.id bulkyEvent).insert plainEvent.id plainEvent

/-- Both events are valid and fit into a transport envelope, and the second fits into the
response. Nothing is served. -/
theorem bulky_event_hides_plain :
    validate openPlatform 1 (loggingNode ∅) bulkyEvent = .ok () ∧
      validate openPlatform 1 (loggingNode ∅) plainEvent = .ok () ∧
      (pushBytes 1 bulkyEvent).length ≤ maxEnvelopeBytes ∧
      (pushBytes 1 plainEvent).length ≤ maxEnvelopeBytes ∧
      Matching bulkyLog .all plainEvent ∧
      plainEvent.wireSize ≤ recoveryResponseBudgetBytes ∧
      (answerRecovery (loggingNode bulkyLog) 0 .all).1 = [] := by
  have hqueue : recoveryQueue bulkyLog .all = [bulkyEvent, plainEvent] := rfl
  have hlength : bulkyEvent.payload.length = 800000 := List.length_replicate
  have hlarge := payload_length_le_wireSize bulkyEvent
  have hsmall := wireSize_le bulkyEvent
  have hrest : (utf8 bulkyEvent.eventType).length + bulkyEvent.origin.bytes.length +
      bulkyEvent.signature.bytes.length = 106 := by
    decide +kernel
  have hpush := length_transportBytes_le gossipOfsSpec "GossipPush" 1 1 bulkyEvent.wireBytes
  have htype : (utf8 "GossipPush").length = 10 := by decide
  refine ⟨rfl, rfl, ?_, by decide +kernel, ?_, by decide +kernel, ?_⟩
  · unfold EventEnvelope.wireSize at hsmall
    unfold pushBytes maxEnvelopeBytes
    omega
  · rw [← mem_recoveryQueue]
    exact List.mem_cons_of_mem _ (List.mem_singleton_self _)
  · have hover : ¬ bulkyEvent.wireSize ≤ recoveryResponseBudgetBytes := by
      unfold recoveryResponseBudgetBytes
      omega
    rw [answerRecovery, if_neg (show 0 ∉ (loggingNode bulkyLog).recoveryServed from
      List.not_mem_nil)]
    dsimp only [recoverableFor, fillBudget]
    rw [show (loggingNode bulkyLog).store = bulkyLog from rfl, hqueue, takeWithin, if_neg hover]

end OpenFiat.RecoveryResponse
