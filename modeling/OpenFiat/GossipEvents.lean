import OpenFiat.NodePayloads
import OpenFiat.WireBytes

/-!
# Gossip events

An event travels in an envelope. Its origin signs one concatenation of the fields, and its id
is the hash of another. On the wire an envelope is written in the postcard format.

The hash function, signature verification and the recovery of a key from a peer id are the
platform's.
-/
namespace OpenFiat.GossipEvents
open ProgramAddress NodePayloads WireBytes

structure GossipPlatform where
  sha256 : List UInt8 → Digest
  /-- Verification of a 64-byte Ed25519 signature. -/
  verifyBytes : PublicKey → List UInt8 → List UInt8 → Bool
  /-- The key that a libp2p peer id carries, if it carries one. -/
  publicKeyFromPeerId : PeerId → Option PublicKey

/-- Network priority classes, highest first. -/
inductive Priority where
  | sessionReservationSettlement
  | tradeEscrow
  | advertisement
  | reputation
  | governance
  | snapshot
  | backgroundSync
deriving DecidableEq, Repr

structure EventEnvelope where
  id : Digest
  /-- Any string: the wire decoder does not apply the naming rule. -/
  eventType : String
  ofsSpec : UInt16
  version : UInt16
  origin : PeerId
  timestamp : UInt64
  ttl : UInt8
  priority : Priority
  signature : Signature
  payload : List UInt8
deriving DecidableEq, Repr

/-- The naming rule for event types: an ASCII capital, then ASCII letters and digits only. -/
def isPascalCase (name : String) : Bool :=
  (name.toList.head?.any fun c => c.isUpper) && name.toList.all fun c => c.isAlphanum

def utf8 (s : String) : List UInt8 := s.toUTF8.data.toList

theorem utf8_injective : Function.Injective utf8 := by
  intro s t h
  exact String.toByteArray_inj.mp (ByteArray.ext (Array.toList_inj.mp h))

/-- What the origin signs: everything but the id, the hop budget and the priority. -/
def signableBytes (eventType : String) (ofsSpec : UInt16) (origin : PeerId) (timestamp : UInt64)
    (payload : List UInt8) : List UInt8 :=
  utf8 eventType ++ bigEndian 2 ofsSpec.toNat ++ origin.bytes ++ bigEndian 8 timestamp.toNat ++
    payload

def signatureBytes (signature : Signature) : Option (List UInt8) :=
  if signature.bytes.length = 64 then some signature.bytes else none

def idBytes (eventType : String) (payload : List UInt8) (timestamp : UInt64) (origin : PeerId)
    (signature : Signature) : List UInt8 :=
  utf8 eventType ++ payload ++ bigEndian 8 timestamp.toNat ++ origin.bytes ++
    (signatureBytes signature).getD []

def compute (P : GossipPlatform) (eventType : String) (payload : List UInt8) (timestamp : UInt64)
    (origin : PeerId) (signature : Signature) : Digest :=
  P.sha256 (idBytes eventType payload timestamp origin signature)

namespace EventEnvelope

def signable (e : EventEnvelope) : List UInt8 :=
  signableBytes e.eventType e.ofsSpec e.origin e.timestamp e.payload

def idInput (e : EventEnvelope) : List UInt8 :=
  idBytes e.eventType e.payload e.timestamp e.origin e.signature

def idMatches (P : GossipPlatform) (e : EventEnvelope) : Prop :=
  compute P e.eventType e.payload e.timestamp e.origin e.signature = e.id

instance (P : GossipPlatform) (e : EventEnvelope) : Decidable (idMatches P e) :=
  inferInstanceAs (Decidable (_ = _))

end EventEnvelope

def verify (P : GossipPlatform) (key : PublicKey) (message : List UInt8) (signature : Signature) :
    Bool :=
  (signatureBytes signature).any (P.verifyBytes key message)

theorem signatureBytes_of_verify {P : GossipPlatform} {key : PublicKey} {message : List UInt8}
    {signature : Signature} (h : verify P key message signature = true) :
    signatureBytes signature = some signature.bytes ∧ signature.bytes.length = 64 := by
  unfold verify signatureBytes at h
  split_ifs at h with hlen
  · exact ⟨if_pos hlen, hlen⟩
  · cases h

def priorityByte : Priority → UInt8
  | .sessionReservationSettlement => 0
  | .tradeEscrow => 1
  | .advertisement => 2
  | .reputation => 3
  | .governance => 4
  | .snapshot => 5
  | .backgroundSync => 6

/-- The postcard form of an envelope. -/
def EventEnvelope.wireBytes (e : EventEnvelope) : List UInt8 :=
  e.id.bytes ++ byteSeq (utf8 e.eventType) ++ varint 3 e.ofsSpec.toNat ++
    varint 3 e.version.toNat ++ byteSeq e.origin.bytes ++ varint 10 e.timestamp.toNat ++ [e.ttl] ++
    [priorityByte e.priority] ++ byteSeq e.signature.bytes ++ byteSeq e.payload

def EventEnvelope.wireSize (e : EventEnvelope) : ℕ := e.wireBytes.length

inductive Channel where
  | marketplace
  | governance
  | reputation
  | notifications
  | oracle
  | riskIntelligence
  | chain
  | infrastructure
deriving DecidableEq, Repr

def channelForOfsSpec (ofsSpec : UInt16) : Channel :=
  if 2000 ≤ ofsSpec.toNat ∧ ofsSpec.toNat ≤ 2999 then .marketplace
  else if ofsSpec.toNat = 4000 then .governance
  else if ofsSpec.toNat = 3000 then .reputation
  else if ofsSpec.toNat = 6000 then .notifications
  else if ofsSpec.toNat = 7000 then .oracle
  else if ofsSpec.toNat = 7100 then .riskIntelligence
  else if ofsSpec.toNat = 4300 then .chain
  else .infrastructure

inductive Subscription where
  | all
  | only (channels : List Channel)
deriving DecidableEq, Repr

def Subscription.accepts (channel : Channel) : Subscription → Bool
  | .all => true
  | .only channels => channels.contains channel

end OpenFiat.GossipEvents
