import OpenFiat.GossipEvents
import OpenFiat.ColumnStores
import OpenFiat.TransactionRuns
import Mathlib.Data.Prod.Lex

/-!
# The snapshot index

A producer announces a snapshot of its state with signed metadata. A node that has the
announcement on file may import the bytes: it checks who made them, against its trust anchors
and what it has read about stakes, that they are newer than its own checkpoint, and that they
hash to the announced state root; then it writes the entries into its store and records the
checkpoint. The announcements and the checkpoint lie in column families of the same store, which
a snapshot may not write.

The wire format of stored records and of snapshots, the hash function and the unpacking of
archives are the platform's.
-/
namespace OpenFiat.SnapshotIndex
open GuardedResult FiniteTable ProgramAddress NodePayloads WireBytes GossipEvents ColumnStores

abbrev Bytes := List UInt8

abbrev Store := ColumnStore String Bytes Bytes

structure SnapshotId where
  id : String
deriving DecidableEq, Repr

inductive CompressionMethod where
  | none
  | zstd
  | gzip
deriving DecidableEq, Repr

structure SnapshotMetadata where
  id : SnapshotId
  snapshotVersion : ℕ
  protocolVersion : ℕ
  slot : UInt64
  createdAt : Timestamp
  /-- The digest of the uncompressed state. -/
  stateRoot : Digest
  /-- The compressed size. -/
  sizeBytes : ℕ
  compression : CompressionMethod
  locations : List String
  producer : PeerId
  producerPublicKey : PublicKey
deriving DecidableEq

structure StateSnapshot where
  columnFamilies : List (String × List (Bytes × Bytes))
deriving DecidableEq

def StateSnapshot.entries (snapshot : StateSnapshot) : List (String × Bytes × Bytes) :=
  snapshot.columnFamilies.flatMap fun family => family.2.map fun entry => (family.1, entry)

inductive InfrastructureService where
  | bootstrapNode
  | snapshotProvider
  | publicApiNode
deriving DecidableEq, Repr

inductive MarketplaceService where
  | merchantGateway
  | analyticsProvider
deriving DecidableEq, Repr

inductive NotificationChannel where
  | email
  | telegram
  | sms
  | push
  | webhook
deriving DecidableEq, Repr

inductive MarketDataService where
  | priceOracle
  | fxOracle
deriving DecidableEq, Repr

inductive SecurityService where
  | riskIntelligenceProvider
  | walletFlaggingProvider
deriving DecidableEq, Repr

inductive ServiceType where
  | infrastructure (service : InfrastructureService)
  | marketplace (service : MarketplaceService)
  | notifications (channel : NotificationChannel)
  | marketData (service : MarketDataService)
  | security (service : SecurityService)
deriving DecidableEq, Repr

/-- What the snapshot index reads of a registered service. -/
structure ServiceRecord where
  provider : PeerId
  serviceType : ServiceType
deriving DecidableEq, Repr

inductive SnapshotError where
  | invalidSignature
  | unauthorized
  | untrustedFirstSnapshot
  | insufficientProviderStake
  | providerStakeUnverified
  | malformedRecord
  | duplicateSnapshotId
  | unsupportedCompression
  | unsupportedProtocolVersion
  | sizeMismatch
  | stateRootMismatch
  | unknownSnapshot
  | staleSnapshot
  | reservedColumnFamily
  | unverifiableEntry
  | stateUnreadable
  | stateUnwritable
  | snapshotTooLarge
deriving DecidableEq, Repr

structure SnapshotPlatform extends SignatureScheme SnapshotMetadata where
  sha256 : Bytes → Digest
  /-- The member `state` of a compressed archive. -/
  ungzipTar : Bytes → Option Bytes
  metadataToBytes : SnapshotMetadata → Bytes
  metadataFromBytes : Bytes → Option SnapshotMetadata
  snapshotFromBytes : Bytes → Option StateSnapshot
  serviceFromBytes : Bytes → Option ServiceRecord
  /-- The producers from which the node takes its first snapshot. -/
  anchors : List PeerId
  /-- The node's own check of an entry of a snapshot. -/
  verifyEntry : String → Bytes → Bytes → Bool

def supportedProtocolVersion : ℕ := 2

def maxSnapshotBytes : ℕ := 512 * 1024 * 1024

/-- Ten thousand whole tokens of six decimals. -/
def minimumProviderStake : ℕ := 10000 * 1000000

def stakeObservationTtl : ℕ := 10 * 60 * 1000

inductive StakeStanding where
  | qualified
  | insufficient (held required : ℕ)
  | unread
  | unenforceable
deriving DecidableEq, Repr

structure Observation where
  amount : ℕ
  seenAt : Timestamp
deriving DecidableEq, Repr

/-- What the node has read from the chain. The requirement never falls below the node's own. -/
structure ProviderStakes where
  enforced : Bool
  required : ℕ
  seen : Table PeerId Observation
  minimum_le : minimumProviderStake ≤ required

namespace ProviderStakes

def enforcing : ProviderStakes := ⟨true, minimumProviderStake, ∅, le_rfl⟩

def observeRequirement (s : ProviderStakes) (onchainMinimum : ℕ) : ProviderStakes :=
  ⟨s.enforced, max onchainMinimum minimumProviderStake, s.seen, le_max_right _ _⟩

def observe (s : ProviderStakes) (provider : PeerId) (amount : ℕ) (seenAt : Timestamp) :
    ProviderStakes :=
  { s with seen := s.seen.insert provider ⟨amount, seenAt⟩ }

def forget (s : ProviderStakes) (provider : PeerId) : ProviderStakes :=
  { s with seen := s.seen.erase provider }

/-- A reading older than the observation time does not count. -/
def standing (s : ProviderStakes) (provider : PeerId) (now : Timestamp) : StakeStanding :=
  if s.enforced then
    match s.seen.lookup provider with
    | none => .unread
    | some observation =>
      if stakeObservationTtl < now - observation.seenAt then .unread
      else if s.required ≤ observation.amount then .qualified
      else .insufficient observation.amount s.required
  else .unenforceable

end ProviderStakes

structure SnapshotNode where
  store : Store
  stakes : ProviderStakes

def snapshotsColumnFamily : String := "snapshot_metadata"

def checkpointColumnFamily : String := "snapshot_checkpoint"

/-- The bytes of `local`. -/
def checkpointKey : Bytes := [108, 111, 99, 97, 108]

def servicesColumnFamily : String := "registry_services"

/-- The families that a snapshot may never write. -/
def reservedColumnFamilies : List String := [snapshotsColumnFamily, checkpointColumnFamily]

def keyOrder : Bytes → List ℕ := List.map UInt8.toNat

theorem keyOrder_injective : Function.Injective keyOrder :=
  List.map_injective_iff.mpr fun _ _ => UInt8.toNat_inj.mp

section Handlers
variable (P : SnapshotPlatform)

def get (n : SnapshotNode) (id : SnapshotId) : Option SnapshotMetadata :=
  (n.store.read snapshotsColumnFamily (utf8 id.id)).bind P.metadataFromBytes

def all (n : SnapshotNode) : List SnapshotMetadata :=
  (n.store.entries keyOrder keyOrder_injective snapshotsColumnFamily).filterMap
    fun entry => P.metadataFromBytes entry.2

def services (n : SnapshotNode) : List ServiceRecord :=
  (n.store.entries keyOrder keyOrder_injective servicesColumnFamily).filterMap
    fun entry => P.serviceFromBytes entry.2

def isRegisteredProvider (n : SnapshotNode) (producer : PeerId) : Bool :=
  (services P n).any fun service =>
    service.provider = producer && service.serviceType = .infrastructure .snapshotProvider

def checkpointSlot (n : SnapshotNode) : Option UInt64 :=
  (n.store.read checkpointColumnFamily checkpointKey).bind fun bytes =>
    if bytes.length = 8 then some (UInt64.ofNat (ofLittleEndian bytes)) else none

def verifyAnnounce (signed : Signed SnapshotMetadata) : Except SnapshotError Unit :=
  P.verifyAuthor signed.payload.producerPublicKey signed.payload.producer signed.payload
    signed.signature .unauthorized .invalidSignature

/-- Only a stake that is known to be too small stands against an announcement. -/
def checkShortfall : StakeStanding → Except SnapshotError Unit
  | .qualified => .ok ()
  | .insufficient _ _ => .error .insufficientProviderStake
  | .unread => .ok ()
  | .unenforceable => .ok ()

def applyAnnounce (now : Timestamp) (n : SnapshotNode)
    (signed : Signed SnapshotMetadata) : Except SnapshotError SnapshotNode := do
  let metadata := signed.payload
  verifyAnnounce P signed
  require (isRegisteredProvider P n metadata.producer = true) .unauthorized
  checkShortfall (n.stakes.standing metadata.producer now)
  require (get P n metadata.id = none) .duplicateSnapshotId
  -- a write that fails is not reported
  return { n with
    store := attempt n.store
      (n.store.put snapshotsColumnFamily (utf8 metadata.id.id) (P.metadataToBytes metadata)) }

def decompress (compressed : Bytes) : CompressionMethod → Except SnapshotError Bytes
  | .none => .ok compressed
  | .gzip => load (P.ungzipTar compressed) .unsupportedCompression
  | .zstd => .error .unsupportedCompression

/-- What a stake standing means for an import from a producer who is not an anchor. -/
def checkStake : StakeStanding → Except SnapshotError Unit
  | .qualified => .ok ()
  | .insufficient _ _ => .error .insufficientProviderStake
  | .unread => .error .providerStakeUnverified
  | .unenforceable => .error .providerStakeUnverified

/-- A trust anchor needs no stake. -/
def checkProducer (now : Timestamp) (n : SnapshotNode) (producer : PeerId) :
    Except SnapshotError Unit :=
  if producer ∈ P.anchors then .ok () else checkStake (n.stakes.standing producer now)

/-- The checks of an import: the announcement on file and the uncompressed state. -/
def checkImport (now : Timestamp) (n : SnapshotNode) (id : SnapshotId)
    (compressed : Bytes) : Except SnapshotError (SnapshotMetadata × Bytes) := do
  let metadata ← load (get P n id) .unknownSnapshot
  require (metadata.protocolVersion = supportedProtocolVersion) .unsupportedProtocolVersion
  require (isRegisteredProvider P n metadata.producer = true) .unauthorized
  require (¬ (checkpointSlot n = none ∧ metadata.producer ∉ P.anchors)) .untrustedFirstSnapshot
  checkProducer P now n metadata.producer
  require ((checkpointSlot n).all (· < metadata.slot) = true) .staleSnapshot
  require (metadata.sizeBytes ≤ maxSnapshotBytes) .snapshotTooLarge
  require (compressed.length = metadata.sizeBytes) .sizeMismatch
  let stateBytes ← decompress P compressed metadata.compression
  require (P.sha256 stateBytes = metadata.stateRoot) .stateRootMismatch
  return (metadata, stateBytes)

/-- The checks of a decoded snapshot; all of them come before the first write. -/
def decodeSnapshot (reserved : List String) (bytes : Bytes) :
    Except SnapshotError StateSnapshot := do
  let snapshot ← load (P.snapshotFromBytes bytes) .malformedRecord
  require (∀ family ∈ snapshot.columnFamilies, family.1 ∉ reserved) .reservedColumnFamily
  require (∀ family ∈ snapshot.columnFamilies, ∀ entry ∈ family.2,
    P.verifyEntry family.1 entry.1 entry.2 = true) .unverifiableEntry
  return snapshot

/-- Write a snapshot into the store. What was written before a failure stays. -/
def restore (store : Store) (bytes : Bytes) (reserved : List String) :
    Store × Except SnapshotError ℕ :=
  match decodeSnapshot P reserved bytes with
  | .error e => (store, .error e)
  | .ok snapshot =>
    let written := store.putAll snapshot.entries 0
    (written.1, written.2.mapError fun _ => .stateUnwritable)

/-- Import a snapshot: the number of entries written, and the node afterwards in any case. -/
def importSnapshot (now : Timestamp) (n : SnapshotNode) (id : SnapshotId)
    (compressed : Bytes) : SnapshotNode × Except SnapshotError ℕ :=
  match checkImport P now n id compressed with
  | .error e => (n, .error e)
  | .ok (metadata, stateBytes) =>
    match restore P n.store stateBytes reservedColumnFamilies with
    | (store, .error e) => ({ n with store }, .error e)
    | (store, .ok restored) =>
      -- the checkpoint comes last
      match store.put checkpointColumnFamily checkpointKey (littleEndian 8 metadata.slot.toNat) with
      | .error _ => ({ n with store }, .error .stateUnwritable)
      | .ok store => ({ n with store }, .ok restored)

def recency (metadata : SnapshotMetadata) : ℕ ×ₗ ℕ :=
  toLex (metadata.slot.toNat, metadata.createdAt)

/-- The newest announcement of a producer; the first of several equally new ones. -/
def newest (held : List SnapshotMetadata) (producer : PeerId) : Option SnapshotMetadata :=
  held.foldl (fun best metadata =>
    if metadata.producer = producer then
      best.elim (some metadata) fun b =>
        if recency b < recency metadata then some metadata else some b
    else best) none

def pruneOne (held : List SnapshotMetadata) (acc : Store × ℕ) (metadata : SnapshotMetadata) :
    Store × ℕ :=
  if (newest held metadata.producer).any (·.id = metadata.id) then acc
  else
    match acc.1.delete snapshotsColumnFamily (utf8 metadata.id.id) with
    | .error _ => acc
    | .ok store => (store, acc.2 + 1)

/-- Drop every announcement that a newer one of the same producer supersedes. -/
def pruneSuperseded (n : SnapshotNode) : SnapshotNode × ℕ :=
  let held := all P n
  let swept := held.foldl (pruneOne held) (n.store, 0)
  ({ n with store := swept.1 }, swept.2)

/-- A column family that belongs to another registry of the node. -/
structure DomainFamily where
  name : String
  not_reserved : name ∉ reservedColumnFamilies

/-- What can happen to a node. The other registries write and delete rows of their own families
as they please. -/
inductive Event where
  | announce (now : Timestamp) (signed : Signed SnapshotMetadata)
  | importing (now : Timestamp) (id : SnapshotId) (compressed : Bytes)
  | pruneSuperseded
  | observe (provider : PeerId) (amount : ℕ) (seenAt : Timestamp)
  | observeRequirement (onchainMinimum : ℕ)
  | forget (provider : PeerId)
  | domainPut (family : DomainFamily) (key value : Bytes)
  | domainDelete (family : DomainFamily) (key : Bytes)

/-- The node after an event. A failed import may leave traces, every other failure leaves none. -/
def after (n : SnapshotNode) : Event → SnapshotNode
  | .announce now signed => attempt n (applyAnnounce P now n signed)
  | .importing now id compressed => (importSnapshot P now n id compressed).1
  | .pruneSuperseded => (pruneSuperseded P n).1
  | .observe provider amount seenAt => { n with stakes := n.stakes.observe provider amount seenAt }
  | .observeRequirement onchainMinimum =>
    { n with stakes := n.stakes.observeRequirement onchainMinimum }
  | .forget provider => { n with stakes := n.stakes.forget provider }
  | .domainPut family key value =>
    { n with store := attempt n.store (n.store.put family.name key value) }
  | .domainDelete family key =>
    { n with store := attempt n.store (n.store.delete family.name key) }

def step (n : SnapshotNode) (event : Event) : Except Empty SnapshotNode :=
  .ok (after P n event)

/-- Whether an event is an import that succeeds. -/
def imports (n : SnapshotNode) : Event → Bool
  | .importing now id compressed => (importSnapshot P now n id compressed).2.isOk
  | _ => false

end Handlers

end OpenFiat.SnapshotIndex
