import OpenFiat.BitswapReplies
import OpenFiat.SnapshotImport

/-!
# What a snapshot may write

A node opens its database with two lists of column families: those of the replicated worldview,
which a snapshot carries, and its own. The list of families that an import refuses is a third
one. An import touches rows outside the worldview exactly if the snapshot has entries for them
that differ from what is stored.
-/
namespace OpenFiat.SnapshotWorldview
open NodePayloads ColumnStores TransactionRuns SnapshotIndex SnapshotImport
open BitswapReplies (maxBlockBytes)
open ContentIds (Cid)
open ProgramAddress (Digest)

def contentColumnFamily : String := "pinned_content"

/-- The replicated worldview. -/
def snapshotColumnFamilies : List String :=
  ["advertisements", "reservations", "settlements", "disputes", "identity_claims", "attachments",
    "governance_proposals", servicesColumnFamily, "notification_subscriptions",
    "notification_receipts", "notification_dispatches", "oracle_records", "risk_records",
    "sessions", contentColumnFamily, "reviews", "payment_methods", "trade_channel_grants",
    "trade_channel_entries"]

def eventsColumnFamily : String := "gossip_events"

def peersColumnFamily : String := "peers"

def nodeLocalColumnFamilies : List String :=
  [eventsColumnFamily, snapshotsColumnFamily, checkpointColumnFamily, peersColumnFamily]

/-- The families with which a node opens its database. -/
def columnFamilies : List String := snapshotColumnFamilies ++ nodeLocalColumnFamilies

/-- What a node accepts into a column family: blocks of content have to match their key. -/
def verifySnapshotEntry (sha256 : Bytes → Digest) (columnFamily : String) (key value : Bytes) :
    Bool :=
  if columnFamily ≠ contentColumnFamily then true
  else
    match (String.fromUTF8? ⟨key.toArray⟩).bind Cid.parse with
    | none => false
    | some cid => value.length ≤ maxBlockBytes && cid.matchesContent sha256 value

variable {P : SnapshotPlatform} {now : Timestamp} {n : SnapshotNode} {id : SnapshotId}
  {compressed : Bytes} {metadata : SnapshotMetadata} {snapshot : StateSnapshot}

/-- An import that succeeds keeps every row outside the worldview, the checkpoint apart. -/
def WritesOnlyWorldview (P : SnapshotPlatform) (now : Timestamp) (n : SnapshotNode)
    (id : SnapshotId) (compressed : Bytes) : Prop :=
  (importSnapshot P now n id compressed).2.isOk = true →
    ∀ family key, family ∉ snapshotColumnFamilies →
      ¬ (family = checkpointColumnFamily ∧ key = checkpointKey) →
        (importSnapshot P now n id compressed).1.store.read family key = n.store.read family key

/-- A snapshot that passes the checks has, for a row outside the worldview, at most the value
that is there. -/
def CarriesOnlyWorldview (P : SnapshotPlatform) (now : Timestamp) (n : SnapshotNode)
    (id : SnapshotId) (compressed : Bytes) : Prop :=
  ∀ metadata snapshot, Passes P now n id compressed metadata snapshot →
    HasFamilies n.store snapshot →
      ∀ family key value, family ∉ snapshotColumnFamilies →
        ColumnStore.lastWrite snapshot.entries family key = some value →
          n.store.read family key = some value

/-- The frame of an import. The condition is on the entries of the snapshot and the rows that
the node has before. -/
theorem import_writes_only_worldview_iff (P : SnapshotPlatform) (now : Timestamp)
    (n : SnapshotNode) (id : SnapshotId) (compressed : Bytes) :
    WritesOnlyWorldview P now n id compressed ↔ CarriesOnlyWorldview P now n id compressed := by
  have houtcome := importSnapshot_outcome P now n id compressed
  unfold WritesOnlyWorldview
  generalize importSnapshot P now n id compressed = result at houtcome ⊢
  cases houtcome with
  | refused e hrefused =>
    refine iff_of_true (fun hok => by cases hok) fun metadata snapshot hpasses _ => ?_
    exact absurd hpasses (hrefused metadata snapshot)
  | broken metadata snapshot hpasses hfamilies =>
    refine iff_of_true (fun hok => by cases hok) fun metadata' snapshot' hpasses' hhas => ?_
    obtain ⟨rfl, rfl⟩ := passes_unique hpasses hpasses'
    exact absurd hhas hfamilies
  | imported metadata snapshot store hpasses hfamilies hput =>
    constructor
    · intro h metadata' snapshot' hpasses' _ family key value houtside hlast
      obtain ⟨rfl, rfl⟩ := passes_unique hpasses hpasses'
      have hrow : ¬ (family = checkpointColumnFamily ∧ key = checkpointKey) := fun hrow =>
        not_reserved_of_passes hpasses (ColumnStore.mem_of_lastWrite hlast)
          (mem_reserved_iff.mpr (.inr hrow.1))
      rw [← h rfl family key houtside hrow, read_imported hfamilies hrow hput, hlast]
      rfl
    · intro h _ family key houtside hrow
      rw [read_imported hfamilies hrow hput]
      cases hlast : ColumnStore.lastWrite snapshot.entries family key with
      | none => rfl
      | some value =>
        rw [h metadata snapshot hpasses hfamilies family key value houtside hlast]
        rfl

def freshNode : SnapshotNode where
  store := ⟨fun family => family ∈ columnFamilies, ∅⟩
  stakes := .enforcing

/-- The producer's state has an event identifier and a peer in it. -/
def graspingPlatform : SnapshotPlatform :=
  { Sample.platform with
    snapshotFromBytes := fun _ =>
      some ⟨[("advertisements", [([1], [1])]), (eventsColumnFamily, [([7], [1])]),
        (peersColumnFamily, [([8], [1])])]⟩
    verifyEntry := verifySnapshotEntry fun _ => .filled 0 }

/-- The import is accepted; afterwards the event log has an event that the node never received
and the peer table a peer that it never met. -/
theorem snapshot_writes_event_log :
    (importSnapshot graspingPlatform 0
        (run (step graspingPlatform) freshNode (Sample.joining 1)) ⟨"first"⟩ [1]).2 = .ok 3 ∧
      (run (step graspingPlatform) freshNode (Sample.joining 1)).store.read
        eventsColumnFamily [7] = none ∧
      (run (step graspingPlatform) freshNode (Sample.joining 1)).store.read
        peersColumnFamily [8] = none ∧
      (importSnapshot graspingPlatform 0
        (run (step graspingPlatform) freshNode (Sample.joining 1)) ⟨"first"⟩ [1]).1.store.read
          eventsColumnFamily [7] = some [1] ∧
      (importSnapshot graspingPlatform 0
        (run (step graspingPlatform) freshNode (Sample.joining 1)) ⟨"first"⟩ [1]).1.store.read
          peersColumnFamily [8] = some [1] := by
  decide +kernel

end OpenFiat.SnapshotWorldview
