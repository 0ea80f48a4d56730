import OpenFiat.SnapshotIndex

/-!
# Importing snapshots

An import ends in one of three ways: it is refused before anything is written, it breaks off
because the store lacks a column family, or it succeeds. `importSnapshot_outcome` says so once.

It is not atomic: entries written before it breaks off stay. But however it ends, the entries
of a snapshot do not reach the node's own bookkeeping.
-/
namespace OpenFiat.SnapshotImport
open GuardedResult NodePayloads WireBytes GossipEvents ColumnStores TransactionRuns SnapshotIndex
open ColumnStores.ColumnStore

variable {P : SnapshotPlatform} {now : Timestamp} {n : SnapshotNode} {id : SnapshotId}
  {compressed stateBytes : Bytes} {metadata : SnapshotMetadata} {snapshot : StateSnapshot}

/-- What an import has checked about its producer and its bytes. -/
structure Admitted (P : SnapshotPlatform) (now : Timestamp) (n : SnapshotNode) (id : SnapshotId)
    (compressed : Bytes) (metadata : SnapshotMetadata) (stateBytes : Bytes) : Prop where
  announced : get P n id = some metadata
  registered : isRegisteredProvider P n metadata.producer = true
  first : checkpointSlot n = none → metadata.producer ∈ P.anchors
  staked : metadata.producer ∈ P.anchors ∨
    n.stakes.standing metadata.producer now = .qualified
  newer : ∀ slot, checkpointSlot n = some slot → slot < metadata.slot
  unpacked : decompress P compressed metadata.compression = .ok stateBytes
  root : P.sha256 stateBytes = metadata.stateRoot

theorem checkProducer_ok {producer : PeerId} {u : Unit} :
    checkProducer P now n producer = .ok u ↔
      producer ∈ P.anchors ∨ n.stakes.standing producer now = .qualified := by
  unfold checkProducer
  split_ifs with hanchor
  · simp [hanchor]
  · cases n.stakes.standing producer now <;> simp [hanchor, checkStake]

theorem checkImport_ok (h : checkImport P now n id compressed = .ok (metadata, stateBytes)) :
    Admitted P now n id compressed metadata stateBytes := by
  simp only [checkImport, bind_ok, load_ok, require_ok, pure_ok, exists_const, checkProducer_ok,
    Prod.mk.injEq] at h
  obtain ⟨m, hget, -, hregistered, hfirst, hstaked, hnewer, -, -, bytes, hunpacked, hroot, rfl,
    rfl⟩ := h
  refine ⟨hget, hregistered, fun hnone => ?_, hstaked, fun slot hslot => ?_, hunpacked, hroot⟩
  · by_contra hanchor
    exact hfirst ⟨hnone, hanchor⟩
  · rw [hslot, Option.all_some, decide_eq_true_eq] at hnewer
    exact hnewer

/-- The snapshot passes every check that comes before the first write. -/
def Passes (P : SnapshotPlatform) (now : Timestamp) (n : SnapshotNode) (id : SnapshotId)
    (compressed : Bytes) (metadata : SnapshotMetadata) (snapshot : StateSnapshot) : Prop :=
  ∃ stateBytes, checkImport P now n id compressed = .ok (metadata, stateBytes) ∧
    decodeSnapshot P reservedColumnFamilies stateBytes = .ok snapshot

/-- The store has the families of all entries and of the checkpoint. -/
def HasFamilies (store : Store) (snapshot : StateSnapshot) : Prop :=
  (∀ e ∈ snapshot.entries, store.opened e.1 = true) ∧ store.opened checkpointColumnFamily = true

inductive Outcome (P : SnapshotPlatform) (now : Timestamp) (n : SnapshotNode) (id : SnapshotId)
    (compressed : Bytes) : SnapshotNode × Except SnapshotError ℕ → Prop
  | refused (e : SnapshotError) : (∀ metadata snapshot,
      ¬ Passes P now n id compressed metadata snapshot) →
      Outcome P now n id compressed (n, .error e)
  | broken (metadata : SnapshotMetadata) (snapshot : StateSnapshot) :
      Passes P now n id compressed metadata snapshot → ¬ HasFamilies n.store snapshot →
      Outcome P now n id compressed
        ({ n with store := (n.store.putAll snapshot.entries 0).1 }, .error .stateUnwritable)
  | imported (metadata : SnapshotMetadata) (snapshot : StateSnapshot) (store : Store) :
      Passes P now n id compressed metadata snapshot → HasFamilies n.store snapshot →
      (n.store.putAll snapshot.entries 0).1.put checkpointColumnFamily checkpointKey
        (littleEndian 8 metadata.slot.toNat) = .ok store →
      Outcome P now n id compressed ({ n with store }, .ok snapshot.entries.length)

theorem importSnapshot_outcome (P : SnapshotPlatform) (now : Timestamp) (n : SnapshotNode)
    (id : SnapshotId) (compressed : Bytes) :
    Outcome P now n id compressed (importSnapshot P now n id compressed) := by
  unfold importSnapshot
  cases hchecked : checkImport P now n id compressed with
  | error e =>
    refine .refused e fun metadata snapshot hpasses => ?_
    obtain ⟨stateBytes, hok, -⟩ := hpasses
    rw [hchecked] at hok
    cases hok
  | ok admitted =>
    obtain ⟨metadata, stateBytes⟩ := admitted
    simp only [restore]
    cases hdecode : decodeSnapshot P reservedColumnFamilies stateBytes with
    | error e =>
      refine .refused e fun metadata' snapshot hpasses => ?_
      obtain ⟨stateBytes', hok, hok'⟩ := hpasses
      rw [hchecked] at hok
      cases hok
      rw [hdecode] at hok'
      cases hok'
    | ok snapshot =>
      have hpasses : Passes P now n id compressed metadata snapshot :=
        ⟨stateBytes, hchecked, hdecode⟩
      cases hwritten : (n.store.putAll snapshot.entries 0).2 with
      | error =>
        simp only [hwritten, Except.mapError]
        refine .broken metadata snapshot hpasses fun hfamilies => ?_
        rw [putAll_ok_iff.mpr ⟨hfamilies.1, rfl⟩] at hwritten
        cases hwritten
      | ok =>
        obtain ⟨hopened, hcount⟩ := putAll_ok_iff.mp hwritten
        rw [zero_add] at hcount
        simp only [hwritten, Except.mapError, hcount]
        cases hput : (n.store.putAll snapshot.entries 0).1.put checkpointColumnFamily
            checkpointKey (littleEndian 8 metadata.slot.toNat) with
        | error e =>
          refine .broken metadata snapshot hpasses fun hfamilies => ?_
          have hcheckpoint := hfamilies.2
          rw [← opened_putAll n.store snapshot.entries 0] at hcheckpoint
          rw [put_of_opened hcheckpoint] at hput
          cases hput
        | ok store =>
          have hcheckpoint := (put_ok hput).1
          rw [opened_putAll] at hcheckpoint
          exact .imported metadata snapshot store hpasses ⟨hopened, hcheckpoint⟩ hput

/-- A failed import leaves every row as it was. -/
def AllOrNothing (P : SnapshotPlatform) (now : Timestamp) (n : SnapshotNode) (id : SnapshotId)
    (compressed : Bytes) : Prop :=
  ∀ e, (importSnapshot P now n id compressed).2 = .error e →
    ∀ family key, (importSnapshot P now n id compressed).1.store.read family key =
      n.store.read family key

/-- If the store lacks a family for the snapshot, the entries before the first one that cannot be
written leave each row with the value that it has. -/
def Harmless (P : SnapshotPlatform) (now : Timestamp) (n : SnapshotNode) (id : SnapshotId)
    (compressed : Bytes) : Prop :=
  ∀ metadata snapshot, Passes P now n id compressed metadata snapshot →
    ¬ HasFamilies n.store snapshot →
      ∀ family key value,
        ColumnStore.lastWrite (n.store.writable snapshot.entries) family key = some value →
          n.store.read family key = some value

theorem passes_unique {metadata' : SnapshotMetadata} {snapshot' : StateSnapshot}
    (h : Passes P now n id compressed metadata snapshot)
    (h' : Passes P now n id compressed metadata' snapshot') :
    metadata' = metadata ∧ snapshot' = snapshot := by
  obtain ⟨stateBytes, hchecked, hdecode⟩ := h
  obtain ⟨stateBytes', hchecked', hdecode'⟩ := h'
  rw [hchecked] at hchecked'
  cases hchecked'
  rw [hdecode] at hdecode'
  exact ⟨rfl, (Except.ok.inj hdecode').symm⟩

theorem import_all_or_nothing_iff (P : SnapshotPlatform) (now : Timestamp) (n : SnapshotNode)
    (id : SnapshotId) (compressed : Bytes) :
    AllOrNothing P now n id compressed ↔ Harmless P now n id compressed := by
  have houtcome := importSnapshot_outcome P now n id compressed
  unfold AllOrNothing
  generalize importSnapshot P now n id compressed = result at houtcome ⊢
  cases houtcome with
  | refused e hrefused =>
    refine iff_of_true (fun _ _ _ _ => rfl) fun metadata snapshot hpasses => ?_
    exact absurd hpasses (hrefused metadata snapshot)
  | broken metadata snapshot hpasses hfamilies =>
    constructor
    · intro h metadata' snapshot' hpasses' _
      obtain ⟨rfl, rfl⟩ := passes_unique hpasses hpasses'
      exact ColumnStore.read_putAll_eq_iff.mp (h .stateUnwritable rfl)
    · intro h e _
      exact ColumnStore.read_putAll_eq_iff.mpr (h metadata snapshot hpasses hfamilies)
  | imported metadata snapshot store hpasses hfamilies =>
    refine iff_of_true (fun e he => ?_) fun metadata' snapshot' hpasses' hlacks => ?_
    · cases he
    · obtain ⟨rfl, rfl⟩ := passes_unique hpasses hpasses'
      exact absurd hfamilies hlacks

namespace Sample

def announcement (b : UInt8) : SnapshotMetadata where
  id := ⟨if b = 1 then "first" else if b = 2 then "second" else "third"⟩
  snapshotVersion := 1
  protocolVersion := 2
  slot := b.toUInt64
  createdAt := 0
  stateRoot := .filled b
  sizeBytes := 1
  compression := .none
  locations := []
  producer := peer (if b = 4 then 1 else b)
  producerPublicKey := .filled (if b = 4 then 1 else b)

/-- The third state has entries of a family that no node of the sample has. -/
def stateOf (b : UInt8) : StateSnapshot :=
  if b = 3 then ⟨[("advertisements", [([1], [b])]), ("unheard_of", [([1], [b])])]⟩
  else ⟨[("advertisements", [([1], [b])])]⟩

def platform : SnapshotPlatform where
  verify _ _ _ := true
  peerIdFromPublicKey key := some ⟨key.bytes⟩
  sha256 bytes := .filled (bytes.headD 0)
  ungzipTar bytes := some bytes
  metadataToBytes metadata := metadata.stateRoot.bytes.take 1
  metadataFromBytes bytes := bytes.head?.map announcement
  snapshotFromBytes bytes := bytes.head?.map stateOf
  serviceFromBytes bytes := bytes.head?.map fun b => ⟨peer b, .infrastructure .snapshotProvider⟩
  anchors := [peer 1, peer 3]
  verifyEntry _ _ _ := true

def start : SnapshotNode where
  store := ⟨fun family => family ∈ [snapshotsColumnFamily, checkpointColumnFamily,
    servicesColumnFamily, "advertisements"], ∅⟩
  stakes := .enforcing

theorem services_not_reserved : servicesColumnFamily ∉ reservedColumnFamilies := by decide

def services : DomainFamily := ⟨servicesColumnFamily, services_not_reserved⟩

def joining (b : UInt8) : List Event :=
  [.domainPut services [b] [b], .announce 0 ⟨announcement b, ⟨[]⟩⟩]

/-- An anchor and a staked producer join, and the anchor's state is imported. -/
def twoProducers : List Event :=
  joining 1 ++ joining 2 ++ [.observe (peer 2) (10000 * 1000000) 0, .importing 0 ⟨"first"⟩ [1]]

end Sample

open Sample in
/-- The import fails, and an entry of the snapshot is in the store. -/
theorem broken_import_leaves_entries :
    (importSnapshot platform 0 (run (step platform) start (joining 3)) ⟨"third"⟩ [3]).2 =
        .error .stateUnwritable ∧
      (run (step platform) start (joining 3)).store.read "advertisements" [1] = none ∧
      (importSnapshot platform 0 (run (step platform) start (joining 3)) ⟨"third"⟩ [3]).1.store.read
        "advertisements" [1] = some [3] := by
  decide +kernel

theorem mem_reserved_iff {family : String} : family ∈ reservedColumnFamilies ↔
    family = snapshotsColumnFamily ∨ family = checkpointColumnFamily := by
  simp [reservedColumnFamilies]

theorem decodeSnapshot_ok {reserved : List String} {bytes : Bytes} :
    decodeSnapshot P reserved bytes = .ok snapshot ↔
      P.snapshotFromBytes bytes = some snapshot ∧
        (∀ family ∈ snapshot.columnFamilies, family.1 ∉ reserved) ∧
        ∀ family ∈ snapshot.columnFamilies, ∀ entry ∈ family.2,
          P.verifyEntry family.1 entry.1 entry.2 = true := by
  simp only [decodeSnapshot, bind_ok, load_ok, require_ok, pure_ok, exists_const]
  constructor
  · rintro ⟨_, hdecoded, hreserved, hverified, rfl⟩
    exact ⟨hdecoded, hreserved, hverified⟩
  · rintro ⟨hdecoded, hreserved, hverified⟩
    exact ⟨snapshot, hdecoded, hreserved, hverified, rfl⟩

theorem not_reserved_of_passes (h : Passes P now n id compressed metadata snapshot)
    {e : String × Bytes × Bytes} (he : e ∈ snapshot.entries) : e.1 ∉ reservedColumnFamilies := by
  obtain ⟨stateBytes, -, hdecode⟩ := h
  obtain ⟨family, hfamily, hentry⟩ := List.mem_flatMap.mp he
  obtain ⟨entry, -, rfl⟩ := List.mem_map.mp hentry
  exact (decodeSnapshot_ok.mp hdecode).2.1 family hfamily

/-- What an import that succeeds leaves in a row other than the checkpoint. -/
theorem read_imported (hfamilies : HasFamilies n.store snapshot) {store : Store} {family : String}
    {key : Bytes} (hrow : ¬ (family = checkpointColumnFamily ∧ key = checkpointKey))
    (hput : (n.store.putAll snapshot.entries 0).1.put checkpointColumnFamily checkpointKey
      (littleEndian 8 metadata.slot.toNat) = .ok store) :
    store.read family key =
      (lastWrite snapshot.entries family key).or (n.store.read family key) := by
  rw [read_of_put hput family key, if_neg hrow, read_putAll,
    writable_of_opened hfamilies.1]

/-- An import touches one reserved row: it records the announced slot when it succeeds. -/
theorem read_reserved_import {family : String} (hfamily : family ∈ reservedColumnFamilies)
    (key : Bytes) :
    (importSnapshot P now n id compressed).1.store.read family key = n.store.read family key ∨
    (importSnapshot P now n id compressed).2.isOk = true ∧
      family = checkpointColumnFamily ∧ key = checkpointKey ∧
      ∃ metadata, get P n id = some metadata ∧
        (importSnapshot P now n id compressed).1.store.read family key =
          some (littleEndian 8 metadata.slot.toNat) := by
  have houtcome := importSnapshot_outcome P now n id compressed
  generalize importSnapshot P now n id compressed = result at houtcome ⊢
  have hkeeps {metadata : SnapshotMetadata} {snapshot : StateSnapshot}
      (hpasses : Passes P now n id compressed metadata snapshot) :
      (n.store.putAll snapshot.entries 0).1.read family key = n.store.read family key := by
    refine read_putAll_of_not_mem (fun e he hname => ?_) 0 key
    exact not_reserved_of_passes hpasses he (hname ▸ hfamily)
  cases houtcome with
  | refused => exact .inl rfl
  | broken metadata snapshot hpasses => exact .inl (hkeeps hpasses)
  | imported metadata snapshot store hpasses hfamilies hput =>
    have hread := read_of_put hput family key
    by_cases hrow : family = checkpointColumnFamily ∧ key = checkpointKey
    · rw [if_pos hrow] at hread
      obtain ⟨stateBytes, hchecked, -⟩ := hpasses
      exact .inr ⟨rfl, hrow.1, hrow.2, metadata, (checkImport_ok hchecked).announced, hread⟩
    · rw [if_neg hrow] at hread
      exact .inl (hread.trans (hkeeps hpasses))

theorem checkpointSlot_of_read {slot : UInt64}
    (h : n.store.read checkpointColumnFamily checkpointKey = some (littleEndian 8 slot.toNat)) :
    checkpointSlot n = some slot := by
  have hlt : slot.toNat < 256 ^ 8 := slot.toNat_lt
  rw [checkpointSlot, h, Option.bind_some, if_pos (length_littleEndian 8 _),
    ofLittleEndian_littleEndian hlt, UInt64.ofNat_toNat]

/-- An import that succeeds passed its checks and recorded the slot. -/
theorem admitted_of_import (h : (importSnapshot P now n id compressed).2.isOk = true) :
    ∃ metadata stateBytes, Admitted P now n id compressed metadata stateBytes ∧
      checkpointSlot (importSnapshot P now n id compressed).1 = some metadata.slot := by
  have houtcome := importSnapshot_outcome P now n id compressed
  generalize importSnapshot P now n id compressed = result at houtcome h ⊢
  cases houtcome with
  | refused | broken => cases h
  | imported metadata snapshot store hpasses hfamilies hput =>
    obtain ⟨stateBytes, hchecked, -⟩ := hpasses
    refine ⟨metadata, stateBytes, checkImport_ok hchecked, checkpointSlot_of_read ?_⟩
    exact (read_of_put hput _ _).trans (if_pos ⟨rfl, rfl⟩)

end OpenFiat.SnapshotImport
