import OpenFiat.SnapshotImport
import OpenFiat.WireReaders

/-!
# The encoding of snapshots

A producer reads the families of a snapshot out of its store, sorts the names and the rows of
each family, and encodes the result. The bytes are a function of the rows alone: not of the
order in which the families are asked for nor of that in which the store lists its rows.

An importer does not reverse this. It takes any bytes that decode, whatever their order, and
adds them to what it holds, so afterwards its families need not encode to the announced root.
-/
namespace OpenFiat.SnapshotEncoding
open GuardedResult FiniteTable ProgramAddress NodePayloads WireReaders GossipEvents
open ColumnStores.ColumnStore
  ColumnStores TransactionRuns SnapshotIndex SnapshotImport

/-- The wire format of snapshots. Decoding undoes encoding; it may accept other bytes too. -/
structure SnapshotCodec (P : SnapshotPlatform) where
  toBytes : StateSnapshot → Bytes
  fromBytes_toBytes : ∀ snapshot, P.snapshotFromBytes (toBytes snapshot) = some snapshot

/-- The rows of each family in the order in which a store happens to list them. -/
structure Iteration (store : Store) where
  rows : String → List (Bytes × Bytes)
  perm : ∀ family, (rows family).Perm (store.entries keyOrder keyOrder_injective family)

def Iteration.inOrder (store : Store) : Iteration store :=
  ⟨store.entries keyOrder keyOrder_injective, fun _ => .refl _⟩

def nameOrder (name : String) : List ℕ := keyOrder (utf8 name)

theorem nameOrder_injective : Function.Injective nameOrder :=
  keyOrder_injective.comp utf8_injective

def sortedNames (names : List String) : List String :=
  Table.ascending nameOrder nameOrder_injective names.toFinset

def sortRows (rows : List (Bytes × Bytes)) : List (Bytes × Bytes) :=
  rows.insertionSort (Order.Preimage (fun e => keyOrder e.1) (· ≤ ·))

/-- A family that cannot be read is an error, not an omission. -/
def readFamily {store : Store} (iteration : Iteration store) (name : String) :
    Except SnapshotError (String × List (Bytes × Bytes)) := do
  require (store.opened name = true) .stateUnreadable
  return (name, sortRows (iteration.rows name))

def serialize {P : SnapshotPlatform} (C : SnapshotCodec P) {store : Store}
    (iteration : Iteration store) (columnFamilies : List String) : Except SnapshotError Bytes := do
  let families ← (sortedNames columnFamilies).mapM (readFamily iteration)
  return C.toBytes ⟨families⟩

variable {P : SnapshotPlatform} {C : SnapshotCodec P} {store : Store} {iteration : Iteration store}
  {names : List String} {snapshot : StateSnapshot}

/-- The snapshot of some families of a store: names and rows in ascending order. -/
def snapshotOf (store : Store) (names : List String) : StateSnapshot :=
  ⟨(sortedNames names).map fun name => (name, store.entries keyOrder keyOrder_injective name)⟩

/-- Names and keys are strictly ascending, so that nothing is repeated. -/
structure Ascending (snapshot : StateSnapshot) : Prop where
  names : (snapshot.columnFamilies.map Prod.fst).Pairwise fun m m' => nameOrder m < nameOrder m'
  keys : ∀ family ∈ snapshot.columnFamilies,
    family.2.Pairwise fun e e' => keyOrder e.1 < keyOrder e'.1

theorem mem_sortedNames {name : String} : name ∈ sortedNames names ↔ name ∈ names :=
  Table.mem_ascending.trans List.mem_toFinset

theorem sortedNames_congr {names' : List String} (h : ∀ name, name ∈ names ↔ name ∈ names') :
    sortedNames names = sortedNames names' := by
  have hset : names.toFinset = names'.toFinset :=
    Finset.ext fun name => List.mem_toFinset.trans ((h name).trans List.mem_toFinset.symm)
  rw [sortedNames, sortedNames, hset]

theorem ascending_snapshotOf (store : Store) (names : List String) :
    Ascending (snapshotOf store names) := by
  constructor
  · rw [snapshotOf, List.map_map]
    exact (List.map_id _).symm ▸ Table.pairwise_ascending _
  · intro family hfamily
    obtain ⟨name, -, rfl⟩ := List.mem_map.mp hfamily
    exact pairwise_entries store name

theorem of_mem_snapshotOf {family : String × List (Bytes × Bytes)}
    (h : family ∈ (snapshotOf store names).columnFamilies) :
    family.1 ∈ names ∧ family.2 = store.entries keyOrder keyOrder_injective family.1 := by
  obtain ⟨name, hname, rfl⟩ := List.mem_map.mp h
  exact ⟨mem_sortedNames.mp hname, rfl⟩

theorem sortRows_rows (iteration : Iteration store) (name : String) :
    sortRows (iteration.rows name) = store.entries keyOrder keyOrder_injective name := by
  have hperm : (sortRows (iteration.rows name)).Perm
      (store.entries keyOrder keyOrder_injective name) :=
    (List.perm_insertionSort _ _).trans (iteration.perm name)
  have hsorted := Table.pairwise_sorted (fun e => keyOrder e.1) (iteration.rows name)
  have hentries : (store.entries keyOrder keyOrder_injective name).Pairwise
      (Order.Preimage (fun e => keyOrder e.1) (· ≤ ·)) :=
    (pairwise_entries store name).imp le_of_lt
  refine List.Perm.eq_of_pairwise ?_ hsorted hentries hperm
  rintro ⟨key, value⟩ ⟨key', value'⟩ hmem hmem' hle hge
  -- two rows with the same key are the same row
  obtain rfl : key = key' := keyOrder_injective (le_antisymm hle hge)
  have hread := mem_entries.mp (hperm.mem_iff.mp hmem)
  rw [mem_entries.mp hmem', Option.some.injEq] at hread
  rw [hread]

theorem mapM_readFamily_ok {families : List (String × List (Bytes × Bytes))} :
    names.mapM (readFamily iteration) = .ok families ↔
      (∀ name ∈ names, store.opened name = true) ∧
        families = names.map fun name =>
          (name, store.entries keyOrder keyOrder_injective name) := by
  induction names generalizing families with
  | nil =>
    rw [List.mapM_nil, pure_ok, eq_comm]
    exact (and_iff_right (List.forall_mem_nil _)).symm
  | cons name rest ih =>
    simp only [List.mapM_cons, bind_ok, readFamily, require_ok, pure_ok, exists_const, ih,
      sortRows_rows, List.forall_mem_cons, List.map_cons]
    constructor
    · rintro ⟨_, ⟨hopened, rfl⟩, _, ⟨hrest, rfl⟩, rfl⟩
      exact ⟨⟨hopened, hrest⟩, rfl⟩
    · rintro ⟨⟨hopened, hrest⟩, rfl⟩
      exact ⟨_, ⟨hopened, rfl⟩, _, ⟨hrest, rfl⟩, rfl⟩

/-- Serializing succeeds if the store has the families, and yields the canonical snapshot. -/
theorem serialize_ok {bytes : Bytes} : serialize C iteration names = .ok bytes ↔
    (∀ name ∈ names, store.opened name = true) ∧ bytes = C.toBytes (snapshotOf store names) := by
  simp only [serialize, bind_ok, mapM_readFamily_ok, pure_ok, mem_sortedNames]
  constructor
  · rintro ⟨_, ⟨hopened, rfl⟩, rfl⟩
    exact ⟨hopened, rfl⟩
  · rintro ⟨hopened, rfl⟩
    exact ⟨_, ⟨hopened, rfl⟩, rfl⟩

theorem toBytes_inj {snapshot' : StateSnapshot} :
    C.toBytes snapshot = C.toBytes snapshot' ↔ snapshot = snapshot' := by
  refine ⟨fun h => ?_, congrArg C.toBytes⟩
  have hdecoded := C.fromBytes_toBytes snapshot
  rw [h, C.fromBytes_toBytes, Option.some.injEq] at hdecoded
  exact hdecoded.symm

theorem mem_entries_iff {family : String} {key value : Bytes} :
    (family, key, value) ∈ snapshot.entries ↔
      ∃ rows, (family, rows) ∈ snapshot.columnFamilies ∧ (key, value) ∈ rows := by
  unfold StateSnapshot.entries
  rw [List.mem_flatMap]
  constructor
  · rintro ⟨⟨name, rows⟩, hlisted, hentry⟩
    obtain ⟨entry, hmem, hrow⟩ := List.mem_map.mp hentry
    cases hrow
    exact ⟨rows, hlisted, hmem⟩
  · rintro ⟨rows, hlisted, hmem⟩
    exact ⟨(family, rows), hlisted, List.mem_map.mpr ⟨(key, value), hmem, rfl⟩⟩

namespace Ascending

theorem lastWrite_iff (h : Ascending snapshot) {family : String} {rows : List (Bytes × Bytes)}
    (hmem : (family, rows) ∈ snapshot.columnFamilies) {key value : Bytes} :
    lastWrite snapshot.entries family key = some value ↔ (key, value) ∈ rows := by
  have hentries {v : Bytes} : (family, key, v) ∈ snapshot.entries ↔ (key, v) ∈ rows := by
    rw [mem_entries_iff]
    refine ⟨?_, fun hrow => ⟨rows, hmem, hrow⟩⟩
    rintro ⟨rows', hmem', hrow⟩
    have hnodup : (snapshot.columnFamilies.map Prod.fst).Nodup :=
      h.names.imp fun hlt heq => hlt.ne (congrArg nameOrder heq)
    obtain rfl := congrArg Prod.snd (List.inj_on_of_nodup_map hnodup hmem hmem' rfl)
    exact hrow
  rw [lastWrite_eq_some_iff, hentries]
  intro v v' hv hv'
  have hnodup : (rows.map Prod.fst).Nodup :=
    List.pairwise_map.mpr ((h.keys _ hmem).imp fun hlt heq => hlt.ne (congrArg keyOrder heq))
  exact congrArg Prod.snd
    (List.inj_on_of_nodup_map hnodup (hentries.mp hv) (hentries.mp hv') rfl)

end Ascending

theorem lastWrite_snapshotOf {family : String} (h : family ∈ names) (key : Bytes) :
    lastWrite (snapshotOf store names).entries family key = store.read family key :=
  Option.ext fun _ =>
    ((ascending_snapshotOf store names).lastWrite_iff
      (List.mem_map.mpr ⟨_, mem_sortedNames.mpr h, rfl⟩)).trans mem_entries

/-- A snapshot in ascending order is the one of every store that has just its rows. -/
theorem snapshotOf_eq_of_ascending (h : Ascending snapshot)
    (hread : ∀ family ∈ snapshot.columnFamilies, ∀ key value,
      (key, value) ∈ family.2 ↔ store.read family.1 key = some value) :
    snapshotOf store (snapshot.columnFamilies.map Prod.fst) = snapshot := by
  have hfamilies : ∀ family ∈ snapshot.columnFamilies,
      (family.1, store.entries keyOrder keyOrder_injective family.1) = family := by
    intro family hfamily
    rw [entries_eq_of_ascending (h.keys family hfamily) (hread family hfamily)]
  rw [snapshotOf, sortedNames, Table.eq_of_ascending nameOrder (Table.pairwise_ascending _) h.names
    fun _ => mem_sortedNames, List.map_map]
  exact congrArg StateSnapshot.mk ((List.map_congr_left hfamilies).trans (List.map_id _))

/-- Two stores encode to the same bytes exactly if they agree on the families, whatever the
order and number of their names and the order of iteration. -/
def EncodingCanonical (C : SnapshotCodec P) : Prop :=
  ∀ (A B : Store) (iterationA : Iteration A) (iterationB : Iteration B)
    (names names' : List String), (∀ name, name ∈ names ↔ name ∈ names') →
    (∀ name ∈ names, A.opened name = true ∧ B.opened name = true) →
      ∃ a b, serialize C iterationA names = .ok a ∧ serialize C iterationB names' = .ok b ∧
        (a = b ↔ ∀ family ∈ names, ∀ key, A.read family key = B.read family key)

/-- Restoring the bytes of a store into one that has nothing in the families makes the two
agree. The importer has the families, refuses none of them and accepts each entry. -/
def EncodingFaithful (C : SnapshotCodec P) : Prop :=
  ∀ (A B : Store) (iteration : Iteration A) (names reserved : List String),
    (∀ name ∈ names, A.opened name = true ∧ B.opened name = true ∧ name ∉ reserved) →
    (∀ name ∈ names, ∀ key value, A.read name key = some value →
      P.verifyEntry name key value = true) →
    (∀ name ∈ names, ∀ key, B.read name key = none) →
      ∃ bytes count, serialize C iteration names = .ok bytes ∧
        (restore P B bytes reserved).2 = .ok count ∧
          ∀ family ∈ names, ∀ key,
            (restore P B bytes reserved).1.read family key = A.read family key

def importedFamilies (snapshot : StateSnapshot) : List String :=
  snapshot.columnFamilies.map Prod.fst

/-- After an import that succeeds, the imported families encode to bytes of the announced
root. -/
def Reproduces (C : SnapshotCodec P) (now : Timestamp) (n : SnapshotNode) (id : SnapshotId)
    (compressed : Bytes) : Prop :=
  (importSnapshot P now n id compressed).2.isOk = true →
    ∀ metadata snapshot, Passes P now n id compressed metadata snapshot →
      ∀ iteration : Iteration (importSnapshot P now n id compressed).1.store,
        ∃ bytes, serialize C iteration (importedFamilies snapshot) = .ok bytes ∧
          P.sha256 bytes = metadata.stateRoot

/-- A snapshot that is imported is in the canonical form, the store has the families that it
lists, and the node has no row in them that the snapshot does not have. -/
def ImportsCanonical (C : SnapshotCodec P) (now : Timestamp) (n : SnapshotNode) (id : SnapshotId)
    (compressed : Bytes) : Prop :=
  ∀ metadata stateBytes snapshot,
    checkImport P now n id compressed = .ok (metadata, stateBytes) →
    decodeSnapshot P reservedColumnFamilies stateBytes = .ok snapshot →
    HasFamilies n.store snapshot →
      stateBytes = C.toBytes snapshot ∧ Ascending snapshot ∧
        (∀ family ∈ snapshot.columnFamilies, n.store.opened family.1 = true) ∧
        ∀ family ∈ snapshot.columnFamilies, ∀ key value,
          n.store.read family.1 key = some value → ∃ value', (key, value') ∈ family.2

/-- The encoding of the imported families and the announced bytes have the same digest only if
they are the same. -/
def CollisionFree (C : SnapshotCodec P) (now : Timestamp) (n : SnapshotNode) (id : SnapshotId)
    (compressed : Bytes) : Prop :=
  ∀ metadata stateBytes snapshot,
    checkImport P now n id compressed = .ok (metadata, stateBytes) →
    decodeSnapshot P reservedColumnFamilies stateBytes = .ok snapshot →
      ∀ bytes,
        bytes = C.toBytes (snapshotOf (importSnapshot P now n id compressed).1.store
          (importedFamilies snapshot)) →
        P.sha256 bytes = P.sha256 stateBytes → bytes = stateBytes

theorem encodingCanonical (C : SnapshotCodec P) : EncodingCanonical C := by
  intro A B iterationA iterationB names names' hnames hopened
  refine ⟨_, _, serialize_ok.mpr ⟨fun name h => (hopened name h).1, rfl⟩,
    serialize_ok.mpr ⟨fun name h => (hopened name ((hnames name).mpr h)).2, rfl⟩, ?_⟩
  rw [toBytes_inj]
  simp [snapshotOf, ← sortedNames_congr hnames, entries_eq_iff, mem_sortedNames]

theorem restore_of_opened {B : Store} {bytes : Bytes} {reserved : List String}
    (hdecode : decodeSnapshot P reserved bytes = .ok snapshot)
    (hopened : ∀ e ∈ snapshot.entries, B.opened e.1 = true) :
    (restore P B bytes reserved).2 = .ok snapshot.entries.length ∧
      ∀ family key, (restore P B bytes reserved).1.read family key =
        (lastWrite snapshot.entries family key).or (B.read family key) := by
  have hwritten : (B.putAll snapshot.entries 0).2 = .ok snapshot.entries.length :=
    putAll_ok_iff.mpr ⟨hopened, (zero_add _).symm⟩
  simp only [restore, hdecode]
  refine ⟨?_, fun family key => ?_⟩
  · rw [hwritten]
    rfl
  · rw [read_putAll, writable_of_opened hopened]

theorem decodeSnapshot_snapshotOf {reserved : List String}
    (hreserved : ∀ name ∈ names, name ∉ reserved)
    (hverified : ∀ name ∈ names, ∀ key value, store.read name key = some value →
      P.verifyEntry name key value = true) :
    decodeSnapshot P reserved (C.toBytes (snapshotOf store names)) =
      .ok (snapshotOf store names) := by
  refine decodeSnapshot_ok.mpr ⟨C.fromBytes_toBytes _, fun family hfamily => ?_,
    fun family hfamily entry hentry => ?_⟩
  · exact hreserved family.1 (of_mem_snapshotOf hfamily).1
  · obtain ⟨hname, hrows⟩ := of_mem_snapshotOf hfamily
    rw [hrows] at hentry
    exact hverified family.1 hname entry.1 entry.2 (mem_entries.mp hentry)

theorem encodingFaithful (C : SnapshotCodec P) : EncodingFaithful C := by
  intro A B iteration names reserved hnames hverified hempty
  have hdecode := decodeSnapshot_snapshotOf (C := C) (fun name h => (hnames name h).2.2) hverified
  have hopened : ∀ e ∈ (snapshotOf A names).entries, B.opened e.1 = true := fun e he =>
    (hnames e.1 (of_mem_snapshotOf (mem_entries_iff.mp he).choose_spec.1).1).2.1
  obtain ⟨hcount, hread⟩ := restore_of_opened hdecode hopened
  refine ⟨_, _, serialize_ok.mpr ⟨fun name h => (hnames name h).1, rfl⟩, hcount, ?_⟩
  intro family hfamily key
  rw [hread, lastWrite_snapshotOf hfamily, hempty family hfamily, Option.or_none]

variable {now : Timestamp} {n : SnapshotNode} {id : SnapshotId} {compressed stateBytes : Bytes}
  {metadata : SnapshotMetadata}

/-- The rows of a store in the families that a snapshot lists, after the entries of the snapshot
were added to those of another store. -/
def Merged (store after : Store) (snapshot : StateSnapshot) : Prop :=
  ∀ family ∈ snapshot.columnFamilies, ∀ key, after.read family.1 key =
    (ColumnStore.lastWrite snapshot.entries family.1 key).or (store.read family.1 key)

theorem snapshotOf_merged_iff {after : Store} (hmerged : Merged store after snapshot) :
    snapshotOf after (importedFamilies snapshot) = snapshot ↔
      Ascending snapshot ∧ ∀ family ∈ snapshot.columnFamilies, ∀ key value,
        store.read family.1 key = some value → ∃ value', (key, value') ∈ family.2 := by
  constructor
  · intro h
    refine ⟨h ▸ ascending_snapshotOf after _, fun family hfamily key value hvalue => ?_⟩
    have hkept : ∃ value', after.read family.1 key = some value' := by
      rw [hmerged family hfamily key, hvalue]
      cases lastWrite snapshot.entries family.1 key <;> exact ⟨_, rfl⟩
    obtain ⟨value', hvalue'⟩ := hkept
    have hrows : family.2 = after.entries keyOrder keyOrder_injective family.1 :=
      (of_mem_snapshotOf (h.symm ▸ hfamily)).2
    exact ⟨value', hrows ▸ mem_entries.mpr hvalue'⟩
  · rintro ⟨hascending, hnothing⟩
    refine snapshotOf_eq_of_ascending hascending fun family hfamily key value => ?_
    have hlast {v : Bytes} : lastWrite snapshot.entries family.1 key = some v ↔
        (key, v) ∈ family.2 := hascending.lastWrite_iff hfamily
    rw [hmerged family hfamily key]
    cases hwritten : lastWrite snapshot.entries family.1 key with
    | some => rw [Option.some_or, ← hwritten, hlast]
    | none =>
      -- a row that is not written was not there before either
      rw [← hlast, hwritten]
      refine iff_of_false (Option.some_ne_none value).symm fun hvalue => ?_
      obtain ⟨value', hmem⟩ := hnothing family hfamily key value hvalue
      rw [← hlast, hwritten] at hmem
      cases hmem

/-- Bytes that encode the imported families are the announced ones exactly if the snapshot can
be read back out of the store. -/
theorem toBytes_eq_stateBytes_iff {after : Store} (hmerged : Merged n.store after snapshot)
    (hdecode : decodeSnapshot P reservedColumnFamilies stateBytes = .ok snapshot) :
    C.toBytes (snapshotOf after (importedFamilies snapshot)) = stateBytes ↔
      stateBytes = C.toBytes snapshot ∧ Ascending snapshot ∧
        ∀ family ∈ snapshot.columnFamilies, ∀ key value,
          n.store.read family.1 key = some value → ∃ value', (key, value') ∈ family.2 := by
  rw [← snapshotOf_merged_iff hmerged]
  constructor
  · intro h
    have hdecoded := (decodeSnapshot_ok.mp hdecode).1
    rw [← h, C.fromBytes_toBytes, Option.some.injEq] at hdecoded
    exact ⟨by rw [← h, hdecoded], hdecoded⟩
  · rintro ⟨hbytes, hback⟩
    rw [hback, hbytes]

theorem reproduces_iff (C : SnapshotCodec P) (hfree : CollisionFree C now n id compressed) :
    Reproduces C now n id compressed ↔ ImportsCanonical C now n id compressed := by
  have houtcome := importSnapshot_outcome P now n id compressed
  unfold Reproduces
  unfold CollisionFree at hfree
  generalize importSnapshot P now n id compressed = result at houtcome hfree ⊢
  cases houtcome with
  | refused e hrefused =>
    refine iff_of_true (fun hok => by cases hok) fun metadata stateBytes snapshot hcheck
      hdecode => ?_
    exact absurd ⟨stateBytes, hcheck, hdecode⟩ (hrefused metadata snapshot)
  | broken metadata snapshot hpasses hfamilies =>
    refine iff_of_true (fun hok => by cases hok) ?_
    intro metadata' stateBytes snapshot' hcheck hdecode hhas
    obtain ⟨rfl, rfl⟩ := passes_unique hpasses ⟨stateBytes, hcheck, hdecode⟩
    exact absurd hhas hfamilies
  | imported metadata snapshot after hpasses hfamilies hput =>
    have hmerged : Merged n.store after snapshot := by
      obtain ⟨stateBytes, -, hdecode⟩ := hpasses
      intro family hfamily key
      refine read_imported hfamilies (fun hrow => ?_) hput
      exact (decodeSnapshot_ok.mp hdecode).2.1 family hfamily (mem_reserved_iff.mpr (.inr hrow.1))
    have hopened : after.opened = n.store.opened := by
      rw [(put_ok hput).2]
      exact opened_putAll _ _ _
    constructor
    · intro h metadata' stateBytes snapshot' hcheck hdecode _
      obtain ⟨rfl, rfl⟩ := passes_unique hpasses ⟨stateBytes, hcheck, hdecode⟩
      obtain ⟨bytes, hserialized, hroot⟩ := h rfl metadata' snapshot' hpasses (.inOrder after)
      obtain ⟨hlisted, rfl⟩ := serialize_ok.mp hserialized
      have hbytes := hfree metadata' stateBytes snapshot' hcheck hdecode _ rfl
        (hroot.trans (checkImport_ok hcheck).root.symm)
      obtain ⟨hcanonical, hascending, hnothing⟩ :=
        (toBytes_eq_stateBytes_iff hmerged hdecode).mp hbytes
      refine ⟨hcanonical, hascending, fun family hfamily => ?_, hnothing⟩
      rw [← hopened]
      exact hlisted family.1 (List.mem_map_of_mem hfamily)
    · intro h _ metadata' snapshot' hpasses' iteration
      obtain ⟨rfl, rfl⟩ := passes_unique hpasses hpasses'
      obtain ⟨stateBytes, hcheck, hdecode⟩ := hpasses'
      obtain ⟨hcanonical, hascending, hlisted, hnothing⟩ :=
        h metadata' stateBytes snapshot' hcheck hdecode hfamilies
      refine ⟨_, serialize_ok.mpr ⟨fun name hname => ?_, rfl⟩, ?_⟩
      · obtain ⟨family, hfamily, rfl⟩ := List.mem_map.mp hname
        rw [hopened]
        exact hlisted family hfamily
      · rw [(toBytes_eq_stateBytes_iff hmerged hdecode).mpr ⟨hcanonical, hascending, hnothing⟩]
        exact (checkImport_ok hcheck).root

theorem snapshot_encoding_laws (P : SnapshotPlatform) (C : SnapshotCodec P) :
    EncodingCanonical C ∧ EncodingFaithful C ∧
      ∀ now n id compressed, CollisionFree C now n id compressed →
        (Reproduces C now n id compressed ↔ ImportsCanonical C now n id compressed) :=
  ⟨encodingCanonical C, encodingFaithful C, fun _ _ _ _ hfree => reproduces_iff C hfree⟩

def entryBytes : Bytes × Bytes → Bytes := pair frame frame

def familyBytes : String × List (Bytes × Bytes) → Bytes :=
  pair (fun name => frame (utf8 name)) (counted entryBytes)

def snapshotToBytes (snapshot : StateSnapshot) : Bytes :=
  counted familyBytes snapshot.columnFamilies

def readName : Reader String := readAs readFrame fun bytes => String.fromUTF8? ⟨⟨bytes⟩⟩

/-- Bytes after the snapshot are not looked at. -/
def snapshotFromBytes (bytes : Bytes) : Option StateSnapshot :=
  (readCounted (readPair readName (readCounted (readPair readFrame readFrame))) bytes).map
    fun r => ⟨r.1⟩

theorem fromUTF8_utf8 (s : String) : String.fromUTF8? ⟨⟨utf8 s⟩⟩ = some s :=
  dif_pos s.isValidUTF8

theorem snapshotFromBytes_toBytes (snapshot : StateSnapshot) :
    snapshotFromBytes (snapshotToBytes snapshot) = some snapshot := by
  have hname : Reads readName fun name => frame (utf8 name) := reads_as reads_frame fromUTF8_utf8
  have hfamilies := reads_counted (reads_pair hname
    (reads_counted (reads_pair reads_frame reads_frame)))
  have hread := hfamilies snapshot.columnFamilies []
  rw [List.append_nil] at hread
  exact congrArg (Option.map _) hread

def checksum (bytes : Bytes) : Digest := .filled (bytes.foldr (· + ·) 0)

def twoAdvertisements : StateSnapshot := ⟨[("advertisements", [([1], [5]), ([3], [7])])]⟩

def offered : Bytes := snapshotToBytes twoAdvertisements

def wireAnnouncement : SnapshotMetadata :=
  { Sample.announcement 1 with stateRoot := checksum offered, sizeBytes := offered.length }

def wirePlatform : SnapshotPlatform :=
  { Sample.platform with
    sha256 := checksum
    metadataFromBytes := fun _ => some wireAnnouncement
    snapshotFromBytes := snapshotFromBytes }

def postcard : SnapshotCodec wirePlatform := ⟨snapshotToBytes, snapshotFromBytes_toBytes⟩

theorem advertisements_not_reserved : "advertisements" ∉ reservedColumnFamilies := by decide

def listener : SnapshotNode := run (step wirePlatform) Sample.start (Sample.joining 1)

def holder : SnapshotNode :=
  after wirePlatform listener (.domainPut ⟨"advertisements", advertisements_not_reserved⟩ [2] [9])

def threeAdvertisements : StateSnapshot :=
  ⟨[("advertisements", [([1], [5]), ([2], [9]), ([3], [7])])]⟩

/-- The import succeeds, but the family does not encode to the announced root. -/
theorem import_keeps_other_rows :
    (importSnapshot wirePlatform 0 holder ⟨"first"⟩ offered).2 = .ok 2 ∧
      (serialize postcard
        (.inOrder (importSnapshot wirePlatform 0 holder ⟨"first"⟩ offered).1.store)
          (importedFamilies twoAdvertisements)).toOption =
        some (snapshotToBytes threeAdvertisements) ∧
      checksum (snapshotToBytes threeAdvertisements) ≠ wireAnnouncement.stateRoot := by
  decide +kernel

theorem checkImport_listener : checkImport wirePlatform 0 listener ⟨"first"⟩ offered =
    .ok (wireAnnouncement, offered) := by
  decide +kernel

theorem decodeSnapshot_offered : decodeSnapshot wirePlatform reservedColumnFamilies offered =
    .ok twoAdvertisements := by
  decide +kernel

theorem collisionFree_listener : CollisionFree postcard 0 listener ⟨"first"⟩ offered := by
  intro metadata stateBytes snapshot hcheck hdecode bytes hbytes _
  rw [checkImport_listener] at hcheck
  cases hcheck
  rw [decodeSnapshot_offered] at hdecode
  cases hdecode
  rw [hbytes]
  decide +kernel

theorem importsCanonical_listener : ImportsCanonical postcard 0 listener ⟨"first"⟩ offered := by
  intro metadata stateBytes snapshot hcheck hdecode _
  rw [checkImport_listener] at hcheck
  cases hcheck
  rw [decodeSnapshot_offered] at hdecode
  cases hdecode
  have hempty : listener.store.entries keyOrder keyOrder_injective "advertisements" = [] := by
    decide +kernel
  have hfamily {family : String × List (Bytes × Bytes)}
      (h : family ∈ twoAdvertisements.columnFamilies) :
        family = ("advertisements", [([1], [5]), ([3], [7])]) :=
    List.mem_singleton.mp h
  refine ⟨rfl, ⟨List.pairwise_singleton _ _, fun family h => ?_⟩, fun family h => ?_,
    fun family h key value hvalue => ?_⟩
  · rw [hfamily h]
    decide +kernel
  · rw [hfamily h]
    decide +kernel
  · rw [hfamily h] at hvalue
    have hmem : (key, value) ∈ listener.store.entries keyOrder keyOrder_injective
        "advertisements" := mem_entries.mpr hvalue
    rw [hempty] at hmem
    cases hmem

theorem snapshot_encoding_laws_listener :
    (importSnapshot wirePlatform 0 listener ⟨"first"⟩ offered).2 = .ok 2 ∧
      Reproduces postcard 0 listener ⟨"first"⟩ offered :=
  ⟨by decide +kernel, ((snapshot_encoding_laws wirePlatform postcard).2.2 0 listener ⟨"first"⟩
    offered collisionFree_listener).mpr importsCanonical_listener⟩

end OpenFiat.SnapshotEncoding
