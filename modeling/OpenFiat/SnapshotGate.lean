import OpenFiat.SnapshotImport

/-!
# What a node imports over time

Over every run of a node that starts without announcements and without a checkpoint, whatever
is imported was announced and signed by its producer. The producer of the first snapshot is a
trust anchor, and every later one is an anchor or has a stake that qualifies. The checkpoint
moves with the imports that succeed, always forward, and with nothing else.

The index holds verified announcements only: nothing but an accepted announcement writes to it.
-/
namespace OpenFiat.SnapshotGate
open GuardedResult NodePayloads WireBytes GossipEvents TransactionRuns SnapshotIndex
open ColumnStores.ColumnStore
  SnapshotImport

variable {P : SnapshotPlatform} {now : Timestamp} {n n' : SnapshotNode} {id : SnapshotId}
  {compressed : Bytes} {metadata : SnapshotMetadata} {event : Event}

theorem applyAnnounce_ok {signed : Signed SnapshotMetadata}
    (h : applyAnnounce P now n signed = .ok n') :
    verifyAnnounce P signed = .ok () ∧ n' = { n with
      store := attempt n.store (n.store.put snapshotsColumnFamily (utf8 signed.payload.id.id)
        (P.metadataToBytes signed.payload)) } := by
  simp only [applyAnnounce, bind_ok, require_ok, pure_ok, exists_const] at h
  obtain ⟨_, hverify, -, -, -, -, rfl⟩ := h
  exact ⟨hverify, rfl⟩

/-- An announcement that pruning keeps. -/
def survives (held : List SnapshotMetadata) (m : SnapshotMetadata) : Bool :=
  (newest held m.producer).any (·.id = m.id)

theorem read_pruneOne (held : List SnapshotMetadata) (acc : Store × ℕ) (m : SnapshotMetadata)
    (family : String) (key : Bytes) : (pruneOne held acc m).1.read family key =
      if survives held m = false ∧ family = snapshotsColumnFamily ∧ key = utf8 m.id.id then none
      else acc.1.read family key := by
  have hstore : (pruneOne held acc m).1 = if survives held m = true then acc.1
      else attempt acc.1 (acc.1.delete snapshotsColumnFamily (utf8 m.id.id)) := by
    unfold pruneOne survives
    split_ifs
    · rfl
    · cases acc.1.delete snapshotsColumnFamily (utf8 m.id.id) <;> rfl
  rw [hstore]
  cases survives held m
  · simp [read_attempt_delete]
  · simp

/-- Pruning deletes the rows of the announcements that do not survive, and nothing else. -/
theorem read_foldl_pruneOne (held l : List SnapshotMetadata) (acc : Store × ℕ) (family : String)
    (key : Bytes) : (l.foldl (pruneOne held) acc).1.read family key =
      if ∃ m ∈ l, survives held m = false ∧ family = snapshotsColumnFamily ∧ key = utf8 m.id.id
      then none else acc.1.read family key := by
  induction l generalizing acc with
  | nil => simp
  | cons m l ih =>
    rw [List.foldl_cons, ih, read_pruneOne, ← ite_or]
    exact if_congr (by simp [or_comm]) rfl rfl

theorem ne_of_domainFamily (family : DomainFamily) {name : String}
    (h : name ∈ reservedColumnFamilies) : name ≠ family.name :=
  fun heq => family.not_reserved (heq ▸ h)

/-- Nothing but a successful import moves the checkpoint. -/
theorem checkpointSlot_after (h : imports P n event = false) :
    checkpointSlot (after P n event) = checkpointSlot n := by
  have hreserved : checkpointColumnFamily ∈ reservedColumnFamilies :=
    mem_reserved_iff.mpr (.inr rfl)
  have hne : checkpointColumnFamily ≠ snapshotsColumnFamily := by decide
  rw [checkpointSlot, checkpointSlot]
  refine congrArg (Option.bind · _) ?_
  cases event with
  | announce now signed =>
    rw [after]
    cases hannounce : applyAnnounce P now n signed with
    | error => rfl
    | ok =>
      rw [(applyAnnounce_ok hannounce).2]
      exact read_attempt_put_of_ne hne
  | importing =>
    rw [imports] at h
    rcases read_reserved_import hreserved checkpointKey with hsame | ⟨hok, -⟩
    · exact hsame
    · rw [h] at hok
      cases hok
  | pruneSuperseded =>
    refine (read_foldl_pruneOne _ _ _ _ _).trans (if_neg ?_)
    rintro ⟨_, _, _, h, _⟩
    exact hne h
  | observe | observeRequirement | forget => rfl
  | domainPut family =>
    exact read_attempt_put_of_ne (ne_of_domainFamily family hreserved)
  | domainDelete family =>
    exact read_attempt_delete.trans
      (if_neg fun h => ne_of_domainFamily family hreserved h.1)

theorem read_index_after (hevent : ∀ now signed, event ≠ .announce now signed) {key value : Bytes}
    (h : (after P n event).store.read snapshotsColumnFamily key = some value) :
    n.store.read snapshotsColumnFamily key = some value := by
  have hreserved : snapshotsColumnFamily ∈ reservedColumnFamilies :=
    mem_reserved_iff.mpr (.inl rfl)
  cases event with
  | announce now signed => exact absurd rfl (hevent now signed)
  | importing =>
    rcases read_reserved_import hreserved key with hsame | ⟨-, hfamily, -⟩
    · exact hsame.symm.trans h
    · exact absurd hfamily (by decide)
  | pruneSuperseded =>
    rw [after, pruneSuperseded, read_foldl_pruneOne] at h
    split_ifs at h
    exact h
  | observe | observeRequirement | forget => exact h
  | domainPut family =>
    rw [after, read_attempt_put_of_ne (ne_of_domainFamily family hreserved)] at h
    exact h
  | domainDelete family =>
    rw [after, read_attempt_delete] at h
    split_ifs at h
    exact h

/-- Every announcement on file lies under its id and is signed by its producer. -/
def Indexed (P : SnapshotPlatform) (n : SnapshotNode) : Prop :=
  ∀ key value metadata, n.store.read snapshotsColumnFamily key = some value →
    P.metadataFromBytes value = some metadata →
      key = utf8 metadata.id.id ∧ ∃ signature, verifyAnnounce P ⟨metadata, signature⟩ = .ok ()

/-- The stored form of an announcement reads back as the announcement. -/
def RoundTrips (P : SnapshotPlatform) : Event → Prop
  | .announce _ signed => P.metadataFromBytes (P.metadataToBytes signed.payload) =
      some signed.payload
  | _ => True

theorem indexed_after (hindexed : Indexed P n) (hwire : RoundTrips P event) :
    Indexed P (after P n event) := by
  intro key value metadata hread hdecode
  by_cases hevent : ∀ now signed, event ≠ .announce now signed
  · exact hindexed key value metadata (read_index_after hevent hread) hdecode
  · simp only [not_forall, not_not] at hevent
    obtain ⟨now, signed, rfl⟩ := hevent
    rw [after] at hread
    cases hannounce : applyAnnounce P now n signed with
    | error =>
      rw [hannounce] at hread
      exact hindexed key value metadata hread hdecode
    | ok =>
      obtain ⟨hverify, hstore⟩ := applyAnnounce_ok hannounce
      rw [hannounce, attempt, hstore] at hread
      cases hput : n.store.put snapshotsColumnFamily (utf8 signed.payload.id.id)
          (P.metadataToBytes signed.payload) with
      | error e =>
        rw [hput] at hread
        exact hindexed key value metadata hread hdecode
      | ok store =>
        rw [hput, attempt, read_of_put hput] at hread
        split_ifs at hread with hrow
        · rw [← Option.some.inj hread, hwire] at hdecode
          obtain rfl := Option.some.inj hdecode
          exact ⟨hrow.2, signed.signature, hverify⟩
        · exact hindexed key value metadata hread hdecode

def Fresh (n : SnapshotNode) : Prop :=
  ∀ family ∈ reservedColumnFamilies, ∀ key, n.store.read family key = none

/-- A reading of the producer's stake that is recent and large enough. -/
def Qualifies (s : ProviderStakes) (producer : PeerId) (now : Timestamp) : Prop :=
  s.enforced = true ∧ ∃ observation, s.seen.lookup producer = some observation ∧
    now - observation.seenAt ≤ stakeObservationTtl ∧
    minimumProviderStake ≤ observation.amount ∧ s.required ≤ observation.amount

theorem qualifies_of_standing {s : ProviderStakes} {producer : PeerId}
    (h : s.standing producer now = .qualified) : Qualifies s producer now := by
  unfold ProviderStakes.standing at h
  split_ifs at h with henforced
  cases hseen : s.seen.lookup producer with
  | none =>
    rw [hseen] at h
    cases h
  | some observation =>
    simp only [hseen] at h
    split_ifs at h with hold hheld
    exact ⟨henforced, observation, hseen, not_lt.mp hold, s.minimum_le.trans hheld, hheld⟩

/-- What holds of an announcement that a node imports. `earlier` says that the node has imported
before. -/
structure GatedImport (P : SnapshotPlatform) (earlier : Prop) (now : Timestamp) (n : SnapshotNode)
    (id : SnapshotId) (compressed : Bytes) (metadata : SnapshotMetadata) : Prop where
  id_eq : metadata.id = id
  signed : ∃ signature, verifyAnnounce P ⟨metadata, signature⟩ = .ok ()
  registered : isRegisteredProvider P n metadata.producer = true
  first : ¬ earlier → metadata.producer ∈ P.anchors
  staked : metadata.producer ∈ P.anchors ∨ Qualifies n.stakes metadata.producer now
  root : ∃ stateBytes, decompress P compressed metadata.compression = .ok stateBytes ∧
    P.sha256 stateBytes = metadata.stateRoot
  forward : ∀ slot, checkpointSlot n = some slot → slot < metadata.slot
  recorded : checkpointSlot (importSnapshot P now n id compressed).1 = some metadata.slot

/-- The gate at a node: only gated imports succeed, nothing else moves the checkpoint, and of
the reserved rows an import writes the checkpoint only, to the announced slot. -/
structure Gate (P : SnapshotPlatform) (earlier : Prop) (n : SnapshotNode) : Prop where
  imported : ∀ now id compressed, (importSnapshot P now n id compressed).2.isOk = true →
    ∃ metadata, GatedImport P earlier now n id compressed metadata
  unmoved : ∀ event, imports P n event = false →
    checkpointSlot (after P n event) = checkpointSlot n
  reserved : ∀ now id compressed, ∀ family ∈ reservedColumnFamilies, ∀ key,
    (importSnapshot P now n id compressed).1.store.read family key = n.store.read family key ∨
      (importSnapshot P now n id compressed).2.isOk = true ∧
        family = checkpointColumnFamily ∧ key = checkpointKey ∧
        ∃ metadata, get P n id = some metadata ∧
          (importSnapshot P now n id compressed).1.store.read family key =
            some (littleEndian 8 metadata.slot.toNat)

section Runs
variable {n₀ : SnapshotNode} {events : List Event}

theorem run_indexed (hfresh : Fresh n₀) (hwire : ∀ event ∈ events, RoundTrips P event) :
    Indexed P (run (step P) n₀ events) := by
  have hstart : Indexed P n₀ := by
    intro key value metadata hread
    rw [hfresh _ (mem_reserved_iff.mpr (.inl rfl)) key] at hread
    cases hread
  have hstep (n : SnapshotNode) (event : Event) (n' : SnapshotNode) (h : Indexed P n)
      (hok : step P n event = .ok n') (hwire : RoundTrips P event) : Indexed P n' := by
    rw [← Except.ok.inj hok]
    exact indexed_after h hwire
  exact run_invariant (G := fun t => RoundTrips P t.label) hstep hstart events fun t ht =>
    hwire t.label (label_mem_of_mem ht)

theorem run_checkpointSlot (hfresh : Fresh n₀)
    (hnone : ¬ ∃ t ∈ transitions (step P) n₀ events, imports P t.before t.label = true) :
    checkpointSlot (run (step P) n₀ events) = none := by
  have hstart : checkpointSlot n₀ = none := by
    rw [checkpointSlot, hfresh _ (mem_reserved_iff.mpr (.inr rfl)) checkpointKey]
    rfl
  have hstep (n : SnapshotNode) (event : Event) (n' : SnapshotNode) (h : checkpointSlot n = none)
      (hok : step P n event = .ok n') (himports : imports P n event = false) :
      checkpointSlot n' = none := by
    rw [← Except.ok.inj hok, checkpointSlot_after himports, h]
  refine run_invariant (G := fun t => imports P t.before t.label = false) hstep hstart events ?_
  intro t ht
  exact Bool.eq_false_iff.mpr fun himports => hnone ⟨t, ht, himports⟩

end Runs

/-- The gate holds after every run of a fresh node. -/
theorem import_gated (P : SnapshotPlatform) (n₀ : SnapshotNode) (events : List Event)
    (hfresh : Fresh n₀) (hwire : ∀ event ∈ events, RoundTrips P event) :
    Gate P (∃ t ∈ transitions (step P) n₀ events, imports P t.before t.label = true)
      (run (step P) n₀ events) := by
  refine ⟨fun now id compressed hok => ?_, fun event => checkpointSlot_after,
    fun now id compressed family hfamily key => read_reserved_import hfamily key⟩
  obtain ⟨metadata, stateBytes, hadmitted, hrecorded⟩ := admitted_of_import hok
  obtain ⟨value, hread, hdecode⟩ := Option.bind_eq_some_iff.mp hadmitted.announced
  obtain ⟨hkey, hsigned⟩ := run_indexed hfresh hwire _ value metadata hread hdecode
  refine ⟨metadata, ?_, hsigned, hadmitted.registered, fun hnone => ?_, ?_,
    ⟨stateBytes, hadmitted.unpacked, hadmitted.root⟩, hadmitted.newer, hrecorded⟩
  · exact congrArg SnapshotId.mk (utf8_injective hkey).symm
  · exact hadmitted.first (run_checkpointSlot hfresh hnone)
  · exact hadmitted.staked.imp_right qualifies_of_standing

section Witness
open Sample

theorem fresh_start : Fresh start := by
  intro family _ key
  rw [read_eq]
  exact ite_self none

theorem roundTrips_twoProducers : ∀ event ∈ twoProducers, RoundTrips platform event := by
  intro event hevent
  simp only [twoProducers, joining, List.cons_append, List.nil_append, List.mem_cons,
    List.not_mem_nil, or_false] at hevent
  rcases hevent with rfl | rfl | rfl | rfl | rfl | rfl
  · trivial
  · rfl
  · trivial
  · rfl
  · trivial
  · trivial

/-- The second snapshot comes from a producer who is staked but not an anchor. -/
theorem import_gated_second :
    (importSnapshot platform 0 (run (step platform) start twoProducers) ⟨"second"⟩ [2]).2.isOk =
        true ∧
      Gate platform
        (∃ t ∈ transitions (step platform) start twoProducers,
          imports platform t.before t.label = true)
        (run (step platform) start twoProducers) :=
  ⟨by decide +kernel, import_gated platform start twoProducers fresh_start roundTrips_twoProducers⟩

end Witness

end OpenFiat.SnapshotGate
