import OpenFiat.SnapshotGate
import OpenFiat.DeliveredRecords

/-!
# Superseded announcements

Pruning keeps, of every producer, the announcement that is newest by slot and then by time of
creation. Announcements lie in the store under their ids, so no two of them share one.
-/
namespace OpenFiat.SnapshotPruning
open NodePayloads GossipEvents ColumnStores DeliveredRecords SnapshotIndex SnapshotGate

/-- The announcement of the highest slot, the last of several in the order of the store. -/
def latest (P : SnapshotPlatform) (n : SnapshotNode) : Option SnapshotMetadata :=
  (all P n).reverse.foldl (settle (greatest (·.slot.toNat))) none

/-- Every announcement on file lies under its id. -/
def Filed (P : SnapshotPlatform) (n : SnapshotNode) : Prop :=
  ∀ key value m, n.store.read snapshotsColumnFamily key = some value →
    P.metadataFromBytes value = some m → key = utf8 m.id.id

variable {P : SnapshotPlatform} {n : SnapshotNode} {m m' : SnapshotMetadata}
  {held : List SnapshotMetadata}

theorem mem_all_iff (h : Filed P n) : m ∈ all P n ↔ SnapshotIndex.get P n m.id = some m := by
  simp only [all, SnapshotIndex.get, List.mem_filterMap, Option.bind_eq_some_iff, Prod.exists,
    ColumnStore.mem_entries]
  constructor
  · rintro ⟨key, value, hread, hdecode⟩
    exact ⟨value, h key value m hread hdecode ▸ hread, hdecode⟩
  · rintro ⟨value, hread, hdecode⟩
    exact ⟨_, value, hread, hdecode⟩

theorem eq_of_id (h : Filed P n) (hm : m ∈ all P n) (hm' : m' ∈ all P n) (hid : m.id = m'.id) :
    m = m' := by
  rw [mem_all_iff h] at hm hm'
  rw [hid, hm'] at hm
  exact (Option.some.inj hm).symm

theorem latest_slot {slot : UInt64} : (latest P n).map (·.slot) = some slot ↔
    (∃ m ∈ all P n, m.slot = slot) ∧ ∀ m ∈ all P n, m.slot.toNat ≤ slot.toNat := by
  have hgreatest : Greatest (·.slot.toNat) (all P n).reverse (latest P n) := greatest_foldl _ _
  cases hlatest : latest P n with
  | none =>
    rw [hlatest] at hgreatest
    simp [List.reverse_eq_nil_iff.mp hgreatest]
  | some b =>
    rw [hlatest] at hgreatest
    obtain ⟨hb, hmax⟩ := hgreatest
    simp only [List.mem_reverse] at hb hmax
    constructor
    · rintro ⟨⟩
      exact ⟨⟨b, hb, rfl⟩, hmax⟩
    · rintro ⟨⟨m, hm, rfl⟩, hle⟩
      exact congrArg some (UInt64.toNat_inj.mp (le_antisymm (hle b hb) (hmax m hm)))

theorem newest_greatest (held : List SnapshotMetadata) (producer : PeerId) :
    Greatest recency (held.filter (·.producer = producer)) (newest held producer) := by
  have hfold : newest held producer =
      (held.filter (·.producer = producer)).foldl (settle (greatest recency)) none := by
    rw [List.foldl_filter]
    refine congrArg (fun f => held.foldl f none) (funext₂ fun best a => ?_)
    cases best <;> simp [settle, greatest]
  rw [hfold]
  exact greatest_foldl _ _

theorem exists_newest (hm : m ∈ held) : ∃ k ∈ held, newest held m.producer = some k ∧
    k.producer = m.producer ∧ ∀ a ∈ held, a.producer = m.producer → recency a ≤ recency k := by
  have hgreatest := newest_greatest held m.producer
  cases hnewest : newest held m.producer with
  | none =>
    rw [hnewest] at hgreatest
    exact absurd (List.mem_filter.mpr ⟨hm, decide_eq_true rfl⟩) (hgreatest ▸ List.not_mem_nil)
  | some k =>
    rw [hnewest] at hgreatest
    obtain ⟨hk, hmax⟩ := hgreatest
    obtain ⟨hmem, hproducer⟩ := List.mem_filter.mp hk
    exact ⟨k, hmem, rfl, of_decide_eq_true hproducer, fun a ha hproducer =>
      hmax a (List.mem_filter.mpr ⟨ha, decide_eq_true hproducer⟩)⟩

theorem survives_iff (h : Filed P n) (hm : m ∈ all P n) :
    survives (all P n) m = true ↔ newest (all P n) m.producer = some m := by
  obtain ⟨k, hk, hnewest, -⟩ := exists_newest hm
  simp only [survives, hnewest, Option.any_some, decide_eq_true_eq, Option.some.injEq]
  exact ⟨eq_of_id h hk hm, congrArg _⟩

theorem count_foldl_pruneOne (l : List SnapshotMetadata) (s : Store) (count : ℕ)
    (hopened : s.opened snapshotsColumnFamily = true) :
    (l.foldl (pruneOne held) (s, count)).2 = count + l.countP fun m => !survives held m := by
  induction l generalizing s count with
  | nil => rfl
  | cons m l ih =>
    by_cases hm : survives held m = true
    · have hstep : pruneOne held (s, count) m = (s, count) := if_pos hm
      simp [hstep, hm, ih s count hopened]
    · let s' : Store := { s with rows := s.rows.erase (snapshotsColumnFamily, utf8 m.id.id) }
      have hstep : pruneOne held (s, count) m = (s', count + 1) := by
        refine (if_neg hm).trans ?_
        rw [ColumnStore.delete, if_pos hopened]
      rw [List.foldl_cons, hstep, ih s' (count + 1) hopened,
        List.countP_cons_of_pos (by simp [hm])]
      omega

theorem foldl_pruneOne_survivors {acc : Store × ℕ} {l : List SnapshotMetadata}
    (h : ∀ m ∈ l, survives held m = true) : l.foldl (pruneOne held) acc = acc := by
  induction l with
  | nil => rfl
  | cons m l ih =>
    obtain ⟨hm, hl⟩ := List.forall_mem_cons.mp h
    rw [List.foldl_cons, show pruneOne held acc m = acc from if_pos hm, ih hl]

theorem mem_all_pruned (h : Filed P n) :
    m ∈ all P (pruneSuperseded P n).1 ↔ m ∈ all P n ∧ newest (all P n) m.producer = some m := by
  have hread := read_foldl_pruneOne (all P n) (all P n) (n.store, 0) snapshotsColumnFamily
  have hfiled : Filed P (pruneSuperseded P n).1 := by
    intro key value m hvalue
    rw [pruneSuperseded, hread] at hvalue
    split_ifs at hvalue
    exact h key value m hvalue
  rw [mem_all_iff hfiled, SnapshotIndex.get, pruneSuperseded, hread]
  split_ifs with hdropped
  · obtain ⟨m', hm', hsurvives, -, hid⟩ := hdropped
    refine iff_of_false (by simp) fun hm => ?_
    obtain rfl := eq_of_id h hm.1 hm' (congrArg SnapshotId.mk (utf8_injective hid))
    rw [(survives_iff h hm').mpr hm.2] at hsurvives
    cases hsurvives
  · refine (mem_all_iff h).symm.trans ⟨fun hm => ⟨hm, ?_⟩, And.left⟩
    rw [← survives_iff h hm]
    by_contra hsurvives
    exact hdropped ⟨m, hm, Bool.eq_false_iff.mpr hsurvives, rfl, rfl⟩

theorem opened_of_mem (hm : m ∈ all P n) : n.store.opened snapshotsColumnFamily = true := by
  obtain ⟨e, he, -⟩ := List.mem_filterMap.mp hm
  have hread := ColumnStore.mem_entries.mp he
  rw [ColumnStore.read_eq] at hread
  split_ifs at hread with hopened
  exact hopened

/-- Pruning keeps of every producer one announcement, the newest, and with them the highest slot.
It returns how many it removed, and a second pruning changes nothing. -/
theorem best_kept (P : SnapshotPlatform) (n : SnapshotNode) (h : Filed P n) :
    (∀ m ∈ all P n, ∃! k, k ∈ all P (pruneSuperseded P n).1 ∧ k.producer = m.producer) ∧
    (∀ k ∈ all P (pruneSuperseded P n).1, k ∈ all P n ∧
      ∀ m ∈ all P n, m.producer = k.producer → recency m ≤ recency k) ∧
    (latest P (pruneSuperseded P n).1).map (·.slot) = (latest P n).map (·.slot) ∧
    (pruneSuperseded P n).2 =
      (all P n).countP (fun m => m ∉ all P (pruneSuperseded P n).1) ∧
    pruneSuperseded P (pruneSuperseded P n).1 = ((pruneSuperseded P n).1, 0) := by
  have hbest {m : SnapshotMetadata} (hm : m ∈ all P n) :
      ∃ k ∈ all P (pruneSuperseded P n).1, k.producer = m.producer ∧
        ∀ a ∈ all P n, a.producer = m.producer → recency a ≤ recency k := by
    obtain ⟨k, hk, hnewest, hproducer, hmax⟩ := exists_newest hm
    exact ⟨k, (mem_all_pruned h).mpr ⟨hk, hproducer ▸ hnewest⟩, hproducer, hmax⟩
  have hunique {k k' : SnapshotMetadata} (hk : k ∈ all P (pruneSuperseded P n).1)
      (hk' : k' ∈ all P (pruneSuperseded P n).1) (hproducer : k.producer = k'.producer) :
      k = k' := by
    have hnewest := ((mem_all_pruned h).mp hk).2
    rw [hproducer, ((mem_all_pruned h).mp hk').2] at hnewest
    exact (Option.some.inj hnewest).symm
  refine ⟨fun m hm => ?_, fun k hk => ?_, ?_, ?_, ?_⟩
  · obtain ⟨k, hk, hproducer, -⟩ := hbest hm
    exact ⟨k, ⟨hk, hproducer⟩, fun k' hk' => hunique hk'.1 hk (hk'.2.trans hproducer.symm)⟩
  · have hmem := ((mem_all_pruned h).mp hk).1
    obtain ⟨k', hk', hproducer, hmax⟩ := hbest hmem
    rw [hunique hk' hk hproducer] at hmax
    exact ⟨hmem, hmax⟩
  · refine Option.ext fun slot => ?_
    rw [latest_slot, latest_slot]
    have hsub {k : SnapshotMetadata} (hk : k ∈ all P (pruneSuperseded P n).1) :=
      ((mem_all_pruned h).mp hk).1
    have habove {m : SnapshotMetadata} (hm : m ∈ all P n) :
        ∃ k ∈ all P (pruneSuperseded P n).1, m.slot.toNat ≤ k.slot.toNat := by
      obtain ⟨k, hk, -, hmax⟩ := hbest hm
      exact ⟨k, hk, Prod.Lex.monotone_fst _ _ (hmax m hm rfl)⟩
    constructor
    · rintro ⟨⟨k, hk, rfl⟩, hle⟩
      refine ⟨⟨k, hsub hk, rfl⟩, fun m hm => ?_⟩
      obtain ⟨k', hk', hge⟩ := habove hm
      exact hge.trans (hle k' hk')
    · rintro ⟨⟨m, hm, rfl⟩, hle⟩
      obtain ⟨k, hk, hge⟩ := habove hm
      exact ⟨⟨k, hk, UInt64.toNat_inj.mp (le_antisymm (hle k (hsub hk)) hge)⟩,
        fun k hk => hle k (hsub hk)⟩
  · by_cases hnil : all P n = []
    · simp [pruneSuperseded, hnil]
    · obtain ⟨m, hm⟩ := List.exists_mem_of_ne_nil _ hnil
      refine (count_foldl_pruneOne _ _ _ (opened_of_mem hm)).trans ?_
      rw [Nat.zero_add]
      refine List.countP_congr fun m hm => ?_
      rw [decide_eq_true_eq, mem_all_pruned h, ← survives_iff h hm]
      simp [hm]
  · have hsurvive : ∀ k ∈ all P (pruneSuperseded P n).1,
        survives (all P (pruneSuperseded P n).1) k = true := by
      intro k hk
      obtain ⟨k', hk', hnewest, hproducer, -⟩ := exists_newest hk
      rw [survives, hnewest, hunique hk' hk hproducer]
      exact decide_eq_true rfl
    rw [pruneSuperseded, foldl_pruneOne_survivors hsurvive]

section Witness
open SnapshotImport.Sample TransactionRuns SnapshotImport

/-- The first producer announces a later state. -/
def threeAnnouncements : List Event := twoProducers ++ [.announce 0 ⟨announcement 4, ⟨[]⟩⟩]

abbrev announced : SnapshotNode := run (step platform) start threeAnnouncements

/-- Of three announcements by two producers the older one of the first is deleted. -/
theorem best_kept_later :
    (all platform announced).length = 3 ∧ (pruneSuperseded platform announced).2 = 1 ∧
      pruneSuperseded platform (pruneSuperseded platform announced).1 =
        ((pruneSuperseded platform announced).1, 0) := by
  have htrips : ∀ event ∈ threeAnnouncements, RoundTrips platform event :=
    List.forall_mem_append.mpr ⟨roundTrips_twoProducers, List.forall_mem_singleton.mpr rfl⟩
  obtain ⟨-, -, -, -, hagain⟩ := best_kept platform announced
    fun key value m hread hdecode => (run_indexed fresh_start htrips key value m hread hdecode).1
  exact ⟨by decide +kernel, by decide +kernel, hagain⟩

end Witness

end OpenFiat.SnapshotPruning
