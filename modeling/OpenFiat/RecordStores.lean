import OpenFiat.FiniteTable

/-!
# Stores of records

A store keeps each record under the record's own id and lists its records in the order of the
ids. A sweep walks over that list and erases the records that are doomed; what it leaves is
listed in the old order.

Among the records of a list some may be replaced by others, and a record is in force if it is
sound and nothing on the list replaces it. So erasing records can do harm in two ways: a record
in force may go, and a record may come into force because everything that replaced it has gone.
`inForce_filter_eq_iff` says that there is no third way.
-/
namespace OpenFiat.RecordStores
open FiniteTable

section Sweep
variable {κ α ι : Type*} [DecidableEq κ] [LinearOrder ι] {order : κ → ι}
  {horder : Function.Injective order}

theorem pairwise_le_inOrder (t : Table κ α) :
    (t.inOrder order horder).Pairwise fun e e' => order e.1 ≤ order e'.1 :=
  Table.pairwise_rows ((Table.pairwise_ascending t.keys).imp le_of_lt) t.lookup

theorem inOrder_eq {t : Table κ α} {l : List (κ × α)}
    (hsorted : l.Pairwise fun e e' => order e.1 ≤ order e'.1)
    (hkeys : l.Pairwise fun e e' => e.1 ≠ e'.1)
    (hmem : ∀ k a, (k, a) ∈ l ↔ t.lookup k = some a) : t.inOrder order horder = l := by
  have hnodup {m : List (κ × α)} (h : m.Pairwise fun e e' => e.1 ≠ e'.1) : m.Nodup :=
    h.imp fun hne heq => hne (congrArg Prod.fst heq)
  have hperm : (t.inOrder order horder).Perm l := by
    refine (List.perm_ext_iff_of_nodup (hnodup (Table.pairwise_inOrder t)) (hnodup hkeys)).mpr ?_
    rintro ⟨k, a⟩
    rw [hmem k a]
    exact ⟨Table.lookup_of_mem_inOrder, Table.mem_inOrder⟩
  refine List.Perm.eq_of_pairwise ?_ (pairwise_le_inOrder t) hsorted hperm
  rintro ⟨k, a⟩ ⟨k', a'⟩ hka hka' hle hle'
  obtain rfl : k = k' := horder (le_antisymm hle hle')
  have ha := Table.lookup_of_mem_inOrder hka
  rw [(hmem k a').mp hka'] at ha
  rw [Option.some.inj ha]

theorem inOrder_filter_key (t : Table κ α) (k : κ) :
    (t.inOrder order horder).filter (fun e => e.1 = k) =
      ((t.lookup k).map fun a => (k, a)).toList := by
  have hmem (e : κ × α) : e ∈ (t.inOrder order horder).filter (fun e => e.1 = k) ↔
      t.lookup e.1 = some e.2 ∧ e.1 = k := by
    rw [List.mem_filter, decide_eq_true_eq]
    exact and_congr_left' ⟨Table.lookup_of_mem_inOrder, Table.mem_inOrder⟩
  cases hk : t.lookup k with
  | none =>
    refine List.eq_nil_iff_forall_not_mem.mpr fun e he => ?_
    obtain ⟨hlookup, hkey⟩ := (hmem e).mp he
    rw [hkey, hk] at hlookup
    cases hlookup
  | some a =>
    have hnodup : ((t.inOrder order horder).filter (fun e => e.1 = k)).Nodup :=
      ((Table.pairwise_inOrder t).filter _).imp fun hne heq => hne (congrArg Prod.fst heq)
    refine List.perm_singleton.mp
      ((List.perm_ext_iff_of_nodup hnodup (List.nodup_singleton (k, a))).mpr fun e => ?_)
    rw [hmem, List.mem_singleton]
    constructor
    · rintro ⟨hlookup, rfl⟩
      rw [Option.mem_unique hk hlookup]
    · rintro rfl
      exact ⟨hk, rfl⟩

variable (doomed : κ → α → Bool)

/-- One round of the sweep; the second component counts the records erased. -/
def sweepOne (acc : Table κ α × ℕ) (entry : κ × α) : Table κ α × ℕ :=
  if doomed entry.1 entry.2 then (acc.1.erase entry.1, acc.2 + 1) else acc

variable (order horder) in
def sweep (t : Table κ α) : Table κ α × ℕ :=
  (t.inOrder order horder).foldl (sweepOne doomed) (t, 0)

variable {doomed}

theorem lookup_foldl_sweepOne (l : List (κ × α)) (acc : Table κ α × ℕ) (k : κ) :
    (l.foldl (sweepOne doomed) acc).1.lookup k =
      if ∃ e ∈ l, e.1 = k ∧ doomed e.1 e.2 then none else acc.1.lookup k := by
  induction l generalizing acc with
  | nil => simp
  | cons e l ih =>
    rw [List.foldl_cons, ih]
    by_cases hrest : ∃ e' ∈ l, e'.1 = k ∧ doomed e'.1 e'.2
    · have hall : ∃ e' ∈ e :: l, e'.1 = k ∧ doomed e'.1 e'.2 :=
        hrest.imp fun e' h => ⟨List.mem_cons_of_mem e h.1, h.2⟩
      rw [if_pos hrest, if_pos hall]
    · rw [if_neg hrest]
      by_cases hdoomed : doomed e.1 e.2 = true
      · rw [sweepOne, if_pos hdoomed]
        by_cases hk : e.1 = k
        · rw [if_pos ⟨e, List.mem_cons_self, hk, hdoomed⟩, hk, Finmap.lookup_erase]
        · rw [Finmap.lookup_erase_ne (Ne.symm hk), if_neg]
          rintro ⟨e', he', hk', hdoomed'⟩
          rcases List.mem_cons.mp he' with rfl | he'
          · exact hk hk'
          · exact hrest ⟨e', he', hk', hdoomed'⟩
      · rw [sweepOne, if_neg hdoomed, if_neg]
        rintro ⟨e', he', hk', hdoomed'⟩
        rcases List.mem_cons.mp he' with rfl | he'
        · exact hdoomed hdoomed'
        · exact hrest ⟨e', he', hk', hdoomed'⟩

theorem lookup_sweep (t : Table κ α) (k : κ) :
    (sweep order horder doomed t).1.lookup k = (t.lookup k).filter fun a => !doomed k a := by
  rw [sweep, lookup_foldl_sweepOne]
  cases hk : t.lookup k with
  | none =>
    simp
  | some a =>
    by_cases hdoomed : doomed k a = true
    · rw [if_pos ⟨(k, a), Table.mem_inOrder hk, rfl, hdoomed⟩, Option.filter_some, hdoomed]
      rfl
    · rw [if_neg, Option.filter_some, Bool.eq_false_iff.mpr hdoomed]
      · rfl
      · rintro ⟨⟨j, b⟩, he, rfl, hdoomed'⟩
        rw [Table.lookup_of_mem_inOrder he] at hk
        exact hdoomed (Option.some.inj hk ▸ hdoomed')

theorem lookup_of_lookup_sweep {t : Table κ α} {k : κ} {a : α}
    (h : (sweep order horder doomed t).1.lookup k = some a) : t.lookup k = some a := by
  rw [lookup_sweep] at h
  exact (Option.filter_eq_some_iff.mp h).1

theorem inOrder_sweep (t : Table κ α) :
    (sweep order horder doomed t).1.inOrder order horder =
      (t.inOrder order horder).filter fun e => !doomed e.1 e.2 := by
  refine inOrder_eq ((pairwise_le_inOrder t).filter _) ((Table.pairwise_inOrder t).filter _) ?_
  intro k a
  rw [List.mem_filter, lookup_sweep, Option.filter_eq_some_iff]
  exact and_congr_left' ⟨Table.lookup_of_mem_inOrder, Table.mem_inOrder⟩

end Sweep

section First
variable {κ α ι : Type*} [DecidableEq κ] [LinearOrder ι] {order : κ → ι}
  {horder : Function.Injective order} {test : α → Bool} {t : Table κ α} {k : κ} {a : α}

variable (order horder test) in
def first (t : Table κ α) : Option (κ × α) := (t.inOrder order horder).find? fun e => test e.2

theorem first_spec (h : first order horder test t = some (k, a)) :
    t.lookup k = some a ∧ test a = true ∧
      ∀ k' a', t.lookup k' = some a' → test a' = true → order k ≤ order k' := by
  obtain ⟨htest, before, after, hsplit, hbefore⟩ := List.find?_eq_some_iff_append.mp h
  have hmem : (k, a) ∈ t.inOrder order horder :=
    hsplit ▸ List.mem_append_right before List.mem_cons_self
  refine ⟨Table.lookup_of_mem_inOrder hmem, htest, fun k' a' hk' htest' => ?_⟩
  have hmem' : (k', a') ∈ t.inOrder order horder := Table.mem_inOrder hk'
  have hsorted : (t.inOrder order horder).Pairwise fun e e' => order e.1 ≤ order e'.1 :=
    pairwise_le_inOrder t
  rw [hsplit] at hmem' hsorted
  rcases List.mem_append.mp hmem' with hearlier | hlater
  · have hfails := hbefore _ hearlier
    rw [htest'] at hfails
    cases hfails
  · rcases List.mem_cons.mp hlater with heq | hlater
    · rw [Prod.mk.inj heq |>.1]
    · exact (List.pairwise_cons.mp (List.pairwise_append.mp hsorted).2.1).1 _ hlater

theorem first_eq_some_iff : first order horder test t = some (k, a) ↔
    t.lookup k = some a ∧ test a = true ∧
      ∀ k' a', t.lookup k' = some a' → test a' = true → order k ≤ order k' := by
  refine ⟨first_spec, fun ⟨hk, htest, hleast⟩ => ?_⟩
  cases hfirst : first order horder test t with
  | none =>
    have hnone := List.find?_eq_none.mp hfirst (k, a) (Table.mem_inOrder hk)
    exact absurd htest hnone
  | some e =>
    obtain ⟨hk', htest', hleast'⟩ := first_spec hfirst
    have hkey : e.1 = k := horder (le_antisymm (hleast' k a hk htest) (hleast _ _ hk' htest'))
    rw [hkey, hk] at hk'
    rw [← hkey, Option.some.inj hk']

theorem first_congr {t' : Table κ α}
    (h : ∀ k a, test a = true → (t'.lookup k = some a ↔ t.lookup k = some a)) :
    first order horder test t' = first order horder test t := by
  refine Option.ext fun e => ?_
  rw [first_eq_some_iff, first_eq_some_iff]
  constructor
  · rintro ⟨hk, htest, hleast⟩
    exact ⟨(h _ _ htest).mp hk, htest, fun k' a' hk' htest' =>
      hleast k' a' ((h k' a' htest').mpr hk') htest'⟩
  · rintro ⟨hk, htest, hleast⟩
    exact ⟨(h _ _ htest).mpr hk, htest, fun k' a' hk' htest' =>
      hleast k' a' ((h k' a' htest').mp hk') htest'⟩

theorem first_insert_of_fails (hold : ∀ b, t.lookup k = some b → test b = false)
    (hnew : test a = false) :
    first order horder test (t.insert k a) = first order horder test t := by
  refine first_congr fun j b hb => ?_
  rw [Table.lookup_insert_eq]
  split_ifs with hj
  · subst hj
    constructor
    · intro heq
      rw [Option.some.inj heq, hb] at hnew
      cases hnew
    · intro heq
      have hfails := hold b heq
      rw [hb] at hfails
      cases hfails
  · rfl

/-- An earlier record that passes the test hides the one that is written. -/
theorem first_insert_of_earlier {k₀ : κ} {a₀ : α}
    (hk₀ : t.lookup k₀ = some a₀) (htest₀ : test a₀ = true) (hlt : order k₀ < order k) :
    first order horder test (t.insert k a) = first order horder test t := by
  have hshown {e : κ × α} (h : first order horder test t = some e) : order e.1 < order k :=
    ((first_spec h).2.2 k₀ a₀ hk₀ htest₀).trans_lt hlt
  cases hfirst : first order horder test t with
  | none =>
    exact absurd htest₀ (List.find?_eq_none.mp hfirst (k₀, a₀) (Table.mem_inOrder hk₀))
  | some e =>
    obtain ⟨hk, htest, hleast⟩ := first_spec hfirst
    have hne : e.1 ≠ k := fun heq => lt_irrefl _ (heq ▸ hshown hfirst)
    refine first_eq_some_iff.mpr ⟨?_, htest, fun k' a' hk' htest' => ?_⟩
    · rw [Finmap.lookup_insert_of_ne _ hne, hk]
    · rw [Table.lookup_insert_eq] at hk'
      split_ifs at hk' with hk''
      · rw [hk'']
        exact (hshown hfirst).le
      · exact hleast k' a' hk' htest'

theorem first_insert_of_least (hnew : test a = true)
    (hleast : ∀ k' a', t.lookup k' = some a' → test a' = true → order k ≤ order k') :
    first order horder test (t.insert k a) = some (k, a) := by
  refine first_eq_some_iff.mpr ⟨Finmap.lookup_insert _, hnew, fun k' a' hk' htest' => ?_⟩
  rw [Table.lookup_insert_eq] at hk'
  split_ifs at hk' with hk''
  · rw [hk'']
  · exact hleast k' a' hk' htest'

end First

structure RecordStore {κ α : Type*} [DecidableEq κ] (idOf : α → κ) where
  records : Table κ α
  keyed : ∀ k a, records.lookup k = some a → idOf a = k

namespace RecordStore
variable {κ α ι : Type*} [DecidableEq κ] [LinearOrder ι] {idOf : α → κ} {order : κ → ι}
  {horder : Function.Injective order}

theorem keyed_empty (k : κ) (a : α) (h : (∅ : Table κ α).lookup k = some a) : idOf a = k := by
  cases h

def empty : RecordStore idOf := ⟨∅, keyed_empty⟩

def get (r : RecordStore idOf) (k : κ) : Option α := r.records.lookup k

def put (r : RecordStore idOf) (a : α) : RecordStore idOf :=
  ⟨r.records.insert (idOf a) a, Table.forall_insert r.keyed rfl⟩

theorem keyed_erase (r : RecordStore idOf) (k j : κ) (a : α)
    (h : (r.records.erase k).lookup j = some a) : idOf a = j := by
  by_cases hj : j = k
  · rw [hj, Finmap.lookup_erase] at h
    cases h
  · rw [Finmap.lookup_erase_ne hj] at h
    exact r.keyed j a h

def erase (r : RecordStore idOf) (k : κ) : RecordStore idOf :=
  ⟨r.records.erase k, r.keyed_erase k⟩

variable (order horder) in
def all (r : RecordStore idOf) : List α := (r.records.inOrder order horder).map Prod.snd

variable (order horder) in
/-- Erase the doomed records; the second component is their number. -/
def prune (doomed : α → Bool) (r : RecordStore idOf) : RecordStore idOf × ℕ :=
  let swept := sweep order horder (fun _ => doomed) r.records
  (⟨swept.1, fun k a h => r.keyed k a (lookup_of_lookup_sweep h)⟩, swept.2)

theorem get_put (r : RecordStore idOf) (a : α) (k : κ) :
    (r.put a).get k = if k = idOf a then some a else r.get k :=
  Table.lookup_insert_eq r.records (idOf a) k a

theorem get_erase (r : RecordStore idOf) (k j : κ) :
    (r.erase k).get j = if j = k then none else r.get j := by
  split_ifs with hj
  · rw [hj]
    exact Finmap.lookup_erase k _
  · exact Finmap.lookup_erase_ne hj

theorem idOf_get {r : RecordStore idOf} {k : κ} {a : α} (h : r.get k = some a) : idOf a = k :=
  r.keyed k a h

/-- Writing one record relates the entries before and after, once it relates its own. -/
theorem rel_put {R : κ → Option α → Option α → Prop} (hrefl : ∀ k o, R k o o)
    {r : RecordStore idOf} {new : α} (hnew : R (idOf new) (r.get (idOf new)) (some new)) (k : κ) :
    R k (r.get k) ((r.put new).get k) := by
  rw [get_put]
  split_ifs with hk
  · exact hk ▸ hnew
  · exact hrefl k _

/-- A record that came from the store is changed and written back. -/
theorem rel_put_back {R : κ → Option α → Option α → Prop} (hrefl : ∀ k o, R k o o)
    {r : RecordStore idOf} {k : κ} {old new : α} (hget : r.get k = some old)
    (hid : idOf new = idOf old) (hnew : R k (some old) (some new)) (j : κ) :
    R j (r.get j) ((r.put new).get j) := by
  refine rel_put hrefl ?_ j
  rw [hid, idOf_get hget, hget]
  exact hnew

theorem mem_all {r : RecordStore idOf} {a : α} :
    a ∈ r.all order horder ↔ r.get (idOf a) = some a := by
  constructor
  · intro h
    obtain ⟨⟨k, b⟩, hmem, rfl⟩ := List.mem_map.mp h
    have hb := Table.lookup_of_mem_inOrder hmem
    rw [r.keyed k b hb]
    exact hb
  · intro h
    exact List.mem_map.mpr ⟨(idOf a, a), Table.mem_inOrder h, rfl⟩

theorem pairwise_all (r : RecordStore idOf) :
    (r.all order horder).Pairwise fun a b => idOf a ≠ idOf b := by
  rw [all, List.pairwise_map]
  refine (Table.pairwise_inOrder r.records).imp_of_mem fun {e e'} he he' hne => ?_
  rw [r.keyed e.1 e.2 (Table.lookup_of_mem_inOrder he),
    r.keyed e'.1 e'.2 (Table.lookup_of_mem_inOrder he')]
  exact hne

theorem eq_of_id_eq {r : RecordStore idOf} {a b : α} (ha : a ∈ r.all order horder)
    (hb : b ∈ r.all order horder) (h : idOf a = idOf b) : a = b := by
  rw [mem_all] at ha hb
  rw [h, hb] at ha
  exact (Option.some.inj ha).symm

theorem get_prune (doomed : α → Bool) (r : RecordStore idOf) (k : κ) :
    (r.prune order horder doomed).1.get k = (r.get k).filter fun a => !doomed a :=
  lookup_sweep r.records k

theorem all_prune (doomed : α → Bool) (r : RecordStore idOf) :
    (r.prune order horder doomed).1.all order horder =
      (r.all order horder).filter fun a => !doomed a := by
  unfold all prune
  rw [inOrder_sweep, List.filter_map]
  rfl

end RecordStore

section InForce
variable {α : Type*} (replaces : α → α → Bool) (sound : α → Bool)

/-- The sound records of a list that no record of the list replaces. -/
def inForce (l : List α) : List α := l.filter fun c => sound c && !l.any (replaces · c)

variable {replaces sound}

theorem mem_inForce {l : List α} {c : α} :
    c ∈ inForce replaces sound l ↔ c ∈ l ∧ sound c = true ∧ ∀ d ∈ l, replaces d c = false := by
  simp [inForce, List.mem_filter]

/-- Dropping records changes nothing that is in force exactly if no record in force is dropped
and every sound record that stays and was replaced is still replaced. -/
theorem inForce_filter_eq_iff {l : List α} {keep : α → Bool} :
    inForce replaces sound (l.filter keep) = inForce replaces sound l ↔
      (∀ c ∈ inForce replaces sound l, keep c = true) ∧
      ∀ c ∈ l, keep c = true → sound c = true → ∀ d ∈ l, replaces d c = true →
        ∃ d ∈ l, keep d = true ∧ replaces d c = true := by
  constructor
  · intro h
    constructor
    · intro c hc
      rw [← h, mem_inForce] at hc
      exact (List.mem_filter.mp hc.1).2
    · intro c hc hkeep hsound d hd hreplaces
      by_contra hnone
      -- nothing that stays replaces `c`, so `c` has come into force
      have hforce : c ∈ inForce replaces sound (l.filter keep) := by
        refine mem_inForce.mpr ⟨List.mem_filter.mpr ⟨hc, hkeep⟩, hsound, fun e he => ?_⟩
        obtain ⟨he, hkeep'⟩ := List.mem_filter.mp he
        exact Bool.eq_false_iff.mpr fun hr => hnone ⟨e, he, hkeep', hr⟩
      rw [h] at hforce
      exact absurd hreplaces (Bool.eq_false_iff.mp ((mem_inForce.mp hforce).2.2 d hd))
  · rintro ⟨hforce, hreplaced⟩
    rw [inForce, List.filter_filter]
    refine List.filter_congr fun c hc => ?_
    rw [Bool.eq_iff_iff, Bool.and_eq_true, Bool.and_eq_true, Bool.and_eq_true, Bool.not_eq_true',
      Bool.not_eq_true', List.any_eq_false, List.any_eq_false]
    constructor
    · rintro ⟨⟨hsound, hnone⟩, hkeep⟩
      refine ⟨hsound, fun d hd hreplaces => ?_⟩
      obtain ⟨e, he, hkeep', hr⟩ := hreplaced c hc hkeep hsound d hd hreplaces
      exact hnone e (List.mem_filter.mpr ⟨he, hkeep'⟩) hr
    · rintro ⟨hsound, hnone⟩
      refine ⟨⟨hsound, fun d hd => hnone d (List.mem_filter.mp hd).1⟩, ?_⟩
      exact hforce c (mem_inForce.mpr ⟨hc, hsound, fun d hd => Bool.eq_false_iff.mpr (hnone d hd)⟩)

theorem inForce_filter_ext {l : List α} {keep : α → Bool}
    (h : ∀ c, c ∈ inForce replaces sound (l.filter keep) ↔ c ∈ inForce replaces sound l) :
    inForce replaces sound (l.filter keep) = inForce replaces sound l := by
  rw [inForce, List.filter_filter] at h ⊢
  refine List.filter_congr fun c hc => ?_
  have hmem := h c
  rw [inForce, List.mem_filter, List.mem_filter, and_congr_right_iff] at hmem
  exact Bool.eq_iff_iff.mpr (hmem hc)

/-- What is harmless now stays harmless while soundness is only lost. -/
theorem inForce_filter_eq_of_sound {sound' : α → Bool} {l : List α} {keep : α → Bool}
    (h : inForce replaces sound (l.filter keep) = inForce replaces sound l)
    (hsound : ∀ c ∈ l, sound' c = true → sound c = true) :
    inForce replaces sound' (l.filter keep) = inForce replaces sound' l := by
  obtain ⟨hforce, hreplaced⟩ := inForce_filter_eq_iff.mp h
  refine inForce_filter_eq_iff.mpr ⟨fun c hc => ?_, fun c hc hkeep hsound' => ?_⟩
  · obtain ⟨hc, hsound', hnone⟩ := mem_inForce.mp hc
    exact hforce c (mem_inForce.mpr ⟨hc, hsound c hc hsound', hnone⟩)
  · exact hreplaced c hc hkeep (hsound c hc hsound')

end InForce

end OpenFiat.RecordStores
