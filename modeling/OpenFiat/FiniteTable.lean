import Mathlib.Data.Finmap
import Mathlib.Algebra.Order.BigOperators.Group.Finset
import Mathlib.Algebra.GroupWithZero.Nat
import Mathlib.Data.List.Sort

/-!
# Finite tables of records and the totals taken over them

A store keeps its records in finite maps. `Table.total f t` adds `f key record`
over every record of `t`; overwriting one record moves the total by the
difference of the two contributions, which `total_insert` states without
subtraction.
-/
namespace OpenFiat.FiniteTable

abbrev Table (κ α : Type*) := Finmap fun _ : κ => α

namespace Table

variable {κ α : Type*}

/-- What an optional record contributes to a total; an absent one adds nothing. -/
def weight (f : κ → α → ℕ) (k : κ) (slot : Option α) : ℕ := slot.elim 0 (f k)

@[simp] theorem weight_none (f : κ → α → ℕ) (k : κ) : weight f k none = 0 := rfl

@[simp] theorem weight_some (f : κ → α → ℕ) (k : κ) (a : α) : weight f k (some a) = f k a := rfl

variable {j k : κ} {a old : α} {t : Table κ α} {f : κ → α → ℕ}

section Ascending
variable {ι : Type*} [LinearOrder ι] (order : κ → ι) (horder : Function.Injective order)

theorem pairwise_sorted (l : List κ) :
    (l.insertionSort (Order.Preimage order (· ≤ ·))).Pairwise (Order.Preimage order (· ≤ ·)) :=
  List.pairwise_insertionSort _ l

def ascending (s : Finset κ) : List κ :=
  Quot.liftOn s.1 (List.insertionSort (Order.Preimage order (· ≤ ·))) fun l l' h =>
    List.Perm.eq_of_pairwise (fun _ _ _ _ hjk hkj => horder (le_antisymm hjk hkj))
      (pairwise_sorted order l) (pairwise_sorted order l')
      ((List.perm_insertionSort _ l).trans (h.trans (List.perm_insertionSort _ l').symm))

variable {order horder}

theorem coe_ascending (s : Finset κ) : (ascending order horder s : Multiset κ) = s.1 := by
  obtain ⟨⟨l⟩, hs⟩ := s
  exact Multiset.coe_eq_coe.mpr (List.perm_insertionSort _ l)

theorem mem_ascending {s : Finset κ} : k ∈ ascending order horder s ↔ k ∈ s := by
  rw [← Multiset.mem_coe, coe_ascending]
  rfl

theorem nodup_ascending (s : Finset κ) : (ascending order horder s).Nodup := by
  rw [← Multiset.coe_nodup, coe_ascending]
  exact s.2

theorem pairwise_ascending (s : Finset κ) :
    (ascending order horder s).Pairwise fun j k => order j < order k := by
  have hsorted : (ascending order horder s).Pairwise (Order.Preimage order (· ≤ ·)) := by
    obtain ⟨⟨l⟩, hs⟩ := s
    exact pairwise_sorted order l
  refine (hsorted.and (nodup_ascending s)).imp fun h => ?_
  exact lt_of_le_of_ne h.1 fun heq => h.2 (horder heq)

omit horder in
variable (order) in
/-- A strictly ascending list is determined by its members. -/
theorem eq_of_ascending {l l' : List κ} (h : l.Pairwise fun j k => order j < order k)
    (h' : l'.Pairwise fun j k => order j < order k) (hmem : ∀ k, k ∈ l ↔ k ∈ l') : l = l' := by
  have hne : ∀ {j k : κ}, order j < order k → j ≠ k := fun hlt heq => hlt.ne (congrArg order heq)
  refine List.Perm.eq_of_pairwise (fun j k _ _ hjk hkj => absurd hkj hjk.asymm) h h' ?_
  exact (List.perm_ext_iff_of_nodup (h.imp hne) (h'.imp hne)).mpr hmem

end Ascending

variable [DecidableEq κ]

def total (f : κ → α → ℕ) (t : Table κ α) : ℕ := ∑ k ∈ t.keys, weight f k (t.lookup k)

theorem lookup_insert_eq (t : Table κ α) (k k' : κ) (a : α) :
    (t.insert k a).lookup k' = if k' = k then some a else t.lookup k' := by
  split_ifs with h
  · rw [h, Finmap.lookup_insert]
  · rw [Finmap.lookup_insert_of_ne t h]

theorem insert_comm (t : Table κ α) {k' : κ} (h : k ≠ k') (a b : α) :
    (t.insert k a).insert k' b = (t.insert k' b).insert k a := by
  refine Finmap.ext_lookup fun j => ?_
  simp only [lookup_insert_eq]
  by_cases hj : j = k
  · rw [if_pos hj, if_pos hj, if_neg fun hj' => h (hj.symm.trans hj')]
  · rw [if_neg hj, if_neg hj]

theorem ne_of_lookup (hj : t.lookup j = some a) (hk : t.lookup k = none) : j ≠ k := by
  rintro rfl
  rw [hk] at hj
  cases hj

theorem insert_lookup (h : t.lookup k = some a) : t.insert k a = t := by
  refine Finmap.ext_lookup fun j => ?_
  rw [lookup_insert_eq]
  split_ifs with hj
  · rw [hj, h]
  · rfl

theorem forall_of_empty {Q : κ → α → Prop} (h : t = ∅) (k : κ) (a : α)
    (ha : t.lookup k = some a) : Q k a := by
  rw [h] at ha
  cases ha

/-- A property of all records survives writing a record that has it. -/
theorem forall_insert {Q : κ → α → Prop} (h : ∀ k a, t.lookup k = some a → Q k a) (ha : Q k a) :
    ∀ j b, (t.insert k a).lookup j = some b → Q j b := by
  intro j b hb
  rw [lookup_insert_eq] at hb
  split_ifs at hb with hj
  · rw [hj, ← Option.some.inj hb]
    exact ha
  · exact h j b hb

theorem keys_insert (t : Table κ α) (k : κ) (a : α) :
    (t.insert k a).keys = insert k t.keys := by
  ext k'
  simp [Finmap.mem_keys]

/-- Any finite set that contains the keys computes the same total. -/
theorem total_eq_sum (f : κ → α → ℕ) (t : Table κ α) {s : Finset κ} (h : t.keys ⊆ s) :
    total f t = ∑ k ∈ s, weight f k (t.lookup k) := by
  refine Finset.sum_subset h fun k _ hk => ?_
  rw [Finmap.lookup_eq_none.mpr (mt Finmap.mem_keys.mpr hk), weight_none]

/-- Overwriting one record exchanges its old contribution for the new one. -/
theorem total_insert (f : κ → α → ℕ) (t : Table κ α) (k : κ) (a : α) :
    total f (t.insert k a) + weight f k (t.lookup k) = total f t + f k a := by
  have hsplit (u : Table κ α) (hu : u.keys ⊆ insert k t.keys) :
      total f u = weight f k (u.lookup k) +
        ∑ j ∈ (insert k t.keys).erase k, weight f j (u.lookup j) := by
    rw [total_eq_sum f u hu]
    exact (Finset.add_sum_erase _ (fun j => weight f j (u.lookup j))
      (Finset.mem_insert_self k t.keys)).symm
  have hrest : ∑ j ∈ (insert k t.keys).erase k, weight f j ((t.insert k a).lookup j) =
      ∑ j ∈ (insert k t.keys).erase k, weight f j (t.lookup j) := by
    refine Finset.sum_congr rfl fun j hj => ?_
    rw [Finmap.lookup_insert_of_ne t (Finset.ne_of_mem_erase hj)]
  rw [hsplit (t.insert k a) (keys_insert t k a).subset, hsplit t (Finset.subset_insert k t.keys),
    Finmap.lookup_insert, weight_some]
  omega

theorem total_insert_new (f : κ → α → ℕ) (a : α) (h : t.lookup k = none) :
    total f (t.insert k a) = total f t + f k a := by
  simpa [h] using total_insert f t k a

theorem total_insert_old (f : κ → α → ℕ) (a : α) (h : t.lookup k = some old) :
    total f (t.insert k a) + f k old = total f t + f k a := by
  simpa [h] using total_insert f t k a

/-- A reserve that covers a total still covers it after one record is written, if it
loses no more than that record gives up. -/
theorem total_insert_le {b b' : ℕ} (h : total f t ≤ b)
    (hstep : f k a + b ≤ weight f k (t.lookup k) + b') : total f (t.insert k a) ≤ b' := by
  have hinsert := total_insert f t k a
  omega

theorem le_total (f : κ → α → ℕ) (h : t.lookup k = some a) : f k a ≤ total f t := by
  have hk : k ∈ t.keys := Finmap.mem_keys.mpr (Finmap.mem_of_lookup_eq_some h)
  have hle := Finset.single_le_sum (f := fun j => weight f j (t.lookup j))
    (fun j _ => Nat.zero_le _) hk
  rw [h] at hle
  exact hle

theorem total_congr {g : κ → α → ℕ} (h : ∀ k a, t.lookup k = some a → f k a = g k a) :
    total f t = total g t := by
  refine Finset.sum_congr rfl fun k _ => ?_
  cases hk : t.lookup k with
  | none => rfl
  | some a => exact h k a hk

theorem total_eq_zero (h : ∀ k a, t.lookup k = some a → f k a = 0) : total f t = 0 := by
  refine Finset.sum_eq_zero fun k _ => ?_
  cases hk : t.lookup k with
  | none => rfl
  | some a => exact h k a hk

theorem lookup_erase_eq (t : Table κ α) (k j : κ) :
    (t.erase k).lookup j = if j = k then none else t.lookup j := by
  split_ifs with h
  · rw [h, Finmap.lookup_erase]
  · rw [Finmap.lookup_erase_ne h]

theorem insert_erase (h : t.lookup k = some a) : (t.erase k).insert k a = t := by
  refine Finmap.ext_lookup fun j => ?_
  rw [lookup_insert_eq, lookup_erase_eq]
  split_ifs with hj
  · rw [hj, h]
  · rfl

theorem erase_of_lookup (h : t.lookup k = none) : t.erase k = t := by
  refine Finmap.ext_lookup fun j => ?_
  rw [lookup_erase_eq]
  split_ifs with hj
  · rw [hj, h]
  · rfl

/-- Without one record a total loses what the record contributes. -/
theorem total_erase (f : κ → α → ℕ) (t : Table κ α) (k : κ) :
    total f (t.erase k) + weight f k (t.lookup k) = total f t := by
  cases h : t.lookup k with
  | none => rw [erase_of_lookup h, weight_none, add_zero]
  | some a =>
    have hnew := total_insert_new (f := f) (a := a) (Finmap.lookup_erase k t)
    rw [insert_erase h] at hnew
    exact hnew.symm

variable {β : Type*}

def mapValues (view : α → β) (t : Table κ α) : Table κ β :=
  Finmap.keysLookupEquiv.symm ⟨(t.keys, fun k => (t.lookup k).map view), fun k => by
    rw [Option.isSome_map, Finmap.mem_keys]
    exact Finmap.lookup_isSome⟩

@[simp] theorem lookup_mapValues (view : α → β) (t : Table κ α) (k : κ) :
    (mapValues view t).lookup k = (t.lookup k).map view := by
  simp [mapValues]

theorem mapValues_insert (view : α → β) (t : Table κ α) (k : κ) (a : α) :
    mapValues view (t.insert k a) = (mapValues view t).insert k (view a) := by
  refine Finmap.ext_lookup fun j => ?_
  simp only [lookup_mapValues, lookup_insert_eq]
  split_ifs <;> rfl

/-- Overwriting a record by one with the same view is invisible. -/
theorem mapValues_insert_same (view : α → β) (a : α) (h : t.lookup k = some old)
    (hview : view a = view old) : mapValues view (t.insert k a) = mapValues view t := by
  refine Finmap.ext_lookup fun j => ?_
  simp only [lookup_mapValues, lookup_insert_eq]
  split_ifs with hj
  · rw [hj, h, Option.map_some, Option.map_some, hview]
  · rfl

theorem total_mapValues (view : α → β) (f : κ → β → ℕ) (t : Table κ α) :
    total f (mapValues view t) = total (fun k a => f k (view a)) t := by
  have hkeys : (mapValues view t).keys = t.keys := by
    simp [mapValues]
  simp only [total, hkeys, lookup_mapValues]
  refine Finset.sum_congr rfl fun k _ => ?_
  cases t.lookup k <;> rfl

section Iteration
variable {ι : Type*} [LinearOrder ι] {order : κ → ι} {horder : Function.Injective order}

variable (order horder) in
def inOrder (t : Table κ α) : List (κ × α) :=
  (ascending order horder t.keys).filterMap fun k => (t.lookup k).map fun a => (k, a)

theorem lookup_of_mem_inOrder (h : (k, a) ∈ inOrder order horder t) : t.lookup k = some a := by
  obtain ⟨j, -, hj⟩ := List.mem_filterMap.mp h
  obtain ⟨b, hb, hpair⟩ := Option.map_eq_some_iff.mp hj
  cases hpair
  exact hb

theorem mem_inOrder (h : t.lookup k = some a) : (k, a) ∈ inOrder order horder t := by
  refine List.mem_filterMap.mpr ⟨k, mem_ascending.mpr ?_, ?_⟩
  · exact Finmap.mem_keys.mpr (Finmap.mem_of_lookup_eq_some h)
  · rw [h, Option.map_some]

omit [DecidableEq κ] in
/-- The rows read at some keys are related as the keys are. -/
theorem pairwise_rows {R : κ → κ → Prop} {l : List κ} (h : l.Pairwise R) (read : κ → Option α) :
    (l.filterMap fun k => (read k).map fun a => (k, a)).Pairwise fun e e' => R e.1 e'.1 := by
  refine List.Pairwise.filterMap _ ?_ h
  intro j k hjk e he e' he'
  obtain ⟨_, -, rfl⟩ := Option.map_eq_some_iff.mp he
  obtain ⟨_, -, rfl⟩ := Option.map_eq_some_iff.mp he'
  exact hjk

theorem pairwise_inOrder (t : Table κ α) :
    (inOrder order horder t).Pairwise fun e e' => e.1 ≠ e'.1 :=
  pairwise_rows (nodup_ascending t.keys) t.lookup

theorem sum_inOrder (f : κ → α → ℕ) (t : Table κ α) :
    ((inOrder order horder t).map fun e => f e.1 e.2).sum = total f t := by
  have hkeys (l : List κ) : ((l.filterMap fun k => (t.lookup k).map fun a => (k, a)).map
      fun e => f e.1 e.2).sum = (l.map fun k => weight f k (t.lookup k)).sum := by
    induction l with
    | nil => rfl
    | cons k l ih =>
      cases h : t.lookup k with
      | none | some => simp [h, ih]
  rw [inOrder, hkeys, ← Multiset.sum_coe, ← Multiset.map_coe, coe_ascending]
  rfl

theorem inOrder_erase (t : Table κ α) (k : κ) :
    inOrder order horder (t.erase k) = (inOrder order horder t).filter fun e => e.1 ≠ k := by
  have hkeys : ascending order horder (t.erase k).keys =
      (ascending order horder t.keys).filter fun j => j ≠ k := by
    refine eq_of_ascending order (pairwise_ascending _) ((pairwise_ascending _).filter _)
      fun j => ?_
    rw [mem_ascending, List.mem_filter, mem_ascending, Finmap.mem_keys, Finmap.mem_keys,
      Finmap.mem_erase, decide_eq_true_eq, and_comm]
  rw [inOrder, inOrder, hkeys, List.filterMap_filter, List.filter_filterMap]
  refine List.filterMap_congr fun j _ => ?_
  rw [lookup_erase_eq]
  by_cases hj : j = k
  · cases h : t.lookup j with
    | none => simp [hj]
    | some => simp [hj, Option.filter]
  · cases h : t.lookup j with
    | none => simp [hj]
    | some => simp [hj, Option.filter]

section Loops
variable {S : Type*} {view : S → Table κ α} {body : S → κ × α → S}

variable {P : S → Prop} {s : S}

/-- Such a loop finds each entry as it was at the start. -/
theorem foldl_rule (hkeep : ∀ s e j, j ≠ e.1 → (view (body s e)).lookup j = (view s).lookup j)
    (hbody : ∀ s k a, P s → (view s).lookup k = some a → P (body s (k, a))) {l : List (κ × α)}
    (hl : l.Pairwise fun e e' => e.1 ≠ e'.1) (hs : P s)
    (hview : ∀ e ∈ l, (view s).lookup e.1 = some e.2) : P (l.foldl body s) := by
  induction l generalizing s with
  | nil => exact hs
  | cons e l ih =>
    obtain ⟨hfirst, hrest⟩ := List.pairwise_cons.mp hl
    refine ih hrest (hbody s e.1 e.2 hs (hview e List.mem_cons_self)) fun e' he' => ?_
    rw [hkeep s e e'.1 (hfirst e' he').symm]
    exact hview e' (List.mem_cons_of_mem _ he')

variable (view) in
/-- A loop over a snapshot of a table, whose body writes no other entry than the one at
hand, finds each entry as the snapshot has it. -/
theorem foldl_inOrder_rule
    (hkeep : ∀ s e j, j ≠ e.1 → (view (body s e)).lookup j = (view s).lookup j)
    (hbody : ∀ s k a, P s → (view s).lookup k = some a → P (body s (k, a))) (hs : P s) :
    P ((inOrder order horder (view s)).foldl body s) :=
  foldl_rule hkeep hbody (pairwise_inOrder _) hs fun _ he => lookup_of_mem_inOrder he

end Loops

end Iteration

end Table

end OpenFiat.FiniteTable
