import OpenFiat.FiniteTable
import OpenFiat.GuardedResult
import Mathlib.Data.List.TakeWhile

/-!
# Key/value stores with column families

A store is opened with a set of column families; an access to any other family fails and
changes nothing. There are no transactions: a loop that writes a list of entries stops at the
first one it cannot write, and what it wrote before stays. `read_putAll` says what such a loop
leaves in each row: the last value written to it, or what was there.
-/
namespace OpenFiat.ColumnStores
open GuardedResult FiniteTable

structure ColumnStore (φ κ ν : Type*) where
  opened : φ → Bool
  rows : Table (φ × κ) ν

structure UnknownColumnFamily (φ : Type*) where
  family : φ
deriving DecidableEq, Repr

namespace ColumnStore
variable {φ κ ν : Type*} [DecidableEq φ] [DecidableEq κ]

def get (s : ColumnStore φ κ ν) (family : φ) (key : κ) :
    Except (UnknownColumnFamily φ) (Option ν) :=
  if s.opened family then .ok (s.rows.lookup (family, key)) else .error ⟨family⟩

def put (s : ColumnStore φ κ ν) (family : φ) (key : κ) (value : ν) :
    Except (UnknownColumnFamily φ) (ColumnStore φ κ ν) :=
  if s.opened family then .ok { s with rows := s.rows.insert (family, key) value }
  else .error ⟨family⟩

def delete (s : ColumnStore φ κ ν) (family : φ) (key : κ) :
    Except (UnknownColumnFamily φ) (ColumnStore φ κ ν) :=
  if s.opened family then .ok { s with rows := s.rows.erase (family, key) }
  else .error ⟨family⟩

/-- What a reader sees who takes a failed access for an absent row. -/
def read (s : ColumnStore φ κ ν) (family : φ) (key : κ) : Option ν :=
  (s.get family key).toOption.join

section Iteration
variable {ι : Type*} [LinearOrder ι] (order : κ → ι) (horder : Function.Injective order)

/-- The rows of a family in ascending order of their keys; none for a family that was not
opened. -/
def entries (s : ColumnStore φ κ ν) (family : φ) : List (κ × ν) :=
  (Table.ascending order horder ((s.rows.keys.filter (·.1 = family)).image Prod.snd)).filterMap
    fun key => (s.read family key).map fun value => (key, value)

end Iteration

variable {s s' : ColumnStore φ κ ν} {family family' : φ} {key key' : κ} {value : ν}

theorem read_eq : s.read family key =
    if s.opened family then s.rows.lookup (family, key) else none := by
  unfold read get
  split_ifs <;> rfl

theorem put_ok (h : s.put family key value = .ok s') :
    s.opened family = true ∧ s' = { s with rows := s.rows.insert (family, key) value } := by
  unfold put at h
  split_ifs at h with hopened
  exact ⟨hopened, (Except.ok.inj h).symm⟩

theorem read_of_put (h : s.put family key value = .ok s') (family' : φ) (key' : κ) :
    s'.read family' key' =
      if family' = family ∧ key' = key then some value else s.read family' key' := by
  obtain ⟨hopened, rfl⟩ := put_ok h
  rw [read_eq, read_eq, Table.lookup_insert_eq]
  by_cases hrow : family' = family ∧ key' = key
  · rw [if_pos hrow, hrow.1, hrow.2, if_pos hopened, if_pos rfl]
  · rw [if_neg hrow, if_neg fun h => hrow ⟨congrArg Prod.fst h, congrArg Prod.snd h⟩]

theorem read_attempt_put_of_ne (h : family' ≠ family) :
    (attempt s (s.put family key value)).read family' key' = s.read family' key' := by
  cases hput : s.put family key value with
  | error => rfl
  | ok => exact (read_of_put hput family' key').trans (if_neg fun hrow => h hrow.1)

theorem read_attempt_delete : (attempt s (s.delete family key)).read family' key' =
    if family' = family ∧ key' = key then none else s.read family' key' := by
  by_cases hopened : s.opened family = true
  · rw [delete, if_pos hopened, attempt, read_eq, read_eq]
    by_cases hrow : family' = family ∧ key' = key
    · rw [if_pos hrow, hrow.1, hrow.2, Finmap.lookup_erase, ite_self]
    · rw [if_neg hrow, Finmap.lookup_erase_ne]
      exact fun h => hrow ⟨congrArg Prod.fst h, congrArg Prod.snd h⟩
  · rw [delete, if_neg hopened, attempt]
    split_ifs with hrow
    · rw [hrow.1, read_eq, if_neg hopened]
    · rfl

section Entries
variable {ι : Type*} [LinearOrder ι] {order : κ → ι} {horder : Function.Injective order}

theorem mem_entries : (key, value) ∈ s.entries order horder family ↔
    s.read family key = some value := by
  constructor
  · intro h
    obtain ⟨k, -, hk⟩ := List.mem_filterMap.mp h
    obtain ⟨v, hv, hpair⟩ := Option.map_eq_some_iff.mp hk
    cases hpair
    exact hv
  · intro h
    refine List.mem_filterMap.mpr ⟨key, Table.mem_ascending.mpr ?_, by rw [h, Option.map_some]⟩
    rw [read_eq] at h
    split_ifs at h
    have hmem : (family, key) ∈ s.rows.keys := Finmap.mem_keys.mpr (Finmap.mem_of_lookup_eq_some h)
    exact Finset.mem_image.mpr ⟨(family, key), Finset.mem_filter.mpr ⟨hmem, rfl⟩, rfl⟩

theorem pairwise_entries (s : ColumnStore φ κ ν) (family : φ) :
    (s.entries order horder family).Pairwise fun e e' => order e.1 < order e'.1 :=
  Table.pairwise_rows (Table.pairwise_ascending _) (s.read family)

theorem entries_eq_of_ascending {l : List (κ × ν)}
    (h : l.Pairwise fun e e' => order e.1 < order e'.1)
    (hmem : ∀ key value, (key, value) ∈ l ↔ s.read family key = some value) :
    s.entries order horder family = l := by
  refine Table.eq_of_ascending (fun e => order e.1) (pairwise_entries s family) h ?_
  rintro ⟨key, value⟩
  rw [mem_entries, hmem]

theorem entries_eq_iff : s.entries order horder family = s'.entries order horder family' ↔
    ∀ key, s.read family key = s'.read family' key := by
  constructor
  · intro h key
    have hmem (value : ν) : (key, value) ∈ s.entries order horder family ↔
        (key, value) ∈ s'.entries order horder family' := by rw [h]
    refine Option.ext fun value => ?_
    exact mem_entries.symm.trans ((hmem value).trans mem_entries)
  · intro h
    refine entries_eq_of_ascending (pairwise_entries s' family') fun key value => ?_
    rw [mem_entries, h]

end Entries

/-- Write the entries one after the other, counting them, up to the first failure. -/
def putAll (s : ColumnStore φ κ ν) :
    List (φ × κ × ν) → ℕ → ColumnStore φ κ ν × Except (UnknownColumnFamily φ) ℕ
  | [], count => (s, .ok count)
  | (family, key, value) :: rest, count =>
    match s.put family key value with
    | .error e => (s, .error e)
    | .ok s' => putAll s' rest (count + 1)

/-- The entries before the first one whose family the store does not have. -/
def writable (s : ColumnStore φ κ ν) (es : List (φ × κ × ν)) : List (φ × κ × ν) :=
  es.takeWhile fun e => s.opened e.1

/-- The last value that a list of entries has for a row. -/
def lastWrite : List (φ × κ × ν) → φ → κ → Option ν
  | [], _, _ => none
  | (family', key', value) :: rest, family, key =>
    (lastWrite rest family key).or (if family = family' ∧ key = key' then some value else none)

theorem put_of_opened (h : s.opened family = true) :
    s.put family key value = .ok { s with rows := s.rows.insert (family, key) value } :=
  if_pos h

theorem putAll_cons (s : ColumnStore φ κ ν) (e : φ × κ × ν) (rest : List (φ × κ × ν)) (count : ℕ) :
    s.putAll (e :: rest) count = if s.opened e.1 then
      putAll { s with rows := s.rows.insert (e.1, e.2.1) e.2.2 } rest (count + 1)
    else (s, .error ⟨e.1⟩) := by
  rw [putAll]
  split_ifs with hopened
  · rw [put_of_opened hopened]
  · rw [put, if_neg hopened]

omit [DecidableEq φ] [DecidableEq κ] in
theorem writable_cons (s : ColumnStore φ κ ν) (e : φ × κ × ν) (rest : List (φ × κ × ν)) :
    s.writable (e :: rest) = if s.opened e.1 then e :: s.writable rest else [] := by
  exact List.takeWhile_cons

variable {es : List (φ × κ × ν)}

omit [DecidableEq φ] [DecidableEq κ] in
theorem writable_of_opened (h : ∀ e ∈ es, s.opened e.1 = true) : s.writable es = es :=
  List.takeWhile_eq_self_iff.mpr h

theorem opened_putAll (s : ColumnStore φ κ ν) (es : List (φ × κ × ν)) (count : ℕ) :
    (s.putAll es count).1.opened = s.opened := by
  induction es generalizing s count with
  | nil => rfl
  | cons e rest ih =>
    rw [putAll_cons]
    split_ifs
    · exact ih _ (count + 1)
    · rfl

/-- The loop succeeds exactly if the store has every family. -/
theorem putAll_ok_iff {count total : ℕ} :
    (s.putAll es count).2 = .ok total ↔
      (∀ e ∈ es, s.opened e.1 = true) ∧ total = count + es.length := by
  induction es generalizing s count with
  | nil =>
    rw [putAll, eq_comm]
    simp
  | cons e rest ih =>
    rw [putAll_cons, List.forall_mem_cons, List.length_cons]
    by_cases hopened : s.opened e.1 = true
    · rw [if_pos hopened, ih, and_iff_right hopened, add_assoc, add_comm 1]
    · simp [hopened]

theorem read_putAll (s : ColumnStore φ κ ν) (es : List (φ × κ × ν)) (count : ℕ) (family : φ)
    (key : κ) : (s.putAll es count).1.read family key =
      (lastWrite (s.writable es) family key).or (s.read family key) := by
  induction es generalizing s count with
  | nil => rfl
  | cons e rest ih =>
    rw [putAll_cons, writable_cons]
    by_cases hopened : s.opened e.1 = true
    · -- the rest is written to a store that has the first entry
      rw [if_pos hopened, if_pos hopened, ih, read_of_put (put_of_opened hopened), lastWrite,
        Option.or_assoc]
      congr 1
      split_ifs <;> rfl
    · rw [if_neg hopened, if_neg hopened]
      rfl

theorem mem_of_lastWrite (h : lastWrite es family key = some value) :
    (family, key, value) ∈ es := by
  induction es with
  | nil => cases h
  | cons e rest ih =>
    rw [lastWrite] at h
    cases hrest : lastWrite rest family key with
    | some =>
      rw [hrest] at h
      exact List.mem_cons_of_mem _ (ih (hrest.trans h))
    | none =>
      rw [hrest, Option.none_or] at h
      split_ifs at h with hrow
      rw [hrow.1, hrow.2, ← Option.some.inj h]
      exact List.mem_cons_self

theorem exists_lastWrite (h : (family, key, value) ∈ es) :
    ∃ v, lastWrite es family key = some v := by
  induction es with
  | nil => cases h
  | cons e rest ih =>
    rw [lastWrite]
    cases hrest : lastWrite rest family key with
    | some v => exact ⟨v, rfl⟩
    | none =>
      rcases List.mem_cons.mp h with hhead | htail
      · exact ⟨e.2.2, by rw [← hhead, if_pos ⟨rfl, rfl⟩]; rfl⟩
      · obtain ⟨v, hv⟩ := ih htail
        rw [hrest] at hv
        cases hv

/-- With one value for each row it does not matter which is the last. -/
theorem lastWrite_eq_some_iff
    (h : ∀ v v', (family, key, v) ∈ es → (family, key, v') ∈ es → v = v') :
    lastWrite es family key = some value ↔ (family, key, value) ∈ es := by
  refine ⟨mem_of_lastWrite, fun hmem => ?_⟩
  obtain ⟨v, hv⟩ := exists_lastWrite hmem
  rw [hv, h v value (mem_of_lastWrite hv) hmem]

theorem read_putAll_of_not_mem (h : ∀ e ∈ es, e.1 ≠ family) (count : ℕ) (key : κ) :
    (s.putAll es count).1.read family key = s.read family key := by
  rw [read_putAll]
  cases hlast : lastWrite (s.writable es) family key with
  | none => rfl
  | some v =>
    have hmem : (family, key, v) ∈ es :=
      (List.takeWhile_sublist _).subset (mem_of_lastWrite hlast)
    exact absurd rfl (h _ hmem)

/-- The loop changes nothing exactly if the last value of each row is the one it has. -/
theorem read_putAll_eq_iff {count : ℕ} :
    (∀ family key, (s.putAll es count).1.read family key = s.read family key) ↔
      ∀ family key value, lastWrite (s.writable es) family key = some value →
        s.read family key = some value := by
  simp only [read_putAll]
  constructor
  · intro h family key value hlast
    have hrow := h family key
    rw [hlast] at hrow
    exact hrow.symm
  · intro h family key
    cases hlast : lastWrite (s.writable es) family key with
    | none => rfl
    | some v => rw [Option.some_or, h family key v hlast]

end ColumnStore

end OpenFiat.ColumnStores
