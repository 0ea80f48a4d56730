import Mathlib.Algebra.Order.Ring.Int
import Mathlib.Algebra.Order.BigOperators.Group.List
import Mathlib.Algebra.Order.Group.Nat
import Mathlib.Data.List.TakeWhile

/-!
# Filling a budget from a queue

`takeWithin` hands out the elements of a queue from its front as long as the budget covers
them, and stops at the first that it does not cover. Against the rule that an element may only
be passed over if it is too large for the whole budget, or if the elements before it that are
not too large leave no room for it, this goes wrong in one way: an element that is too large
stands before one that there is room for.
-/
namespace OpenFiat.BudgetedPrefix

section
variable {α : Type} [DecidableEq α] (size : α → ℕ) (budget : ℕ)

def takeWithin : ℕ → List α → List α
  | _, [] => []
  | budget, a :: l =>
    if size a ≤ budget then a :: takeWithin (budget - size a) l else []

def total (l : List α) : ℕ := (l.map size).sum

def ahead (l : List α) (a : α) : List α := l.takeWhile (· ≠ a)

def fittingAhead (l : List α) (a : α) : List α :=
  (ahead l a).filter fun b => size b ≤ budget

/-- An element that is too large stands before one that there is room for. -/
def Blocked (l : List α) : Prop :=
  ∃ a ∈ l, (∃ b ∈ ahead l a, budget < size b) ∧
    total size (fittingAhead size budget l a) + size a ≤ budget

variable {size budget} {l : List α} {a : α}

omit [DecidableEq α] in
theorem takeWithin_prefix : takeWithin size budget l <+: l := by
  induction l generalizing budget with
  | nil => exact List.nil_prefix
  | cons b l ih =>
    unfold takeWithin
    split_ifs
    · exact (List.cons_prefix_cons).mpr ⟨rfl, ih⟩
    · exact List.nil_prefix

omit [DecidableEq α] in
theorem total_takeWithin_le : total size (takeWithin size budget l) ≤ budget := by
  induction l generalizing budget with
  | nil => exact Nat.zero_le budget
  | cons b l ih =>
    unfold takeWithin
    split_ifs with hb
    · have hrest : total size (takeWithin size (budget - size b) l) ≤ budget - size b := ih
      unfold total at hrest ⊢
      rw [List.map_cons, List.sum_cons]
      omega
    · exact Nat.zero_le budget

/-- An element is handed out exactly when the budget covers it and all that stand before
it. -/
theorem mem_takeWithin : a ∈ takeWithin size budget l ↔
    a ∈ l ∧ total size (ahead l a) + size a ≤ budget := by
  induction l generalizing budget with
  | nil => simp [takeWithin]
  | cons b l ih =>
    unfold takeWithin ahead
    by_cases hab : b = a
    · subst hab
      rw [List.takeWhile_cons_of_neg (by simp)]
      simp only [total, List.map_nil, List.sum_nil, Nat.zero_add, List.mem_cons_self, true_and]
      split_ifs with hb
      · simp [hb]
      · simp [hb]
    · rw [List.takeWhile_cons_of_pos (by simpa using hab)]
      have hne : a ≠ b := fun h => hab h.symm
      split_ifs with hb
      · rw [List.mem_cons, or_iff_right hne, ih, List.mem_cons, or_iff_right hne]
        refine and_congr_right fun _ => ?_
        simp only [total, ahead, List.map_cons, List.sum_cons]
        omega
      · simp only [List.not_mem_nil, total, List.map_cons, List.sum_cons, false_iff, not_and]
        omega

theorem exists_fittingAhead_eq_nil (h : ∃ a ∈ l, size a ≤ budget) :
    ∃ a ∈ l, size a ≤ budget ∧ fittingAhead size budget l a = [] := by
  induction l with
  | nil =>
    obtain ⟨a, ha, -⟩ := h
    cases ha
  | cons b l ih =>
    by_cases hb : size b ≤ budget
    · refine ⟨b, List.mem_cons_self, hb, ?_⟩
      unfold fittingAhead ahead
      rw [List.takeWhile_cons_of_neg (by simp), List.filter_nil]
    · have hrest : ∃ a ∈ l, size a ≤ budget := by
        obtain ⟨a, ha, hfits⟩ := h
        rcases List.mem_cons.mp ha with rfl | ha
        · exact absurd hfits hb
        · exact ⟨a, ha, hfits⟩
      obtain ⟨a, ha, hfits, hnil⟩ := ih hrest
      refine ⟨a, List.mem_cons_of_mem _ ha, hfits, ?_⟩
      have hne : b ≠ a := fun h => hb (h ▸ hfits)
      unfold fittingAhead ahead at hnil ⊢
      rw [List.takeWhile_cons_of_pos (by simpa using hne),
        List.filter_cons_of_neg (by simpa using hb), hnil]

/-- If everything passed over is too large or has no room, something is handed out whenever
something fits. -/
theorem takeWithin_ne_nil
    (hrule : ∀ a ∈ l, a ∉ takeWithin size budget l →
      budget < size a ∨ budget < total size (fittingAhead size budget l a) + size a)
    (h : ∃ a ∈ l, size a ≤ budget) : takeWithin size budget l ≠ [] := by
  obtain ⟨a, ha, hfits, hnil⟩ := exists_fittingAhead_eq_nil h
  intro hempty
  have hout : a ∉ takeWithin size budget l := by
    rw [hempty]
    exact List.not_mem_nil
  rcases hrule a ha hout with hlarge | hroom
  · omega
  · rw [hnil] at hroom
    simp only [total, List.map_nil, List.sum_nil] at hroom
    omega

theorem rule_iff_not_blocked :
    (∀ a ∈ l, a ∉ takeWithin size budget l →
      budget < size a ∨ budget < total size (fittingAhead size budget l a) + size a) ↔
      ¬ Blocked size budget l := by
  constructor
  · rintro hrule ⟨a, ha, ⟨b, hb, hlarge⟩, hroom⟩
    have hout : a ∉ takeWithin size budget l := by
      intro hmem
      have hsum := (mem_takeWithin.mp hmem).2
      have hle : size b ≤ total size (ahead l a) :=
        List.single_le_sum (fun _ _ => Nat.zero_le _) _ (List.mem_map_of_mem hb)
      omega
    rcases hrule a ha hout with h | h
    · omega
    · omega
  · intro hfree a ha hout
    have hsum : budget < total size (ahead l a) + size a := by
      rw [mem_takeWithin] at hout
      simpa [ha] using hout
    by_cases hlarge : ∃ b ∈ ahead l a, budget < size b
    · right
      by_contra hroom
      exact hfree ⟨a, ha, hlarge, not_lt.mp hroom⟩
    · -- nothing before `a` is too large, so the filter keeps all of it
      right
      have hall : fittingAhead size budget l a = ahead l a := by
        refine List.filter_eq_self.mpr fun b hb => decide_eq_true ?_
        exact not_lt.mp fun h => hlarge ⟨b, hb, h⟩
      rw [hall]
      exact hsum

end

end OpenFiat.BudgetedPrefix
