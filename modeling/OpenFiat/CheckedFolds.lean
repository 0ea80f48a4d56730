import Mathlib.Data.List.Basic
import Mathlib.Data.List.Induction
import Mathlib.Algebra.GroupWithZero.Nat

/-!
# Folds that may overflow

A loop adds one item after the other to a record of counters of fixed width, and aborts when a
counter overflows. Where an addition never makes room again, the loop aborts exactly if its result,
computed without a bound, does not fit.
-/
namespace OpenFiat.CheckedFolds

variable {σ α : Type} {Fits : σ → Prop} [DecidablePred Fits] {add : σ → α → σ} {s : σ}

/-- One addition. -/
def checked (Fits : σ → Prop) [DecidablePred Fits] (add : σ → α → σ) (s : σ) (a : α) : Option σ :=
  if Fits (add s a) then some (add s a) else none

theorem foldlM_checked (hback : ∀ s a, Fits (add s a) → Fits s) (hs : Fits s) (l : List α) :
    l.foldlM (checked Fits add) s =
      if Fits (l.foldl add s) then some (l.foldl add s) else none := by
  induction l using List.reverseRecOn with
  | nil => exact (if_pos hs).symm
  | append_singleton l a ih =>
    rw [List.foldlM_append, ih, List.foldl_concat]
    split_ifs with hbefore hafter hafter
    · simp [checked, hafter]
    · simp [checked, hafter]
    · exact absurd (hback _ a hafter) hbefore
    · rfl

omit [DecidablePred Fits] in
/-- A fold that passes over some members is the fold over the others. -/
theorem foldlM_eq_filter {f g : σ → α → Option σ} {p : α → Bool}
    (h : ∀ s a, f s a = if p a then g s a else some s) (l : List α) (s : σ) :
    l.foldlM f s = (l.filter p).foldlM g s := by
  induction l generalizing s with
  | nil => rfl
  | cons a l ih =>
    rw [List.foldlM_cons, h]
    cases ha : p a with
    | true =>
      rw [List.filter_cons_of_pos ha, if_pos rfl]
      exact congrArg _ (funext ih)
    | false =>
      rw [List.filter_cons_of_neg (by simp [ha]), ← ih]
      rfl

/-- A loop that collects what it makes of each member and adds up an amount, as long as the sum
stays below a bound. -/
theorem foldlM_collect {β : Type} {make : α → Option β} {amount : α → ℕ} {bound : ℕ}
    {step : List β × ℕ → α → Option (List β × ℕ)} {l : List α}
    (hstep : ∀ acc, ∀ a ∈ l, acc.2 + amount a < bound →
      step acc a = some (acc.1 ++ (make a).toList, acc.2 + amount a))
    {acc : List β × ℕ} (hroom : acc.2 + (l.map amount).sum < bound) :
    l.foldlM step acc = some (acc.1 ++ l.filterMap make, acc.2 + (l.map amount).sum) := by
  induction l generalizing acc with
  | nil => simp
  | cons a l ih =>
    rw [List.map_cons, List.sum_cons] at hroom ⊢
    have hrest : l.foldlM step (acc.1 ++ (make a).toList, acc.2 + amount a) = _ :=
      ih (fun acc a' ha' => hstep acc a' (List.mem_cons_of_mem _ ha')) (by simp only; omega)
    rw [List.foldlM_cons, hstep acc a List.mem_cons_self (by omega), Option.bind_eq_bind,
      Option.bind_some, hrest, List.filterMap_cons, Nat.add_assoc]
    cases make a <;> simp

end OpenFiat.CheckedFolds
