import OpenFiat.TransactionRuns

/-!
# Observed runs

Two replicas execute the same events in different orders, and an observer looks at one part
of their state. `Observes` says that this part is changed only by the events about it, and
only in a way that the part itself and the event determine. Then an event that a replica
refuses can be taken out of its run, and two replicas that agree on the order of the events
that either of them accepts end with the same part.
-/
namespace OpenFiat.ObservedRuns
open TransactionRuns

section Order
variable {K : Type}

def Before (l : List K) (a b : K) : Prop := [a, b].Sublist l

instance [DecidableEq K] (l : List K) (a b : K) : Decidable (Before l a b) :=
  inferInstanceAs (Decidable ([a, b].Sublist l))

theorem before_antisymm {l : List K} (h : l.Nodup) {a b : K} (hab : Before l a b)
    (hba : Before l b a) : a = b := by
  induction l with
  | nil => cases hab
  | cons x l ih =>
    obtain ⟨hx, hl⟩ := List.nodup_cons.mp h
    cases hab with
    | cons _ hab =>
      cases hba with
      | cons _ hba => exact ih hl hab hba
      | cons_cons =>
        -- `b` is the first entry and comes again after `a`
        exact absurd (hab.subset (by simp)) hx
    | cons_cons =>
      cases hba with
      | cons _ hba => exact absurd (hba.subset (by simp)) hx
      | cons_cons => rfl

/-- Two orders of one set agree on a part of it when they agree on every pair of that part. -/
theorem filter_eq_of_before {l₁ l₂ : List K} (hperm : l₁.Perm l₂) (hnodup : l₁.Nodup)
    (P : K → Bool)
    (horder : ∀ a b, P a → P b → Before l₁ a b → Before l₂ a b) : l₁.filter P = l₂.filter P := by
  have hpair₁ : (l₁.filter P).Pairwise (Before l₂) := by
    rw [List.pairwise_iff_forall_sublist]
    intro a b hab
    have ha : a ∈ l₁.filter P := hab.subset (by simp)
    have hb : b ∈ l₁.filter P := hab.subset (by simp)
    exact horder a b (List.mem_filter.mp ha).2 (List.mem_filter.mp hb).2
      (hab.trans List.filter_sublist)
  have hpair₂ : (l₂.filter P).Pairwise (Before l₂) := by
    rw [List.pairwise_iff_forall_sublist]
    intro a b hab
    exact hab.trans List.filter_sublist
  have hnodup₂ : l₂.Nodup := hperm.nodup_iff.mp hnodup
  exact List.Perm.eq_of_pairwise (fun a b _ _ => before_antisymm hnodup₂) hpair₁ hpair₂
    (hperm.filter P)

end Order

section Runs
variable {S L E O K : Type}

/-- The part `view` of the state depends on the transactions through their `event` only, and
an event that is not about it leaves it alone. The transactions considered are those whose
event is in `Domain`. -/
structure Observes (step : S → L → Except E S) (view : S → O) (event : L → K)
    (Domain About : K → Prop) : Prop where
  frame : ∀ s l, Domain (event l) → ¬ About (event l) → view (apply step s l) = view s
  congr : ∀ s₁ s₂ l₁ l₂, Domain (event l₁) → view s₁ = view s₂ → event l₁ = event l₂ →
    view (apply step s₁ l₁) = view (apply step s₂ l₂)

/-- The events of the transactions that a run accepts, in order. -/
def taken (step : S → L → Except E S) (event : L → K) (s : S) (ls : List L) : List K :=
  (transitions step s ls).map fun t => event t.label

variable {step : S → L → Except E S} {view : S → O} {event : L → K} {Domain About : K → Prop}

theorem Observes.run_congr (h : Observes step view event Domain About) {s₁ s₂ : S}
    {ls₁ ls₂ : List L} (hview : view s₁ = view s₂) (hevents : ls₁.map event = ls₂.map event)
    (hdomain : ∀ l ∈ ls₁, Domain (event l)) :
    view (run step s₁ ls₁) = view (run step s₂ ls₂) := by
  induction ls₁ generalizing s₁ s₂ ls₂ with
  | nil =>
    obtain rfl : ls₂ = [] := by simpa using hevents.symm
    exact hview
  | cons l₁ ls₁ ih =>
    cases ls₂ with
    | nil => cases hevents
    | cons l₂ =>
      simp only [List.map_cons, List.cons.injEq] at hevents
      simp only [List.mem_cons, forall_eq_or_imp] at hdomain
      have hnext := h.congr s₁ s₂ l₁ l₂ hdomain.1 hview hevents.1
      have hrest := ih hnext hevents.2 hdomain.2
      exact hrest

/-- The part depends only on the accepted events about it. -/
theorem Observes.run_filter (h : Observes step view event Domain About) {s : S} {ls : List L}
    (P : K → Bool) (hdomain : ∀ l ∈ ls, Domain (event l))
    (hkept : ∀ k ∈ taken step event s ls, About k → P k) :
    view (run step s (ls.filter fun l => P (event l))) = view (run step s ls) := by
  induction ls generalizing s with
  | nil => rfl
  | cons l ls ih =>
    simp only [List.mem_cons, forall_eq_or_imp] at hdomain
    -- whether accepted or refused, the rest of the run starts from `apply step s l`
    have hrest : ∀ k ∈ taken step event (apply step s l) ls, About k → P k := by
      intro k hk
      apply hkept
      cases hl : step s l with
      | error => simpa only [taken, transitions, hl, apply_error hl] using hk
      | ok =>
        rw [apply_ok hl] at hk
        simp only [taken, transitions, hl, List.map_cons]
        exact List.mem_cons_of_mem _ hk
    have hih := ih hdomain.2 hrest
    by_cases hP : P (event l) = true
    · rw [List.filter_cons, if_pos hP]
      exact hih
    · rw [List.filter_cons, if_neg hP]
      -- a skipped event did not touch the part
      have hskip : view s = view (apply step s l) := by
        by_cases habout : About (event l)
        · cases hl : step s l with
          | error => rw [apply_error hl]
          | ok =>
            refine absurd (hkept (event l) ?_ habout) hP
            simp [taken, transitions, hl]
        · exact (h.frame s l hdomain.1 habout).symm
      refine (h.run_congr hskip rfl fun l' hl' => ?_).trans hih
      exact hdomain.2 l' (List.mem_of_mem_filter hl')

/-- Replicas that see the accepted events about the part in one order end with the same
part. -/
theorem Observes.converge (h : Observes step view event Domain About) {s₁ s₂ : S}
    {ls₁ ls₂ : List L} (hview : view s₁ = view s₂)
    (hperm : (ls₁.map event).Perm (ls₂.map event)) (hnodup : (ls₁.map event).Nodup)
    (hdomain : ∀ k ∈ ls₁.map event, Domain k)
    (horder : ∀ a ∈ taken step event s₁ ls₁ ++ taken step event s₂ ls₂,
      ∀ b ∈ taken step event s₁ ls₁ ++ taken step event s₂ ls₂, About a → About b →
        Before (ls₁.map event) a b → Before (ls₂.map event) a b) :
    view (run step s₁ ls₁) = view (run step s₂ ls₂) := by
  classical
  let P : K → Bool := fun k =>
    decide (About k ∧ k ∈ taken step event s₁ ls₁ ++ taken step event s₂ ls₂)
  have hdomain₁ : ∀ l ∈ ls₁, Domain (event l) :=
    fun l hl => hdomain _ (List.mem_map_of_mem hl)
  have hdomain₂ : ∀ l ∈ ls₂, Domain (event l) :=
    fun l hl => hdomain _ (hperm.mem_iff.mpr (List.mem_map_of_mem hl))
  have hsame : (ls₁.map event).filter P = (ls₂.map event).filter P := by
    refine filter_eq_of_before hperm hnodup P fun a b ha hb hab => ?_
    obtain ⟨haboutA, hA⟩ := of_decide_eq_true ha
    obtain ⟨haboutB, hB⟩ := of_decide_eq_true hb
    exact horder a hA b hB haboutA haboutB hab
  calc view (run step s₁ ls₁)
      = view (run step s₁ (ls₁.filter fun l => P (event l))) :=
        (h.run_filter P hdomain₁ fun k hk habout =>
          decide_eq_true ⟨habout, List.mem_append_left _ hk⟩).symm
    _ = view (run step s₂ (ls₂.filter fun l => P (event l))) := by
        refine h.run_congr hview ?_ fun l hl => hdomain₁ l (List.mem_of_mem_filter hl)
        rw [List.filter_map, List.filter_map] at hsame
        exact hsame
    _ = view (run step s₂ ls₂) :=
        h.run_filter P hdomain₂ fun k hk habout =>
          decide_eq_true ⟨habout, List.mem_append_right _ hk⟩

end Runs

end OpenFiat.ObservedRuns
