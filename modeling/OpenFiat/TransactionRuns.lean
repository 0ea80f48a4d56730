import OpenFiat.GuardedResult

/-!
# Runs of a transaction system

A system is a partial step function: a transaction either returns the next state
or fails, and a failed transaction changes nothing. `run` executes a list of
transactions and `transitions` lists the ones that succeeded, in order, each with
the states before and after it.

`run_history_rule` is the one induction over runs. It carries a predicate of the
executed transitions together with the state they lead to, under a condition `G`
that every executed transition satisfies; the invariant rules are its instances.
-/
namespace OpenFiat.TransactionRuns

structure Transition (S L : Type) where
  before : S
  label : L
  after : S

section
variable {S L E : Type} (step : S → L → Except E S)

def apply (s : S) (l : L) : S :=
  match step s l with
  | .ok s' => s'
  | .error _ => s

def run (s : S) (ls : List L) : S := ls.foldl (apply step) s

def transitions (s : S) : List L → List (Transition S L)
  | [] => []
  | l :: ls =>
    match step s l with
    | .ok s' => ⟨s, l, s'⟩ :: transitions s' ls
    | .error _ => transitions s ls

@[simp] theorem run_nil (s : S) : run step s [] = s := rfl

theorem run_append (s : S) (ls ms : List L) :
    run step s (ls ++ ms) = run step (run step s ls) ms := by
  simp [run]

theorem run_concat (s : S) (ls : List L) (l : L) :
    run step s (ls ++ [l]) = apply step (run step s ls) l := by
  rw [run_append]
  rfl

theorem transitions_append (s : S) (ls ms : List L) :
    transitions step s (ls ++ ms) =
      transitions step s ls ++ transitions step (run step s ls) ms := by
  induction ls generalizing s with
  | nil => rfl
  | cons l ls ih =>
    cases h : step s l with
    | error | ok =>
      simp only [List.cons_append, transitions, h, ih]
      simp [run, apply, h]

variable {step}

variable {l : L} {s s' : S} {ls : List L} {I Q : S → Prop}
  {G : List (Transition S L) → Transition S L → Prop} {t : Transition S L}

theorem step_eq_apply (h : (step s l).isOk = true) : step s l = .ok (apply step s l) := by
  unfold apply
  cases hstep : step s l with
  | error =>
    rw [hstep] at h
    cases h
  | ok => rfl

theorem apply_ok (h : step s l = .ok s') : apply step s l = s' := by
  rw [apply, h]

theorem apply_error {e : E} (h : step s l = .error e) : apply step s l = s := by
  rw [apply, h]

theorem run_cons_ok (h : step s l = .ok s') (ls : List L) :
    run step s (l :: ls) = run step s' ls := by
  simp [run, apply, h]

theorem last_mem_transitions (h : (step (run step s ls) l).isOk = true) :
    ⟨run step s ls, l, apply step (run step s ls) l⟩ ∈ transitions step s (ls ++ [l]) := by
  rw [transitions_append]
  refine List.mem_append_right _ ?_
  simp [transitions, step_eq_apply h]

theorem run_history_rule {J : List (Transition S L) → S → Prop} {G : Transition S L → Prop}
    (hstep : ∀ H s l s', J H s → step s l = .ok s' → G ⟨s, l, s'⟩ → J (H ++ [⟨s, l, s'⟩]) s')
    {H : List (Transition S L)} (hs : J H s) (ls : List L) (hG : ∀ t ∈ transitions step s ls, G t) :
    J (H ++ transitions step s ls) (run step s ls) := by
  induction ls generalizing H s with
  | nil => simpa [transitions] using hs
  | cons l ls ih =>
    cases h : step s l with
    | error =>
      simp only [transitions, h] at hG
      simpa [transitions, h, run, apply] using ih hs hG
    | ok s' =>
      simp only [transitions, h, List.mem_cons, forall_eq_or_imp] at hG
      have hrest := ih (hstep H s l s' hs h hG.1) hG.2
      simpa [transitions, h, run, apply] using hrest

/-- A condition that successful steps preserve, when they satisfy `G`, holds
after every run of such steps. -/
theorem run_invariant {G : Transition S L → Prop}
    (hstep : ∀ s l s', I s → step s l = .ok s' → G ⟨s, l, s'⟩ → I s') (hs : I s) (ls : List L)
    (hG : ∀ t ∈ transitions step s ls, G t) : I (run step s ls) :=
  run_history_rule (J := fun _ s => I s) (fun _ s l s' => hstep s l s') (H := []) hs ls hG

theorem run_invariant_always (hstep : ∀ s l s', I s → step s l = .ok s' → I s') (hs : I s)
    (ls : List L) : I (run step s ls) :=
  run_invariant (G := fun _ => True) (fun s l s' h h' _ => hstep s l s' h h')
    hs ls fun _ _ => trivial

/-- A reflexive and transitive relation that every successful step respects
relates the two ends of a run. -/
theorem run_relation {R : S → S → Prop} (hrefl : ∀ s, R s s)
    (htrans : ∀ s s' s'', R s s' → R s' s'' → R s s'')
    (hstep : ∀ s l s', step s l = .ok s' → R s s') (s : S) (ls : List L) : R s (run step s ls) :=
  run_invariant_always (I := R s) (fun a l b h hl => htrans s a b h (hstep a l b hl)) (hrefl s) ls

/-- Every executed transaction satisfies `G` together with what was executed before it. -/
def InContext (step : S → L → Except E S)
    (G : List (Transition S L) → Transition S L → Prop) (s : S) (ls : List L) : Prop :=
  ∀ mid l s', mid ++ [l] <+: ls → step (run step s mid) l = .ok s' →
    G (transitions step s mid) ⟨run step s mid, l, s'⟩

theorem InContext.of_initial {ms : List L} (h : InContext step G s ls) (hms : ms <+: ls) :
    InContext step G s ms :=
  fun mid l s' hmid => h mid l s' (hmid.trans hms)

theorem inContext_nil : InContext step G s [] := by
  intro mid l s' hmid
  have hlength := hmid.length_le
  rw [List.length_append] at hlength
  exact absurd hlength (Nat.not_succ_le_zero _)

theorem InContext.concat (h : InContext step G s ls)
    (hlast : ∀ s', step (run step s ls) l = .ok s' →
      G (transitions step s ls) ⟨run step s ls, l, s'⟩) : InContext step G s (ls ++ [l]) := by
  intro mid l' s' hmid hl'
  rcases List.prefix_concat_iff.mp hmid with heq | hmid
  · obtain ⟨rfl, hlabel⟩ := List.append_inj' heq rfl
    obtain rfl := List.singleton_inj.mp hlabel
    exact hlast s' hl'
  · exact h mid l' s' hmid hl'

theorem InContext.of_forall (h : ∀ l ∈ ls, ∀ H s s', G H ⟨s, l, s'⟩) : InContext step G s ls :=
  fun mid l s' hmid _ =>
    h l (hmid.subset (List.mem_append_right mid List.mem_cons_self)) _ _ s'

/-- The induction over runs whose condition may look at the past. -/
theorem run_context_rule {J : List (Transition S L) → S → Prop}
    (hstep : ∀ H s l s', J H s → step s l = .ok s' → G H ⟨s, l, s'⟩ → J (H ++ [⟨s, l, s'⟩]) s')
    (hs : J [] s) (hG : InContext step G s ls) : J (transitions step s ls) (run step s ls) := by
  induction ls using List.reverseRecOn with
  | nil => exact hs
  | append_singleton ls l ih =>
    have hrest := ih (hG.of_initial (List.prefix_append ls [l]))
    rw [run_concat]
    cases h : step (run step s ls) l with
    | error =>
      rw [apply_error h, transitions_append]
      simpa [transitions, h] using hrest
    | ok s' =>
      rw [apply_ok h, transitions_append]
      simp only [transitions, h]
      exact hstep _ _ l s' hrest h (hG ls l s' (List.prefix_refl _) h)

/-- The system that keeps a record of the transactions that it refuses, too. -/
def deliver (step : S → L → Except E S) (s : S) (l : L) : Except Empty S := .ok (apply step s l)

/-- A view of the state stays the same throughout a run exactly if every executed transaction
leaves it the same. -/
theorem view_constant_iff {V : Type} (view : S → V) :
    (∀ mid, mid <+: ls → view (run step s mid) = view s) ↔
      InContext step (fun _ t => view t.after = view t.before) s ls := by
  constructor
  · intro h mid l s' hmid hl
    have hafter := h (mid ++ [l]) hmid
    rw [run_concat, apply_ok hl] at hafter
    exact hafter.trans (h mid ((List.prefix_append mid [l]).trans hmid)).symm
  · intro h mid hmid
    exact run_context_rule (J := fun _ s' => view s' = view s)
      (fun _ _ _ _ hJ _ hsame => hsame.trans hJ) rfl (h.of_initial hmid)

section Beside
variable {S' L' E' : Type}

/-- Two systems that share nothing; a transaction belongs to one of them. -/
def beside (step : S → L → Except E S) (step' : S' → L' → Except E' S') (s : S × S') :
    L ⊕ L' → Except (E ⊕ E') (S × S')
  | .inl l => do
    let t ← (step s.1 l).mapError Sum.inl
    return (t, s.2)
  | .inr l => do
    let t ← (step' s.2 l).mapError Sum.inr
    return (s.1, t)

theorem run_beside_fst (step' : S' → L' → Except E' S') (s : S × S') (ls : List (L ⊕ L')) :
    (run (beside step step') s ls).1 = run step s.1 (ls.filterMap Sum.getLeft?) := by
  induction ls generalizing s with
  | nil => rfl
  | cons l ls ih =>
    change (run (beside step step') (apply (beside step step') s l) ls).1 = _
    rw [ih]
    cases l with
    | inl l =>
      change _ = run step (apply step s.1 l) (ls.filterMap Sum.getLeft?)
      cases h : step s.1 l with
      | error | ok => simp only [apply, beside, h]; rfl
    | inr l =>
      cases h : step' s.2 l with
      | error | ok => simp only [apply, beside, h]; rfl

end Beside

/-- `Q` holds in every state that the run passes through, its two ends included. -/
def Throughout (step : S → L → Except E S) (Q : S → Prop) (s : S) (ls : List L) : Prop :=
  ∀ mid, mid <+: ls → Q (run step s mid)

theorem throughout_iff_inits : Throughout step Q s ls ↔ ∀ mid ∈ ls.inits, Q (run step s mid) := by
  simp [Throughout]

theorem throughout_nil : Throughout step Q s [] ↔ Q s := by
  simp [Throughout]

theorem Throughout.concat (h : Throughout step Q s ls) (hlast : Q (run step s (ls ++ [l]))) :
    Throughout step Q s (ls ++ [l]) := by
  intro mid hmid
  rcases List.prefix_concat_iff.mp hmid with rfl | hmid
  · exact hlast
  · exact h mid hmid

theorem Throughout.tail (h : Throughout step Q s (l :: ls)) :
    Throughout step Q (apply step s l) ls :=
  fun mid hmid => h (l :: mid) ((List.prefix_cons_inj l).mpr hmid)

/-- The invariant rule for a run throughout which `Q` holds: a step may assume `Q` of
both its ends. -/
theorem run_invariant_throughout {G : Transition S L → Prop}
    (hstep : ∀ s l s', Q s → Q s' → I s → step s l = .ok s' → G ⟨s, l, s'⟩ → I s') (hs : I s)
    (hQ : Throughout step Q s ls) (hG : ∀ t ∈ transitions step s ls, G t) : I (run step s ls) := by
  induction ls generalizing s with
  | nil => exact hs
  | cons l ls ih =>
    have hfirst : Q s := hQ [] List.nil_prefix
    have htail := hQ.tail
    have hnext : Q (apply step s l) := htail [] List.nil_prefix
    cases h : step s l with
    | error =>
      simp only [transitions, h] at hG
      simp only [apply, h] at htail
      simpa [run, apply, h] using ih hs htail hG
    | ok s' =>
      simp only [transitions, h, List.mem_cons, forall_eq_or_imp] at hG
      simp only [apply, h] at htail hnext
      have hrest := ih (hstep s l s' hfirst hnext hs h hG.1) htail hG.2
      simpa [run, apply, h] using hrest

/-- An executed transition is a successful step from a state that a run over
earlier transactions reaches. -/
theorem exists_run_of_mem (h : t ∈ transitions step s ls) :
    ∃ pre post, ls = pre ++ t.label :: post ∧ run step s pre = t.before ∧
      step t.before t.label = .ok t.after := by
  induction ls generalizing s with
  | nil => cases h
  | cons l ls ih =>
    cases hl : step s l with
    | error =>
      simp only [transitions, hl] at h
      obtain ⟨pre, post, rfl, hpre, ht⟩ := ih h
      exact ⟨l :: pre, post, rfl, by simpa [run, apply, hl] using hpre, ht⟩
    | ok =>
      simp only [transitions, hl, List.mem_cons] at h
      rcases h with rfl | h
      · exact ⟨[], ls, rfl, rfl, hl⟩
      · obtain ⟨pre, post, rfl, hpre, ht⟩ := ih h
        exact ⟨l :: pre, post, rfl,
          by simpa [run, apply, hl] using hpre, ht⟩

theorem label_mem_of_mem (h : t ∈ transitions step s ls) : t.label ∈ ls := by
  obtain ⟨pre, post, rfl, -, -⟩ := exists_run_of_mem h
  exact List.mem_append_right _ List.mem_cons_self

theorem step_of_mem (h : t ∈ transitions step s ls) : step t.before t.label = .ok t.after := by
  obtain ⟨pre, post, -, -, hstep⟩ := exists_run_of_mem h
  exact hstep

/-- A reflexive and transitive relation that every successful step respects relates the end
of each executed transition to the end of the run. -/
theorem relation_of_mem {R : S → S → Prop} (hrefl : ∀ s, R s s)
    (htrans : ∀ s s' s'', R s s' → R s' s'' → R s s'')
    (hstep : ∀ s l s', step s l = .ok s' → R s s') (ht : t ∈ transitions step s ls) :
    R t.after (run step s ls) := by
  obtain ⟨pre, post, rfl, hpre, hok⟩ := exists_run_of_mem ht
  rw [run_append, hpre, run_cons_ok hok]
  exact run_relation hrefl htrans hstep t.after post

/-- Every executed transition is a successful step from a state in which the invariant
holds. -/
theorem invariant_of_mem {G : Transition S L → Prop}
    (hstep : ∀ s l s', I s → step s l = .ok s' → G ⟨s, l, s'⟩ → I s') (hs : I s)
    (hG : ∀ t ∈ transitions step s ls, G t) (ht : t ∈ transitions step s ls) :
    I t.before ∧ step t.before t.label = .ok t.after := by
  obtain ⟨pre, post, rfl, hpre, hok⟩ := exists_run_of_mem ht
  rw [transitions_append] at hG
  refine ⟨?_, hok⟩
  rw [← hpre]
  exact run_invariant hstep hs pre fun t ht => hG t (List.mem_append_left _ ht)

variable {K : Type}

def used (key : L → Option K) (H : List (Transition S L)) : List K :=
  H.filterMap fun t => key t.label

/-- When a step marks exactly the key that it uses, and finds it unmarked, no run uses a key
twice, and the marked keys are the used ones. -/
theorem run_used (key : L → Option K) {Marked : S → K → Prop}
    (hmarks : ∀ s l s', step s l = .ok s' → ∀ k, Marked s' k ↔ Marked s k ∨ key l = some k)
    (hfresh : ∀ s l s', step s l = .ok s' → ∀ k, key l = some k → ¬ Marked s k)
    (hs : ∀ k, ¬ Marked s k) (ls : List L) :
    (used key (transitions step s ls)).Nodup ∧
      ∀ k, Marked (run step s ls) k ↔ k ∈ used key (transitions step s ls) := by
  refine run_history_rule (G := fun _ => True)
    (J := fun H s => (used key H).Nodup ∧ ∀ k, Marked s k ↔ k ∈ used key H)
    ?_ (H := []) ⟨List.nodup_nil, fun k => ?_⟩ ls fun _ _ => trivial
  · rintro H s l s' ⟨hnodup, hmarked⟩ hl -
    simp only [used, List.filterMap_append] at hnodup hmarked ⊢
    cases hk : key l with
    | none =>
      simp only [List.filterMap_cons, hk, List.filterMap_nil, List.append_nil]
      refine ⟨hnodup, fun k => ?_⟩
      rw [hmarks s l s' hl k, hmarked k, hk]
      simp
    | some k₀ =>
      have hnew := hfresh s l s' hl k₀ hk
      rw [hmarked k₀] at hnew
      simp only [List.filterMap_cons, hk, List.filterMap_nil]
      refine ⟨?_, fun k => ?_⟩
      · rw [List.nodup_append]
        refine ⟨hnodup, List.pairwise_singleton _ k₀, ?_⟩
        rintro k hmem k' hk' rfl
        rw [List.mem_singleton] at hk'
        exact hnew (hk' ▸ hmem)
      · rw [hmarks s l s' hl k, hmarked k, hk, List.mem_append, List.mem_singleton,
          Option.some.injEq, eq_comm]
  · simp only [used, List.filterMap_nil, List.not_mem_nil, iff_false]
    exact hs k

end

end OpenFiat.TransactionRuns
