import Mathlib.Data.Finset.Card
import Mathlib.Logic.Relation

/-!
# Bounded walks

A breadth-first walk takes one node after the other from a queue, and queues those of its
successors that were never queued before. It stops after a given number of nodes. What it visits
is reachable, and if no more is reachable than the walk may visit, it visits all of it.
-/
namespace OpenFiat.BoundedWalk

variable {α : Type*} [DecidableEq α]

/-- The queue, and all that was ever in it. -/
def offer (s : List α × List α) (a : α) : List α × List α :=
  if a ∈ s.2 then s else (s.1 ++ [a], a :: s.2)

def walk (next : α → List α) : ℕ → List α → List α → List α
  | 0, _, _ => []
  | _, [], _ => []
  | room + 1, a :: pending, seen =>
    let s := (next a).foldl offer (pending, seen)
    a :: walk next room s.1 s.2

def Reaches (next : α → List α) : α → α → Prop := Relation.ReflTransGen fun a b => b ∈ next a

/-- Between two rounds: what was visited and what is queued was seen once, and nothing else. -/
structure Ahead (next : α → List α) (root : α) (done pending seen : List α) : Prop where
  nodup : (done ++ pending).Nodup
  seen_iff : ∀ a, a ∈ seen ↔ a ∈ done ++ pending
  reached : ∀ a ∈ done ++ pending, Reaches next root a
  closed : ∀ a ∈ done, ∀ b ∈ next a, b ∈ done ++ pending

variable {next : α → List α} {root a : α} {done pending seen : List α}

theorem foldl_offer (l : List α) {s : List α × List α} (hnodup : (done ++ s.1).Nodup)
    (hseen : ∀ a, a ∈ s.2 ↔ a ∈ done ++ s.1) :
    (done ++ (l.foldl offer s).1).Nodup ∧
      (∀ a, a ∈ (l.foldl offer s).2 ↔ a ∈ done ++ (l.foldl offer s).1) ∧
      ∀ a, a ∈ done ++ (l.foldl offer s).1 ↔ a ∈ done ++ s.1 ∨ a ∈ l := by
  induction l generalizing s with
  | nil => exact ⟨hnodup, hseen, by simp⟩
  | cons b l ih =>
    rw [List.foldl_cons]
    by_cases hb : b ∈ s.2
    · have hold := (hseen b).mp hb
      rw [offer, if_pos hb]
      refine (ih hnodup hseen).imp_right (And.imp_right fun hmem a => ?_)
      rw [hmem, List.mem_cons]
      constructor
      · exact Or.imp_right .inr
      · rintro (h | rfl | h)
        · exact .inl h
        · exact .inl hold
        · exact .inr h
    · rw [offer, if_neg hb]
      have hnew : b ∉ done ++ s.1 := fun h => hb ((hseen b).mpr h)
      refine (ih ?_ fun a => ?_).imp_right (And.imp_right fun hmem a => ?_)
      · rw [← List.append_assoc, ← List.concat_eq_append]
        exact hnodup.concat hnew
      · rw [List.mem_cons, hseen, ← List.append_assoc, List.mem_append (s := done ++ s.1),
          List.mem_singleton, or_comm]
      · rw [hmem, ← List.append_assoc, List.mem_append (s := done ++ s.1), List.mem_singleton,
          List.mem_cons, or_assoc]

theorem Ahead.visit (h : Ahead next root done (a :: pending) seen) :
    Ahead next root (done ++ [a]) ((next a).foldl offer (pending, seen)).1
      ((next a).foldl offer (pending, seen)).2 := by
  have hsplit : done ++ a :: pending = (done ++ [a]) ++ pending := by simp
  obtain ⟨hnodup, hseen, hreached, hclosed⟩ := h
  rw [hsplit] at hnodup hseen hreached hclosed
  obtain ⟨hnodup', hseen', hmem⟩ := foldl_offer (next a) (s := (pending, seen)) hnodup hseen
  have hroot : Reaches next root a := hreached a (by simp)
  refine ⟨hnodup', hseen', fun b hb => ?_, fun b hb c hc => (hmem c).mpr ?_⟩
  · rcases (hmem b).mp hb with hb | hb
    · exact hreached b hb
    · exact hroot.tail hb
  · rcases List.mem_append.mp hb with hb | hb
    · exact .inl (hclosed b hb c hc)
    · exact .inr (List.mem_singleton.mp hb ▸ hc)

/-- With room for all that is reachable, the walk ends with an empty queue. -/
theorem Ahead.walk {room : ℕ} (h : Ahead next root done pending seen)
    (hroom : ∀ l : List α, l.Nodup → (∀ a ∈ l, Reaches next root a) →
      l.length ≤ done.length + room) :
    ∃ seen', Ahead next root (done ++ walk next room pending seen) [] seen' := by
  induction room generalizing done pending seen with
  | zero =>
    have hlength := hroom _ h.nodup h.reached
    rw [List.length_append] at hlength
    obtain rfl : pending = [] := List.eq_nil_of_length_eq_zero (by omega)
    exact ⟨seen, by simpa [BoundedWalk.walk] using h⟩
  | succ room ih =>
    cases pending with
    | nil => exact ⟨seen, by simpa [BoundedWalk.walk] using h⟩
    | cons a pending =>
      obtain ⟨seen', hend⟩ := ih h.visit fun l hnodup hreached => by
        have hlength := hroom l hnodup hreached
        rw [List.length_append, List.length_singleton]
        omega
      exact ⟨seen', by simpa [BoundedWalk.walk] using hend⟩

theorem mem_walk_iff {room : ℕ} {bound : Finset α} (hcard : bound.card ≤ room)
    (hbound : ∀ a, Reaches next root a → a ∈ bound) :
    a ∈ walk next room [root] [root] ↔ Reaches next root a := by
  have hstart : Ahead next root [] [root] [root] :=
    ⟨List.nodup_singleton root, fun _ => Iff.rfl, fun b hb => List.mem_singleton.mp hb ▸ .refl,
      fun b hb => absurd hb List.not_mem_nil⟩
  have hroom (l : List α) (hnodup : l.Nodup) (hreached : ∀ b ∈ l, Reaches next root b) :
      l.length ≤ ([] : List α).length + room := by
    have hsub : l.toFinset ⊆ bound := fun b hb => hbound b (hreached b (List.mem_toFinset.mp hb))
    rw [← List.toFinset_card_of_nodup hnodup, List.length_nil, Nat.zero_add]
    exact (Finset.card_le_card hsub).trans hcard
  obtain ⟨seen, hend⟩ := hstart.walk hroom
  have hnonempty : root ∈ walk next room [root] [root] := by
    have hpos : 0 < room := (Finset.card_pos.mpr ⟨root, hbound root .refl⟩).trans_le hcard
    obtain ⟨n, rfl⟩ := Nat.exists_eq_succ_of_ne_zero hpos.ne'
    exact List.mem_cons_self
  refine ⟨fun ha => hend.reached a (by simpa using ha), fun ha => ?_⟩
  induction ha with
  | refl => exact hnonempty
  | tail _ hb ih => simpa using hend.closed _ (by simpa using ih) _ hb

end OpenFiat.BoundedWalk
