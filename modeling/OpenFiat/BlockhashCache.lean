import Mathlib.Data.List.Basic
import Mathlib.Order.Lattice

/-!
# The blockhash cache

A node remembers for a while which pairs of a blockhash and a slot were announced to it, and
offers the pair of the highest slot. An entry that has expired is not offered, but it is not
replaced either: only a higher slot replaces it, so it hides what was announced after it.
-/
namespace OpenFiat.BlockhashCache

/-- Milliseconds of the node's clock. -/
def blockhashValidity : ℕ := 75 * 1000

structure Observed where
  slot : ℕ
  observedAt : ℕ
deriving DecidableEq

structure Cache where
  seen : List ((String × ℕ) × ℕ)
  current : Option (String × Observed)
  validity : ℕ
deriving DecidableEq

namespace Cache

def withValidity (validity : ℕ) : Cache := ⟨[], none, validity⟩

def pruneExpired (c : Cache) (now : ℕ) : Cache :=
  { c with seen := c.seen.filter fun e => now - e.2 < c.validity }

def observe (c : Cache) (now : ℕ) (blockhash : String) (slot : ℕ) : Cache × Bool :=
  let c := c.pruneExpired now
  let firstSeen := !c.seen.any fun e => e.1 = (blockhash, slot)
  let seen := ((blockhash, slot), now) :: c.seen.filter fun e => e.1 ≠ (blockhash, slot)
  let isNewer := c.current.all fun e => e.2.slot < slot
  let current := if isNewer then some (blockhash, ⟨slot, now⟩) else c.current
  ({ c with seen, current }, firstSeen)

def offered (c : Cache) (now : ℕ) : Option (String × ℕ) :=
  c.current.bind fun e => if now - e.2.observedAt < c.validity then some (e.1, e.2.slot) else none

end Cache

structure Announcement where
  time : ℕ
  blockhash : String
  slot : ℕ
deriving DecidableEq

def Announcement.pair (a : Announcement) : String × ℕ := (a.blockhash, a.slot)

/-- The cache after the announcements of a history, the latest of which comes first. -/
def cacheOf (validity : ℕ) : List Announcement → Cache
  | [] => .withValidity validity
  | a :: earlier => ((cacheOf validity earlier).observe a.time a.blockhash a.slot).1

/-- The announcements of pairs that were not announced before. -/
def firsts : List Announcement → List Announcement
  | [] => []
  | a :: earlier => if earlier.any (·.pair = a.pair) then firsts earlier else a :: firsts earlier

/-- A pair that was announced for the first time less than the validity before. -/
def Live (validity : ℕ) (H : List Announcement) (now : ℕ) (pair : String × ℕ) : Prop :=
  ∃ a ∈ firsts H, a.pair = pair ∧ now - a.time < validity

/-- The first announcement of the highest slot. -/
def top : List Announcement → Option Announcement
  | [] => none
  | a :: earlier => if (top earlier).all (·.slot < a.slot) then some a else top earlier

/-- What is offered is live and of the highest slot among what is, and nothing is offered only when
nothing is live. -/
def OffersBest (validity : ℕ) (H : List Announcement) (now : ℕ) : Prop :=
  (∀ pair, (cacheOf validity H).offered now = some pair →
    Live validity H now pair ∧ ∀ other, Live validity H now other → other.2 ≤ pair.2) ∧
  ((cacheOf validity H).offered now = none ↔ ∀ pair, ¬ Live validity H now pair)

variable (validity : ℕ) {now : ℕ} {H : List Announcement}

theorem validity_cacheOf (H : List Announcement) : (cacheOf validity H).validity = validity := by
  induction H with
  | nil => rfl
  | cons a earlier ih => exact ih

/-- What is remembered of a pair at a later time is its latest announcement. -/
theorem seen_cacheOf (hclock : H.Pairwise fun a b => b.time ≤ a.time)
    (hnow : ∀ a ∈ H, a.time ≤ now) (pair : String × ℕ) :
    (∃ e ∈ (cacheOf validity H).seen, e.1 = pair ∧ now - e.2 < validity) ↔
      ∃ a ∈ H, a.pair = pair ∧ now - a.time < validity := by
  induction H with
  | nil => simp [cacheOf, Cache.withValidity]
  | cons a earlier ih =>
    obtain ⟨hlater, hearlier⟩ := List.pairwise_cons.mp hclock
    obtain ⟨hle, hrest⟩ := List.forall_mem_cons.mp hnow
    have hold := ih hearlier hrest
    simp only [cacheOf, Cache.observe, Cache.pruneExpired, validity_cacheOf,
      List.exists_mem_cons_iff, List.mem_filter, decide_eq_true_eq, and_assoc]
    constructor
    · rintro (⟨hpair, hlive⟩ | ⟨e, he, -, -, hpair, hlive⟩)
      · exact .inl ⟨hpair, hlive⟩
      · exact .inr (hold.mp ⟨e, he, hpair, hlive⟩)
    · intro h
      by_cases hpair : a.pair = pair
      · refine .inl ⟨hpair, ?_⟩
        rcases h with h | ⟨b, hb, -, hlive⟩
        · exact h.2
        · have hb' := hlater b hb
          omega
      · obtain ⟨e, he, rfl, hlive⟩ := hold.mpr (h.resolve_left fun h => hpair h.1)
        have hkept : a.time - e.2 < validity := (Nat.sub_le_sub_right hle e.2).trans_lt hlive
        exact .inr ⟨e, he, hkept, Ne.symm hpair, rfl, hlive⟩

theorem firsts_sublist (H : List Announcement) : (firsts H).Sublist H := by
  induction H with
  | nil => exact .slnil
  | cons a earlier ih =>
    rw [firsts]
    split_ifs
    · exact ih.cons a
    · exact ih.cons_cons a

theorem top_eq_none_iff : top H = none ↔ H = [] := by
  induction H with
  | nil => simp [top]
  | cons a earlier ih =>
    rw [top]
    split_ifs with hnewer
    · simp
    · refine iff_of_false (fun hnone => hnewer ?_) (by simp)
      rw [hnone]
      rfl

theorem top_spec {m : Announcement} (h : top H = some m) :
    m ∈ firsts H ∧ ∀ c ∈ H, c.slot ≤ m.slot := by
  induction H generalizing m with
  | nil => cases h
  | cons a earlier ih =>
    rw [firsts, List.forall_mem_cons]
    rw [top] at h
    split_ifs at h with hnewer
    · obtain rfl := Option.some.inj h
      have hbelow : ∀ c ∈ earlier, c.slot < a.slot := by
        intro c hc
        cases htop : top earlier with
        | none => simp [top_eq_none_iff.mp htop] at hc
        | some m =>
          rw [htop] at hnewer
          exact ((ih htop).2 c hc).trans_lt (of_decide_eq_true hnewer)
      refine ⟨?_, le_rfl, fun c hc => (hbelow c hc).le⟩
      rw [if_neg]
      · exact List.mem_cons_self
      · rw [List.any_eq_true]
        rintro ⟨c, hc, hpair⟩
        exact (hbelow c hc).ne (congrArg Prod.snd (of_decide_eq_true hpair))
    · obtain ⟨hfirst, hmax⟩ := ih h
      rw [h] at hnewer
      refine ⟨?_, not_lt.mp fun hlt => hnewer (decide_eq_true hlt), hmax⟩
      split_ifs
      · exact hfirst
      · exact List.mem_cons_of_mem _ hfirst

theorem current_cacheOf (H : List Announcement) : (cacheOf validity H).current =
    (top H).map fun a => (a.blockhash, ⟨a.slot, a.time⟩) := by
  induction H with
  | nil => rfl
  | cons a earlier ih =>
    simp only [cacheOf, Cache.observe, Cache.pruneExpired, top, ih, Option.all_map]
    split_ifs <;> rfl

/-- An announcement is reported as new exactly when its pair was not announced within the
validity before it. What is offered is the best exactly as long as the first announcement of the
highest slot is live or no pair that was new after it is. -/
theorem best_live_iff (validity : ℕ) (H : List Announcement)
    (hclock : H.Pairwise fun a b => b.time ≤ a.time) :
    (∀ a : Announcement, (∀ b ∈ H, b.time ≤ a.time) →
      (((cacheOf validity H).observe a.time a.blockhash a.slot).2 = true ↔
        ∀ b ∈ H, b.pair = a.pair → ¬ a.time - b.time < validity)) ∧
    ∀ now, OffersBest validity H now ↔ ∀ m, top H = some m → now - m.time < validity ∨
      ∀ c ∈ firsts H, m.time < c.time → ¬ now - c.time < validity := by
  constructor
  · intro a ha
    have hseen := not_congr (seen_cacheOf validity hclock ha a.pair)
    simp only [not_exists, not_and] at hseen
    rw [← hseen]
    simp only [Cache.observe, Cache.pruneExpired, validity_cacheOf, Bool.not_eq_true',
      List.any_eq_false, List.mem_filter, decide_eq_true_eq, and_imp]
    exact forall₂_congr fun e he => imp_not_comm
  · intro now
    rw [OffersBest, Cache.offered, current_cacheOf, validity_cacheOf]
    cases htop : top H with
    | none => simp [top_eq_none_iff.mp htop, Live, firsts]
    | some m =>
      obtain ⟨hfirst, hmax⟩ := top_spec htop
      simp only [Option.map_some, Option.bind_some, Option.some.injEq, forall_eq']
      by_cases hlive : now - m.time < validity
      · have hbest : Live validity H now m.pair := ⟨m, hfirst, rfl, hlive⟩
        rw [if_pos hlive]
        refine iff_of_true ⟨?_, iff_of_false (by simp) fun h => h m.pair hbest⟩ (.inl hlive)
        rintro _ ⟨⟩
        refine ⟨hbest, ?_⟩
        rintro _ ⟨c, hc, rfl, -⟩
        exact hmax c ((firsts_sublist H).subset hc)
      · rw [if_neg hlive]
        simp only [reduceCtorEq, false_imp_iff, implies_true, true_and, true_iff, hlive, false_or]
        constructor
        · exact fun h c hc _ hnew => h c.pair ⟨c, hc, rfl, hnew⟩
        · rintro h _ ⟨c, hc, -, hnew⟩
          -- what was new before the entry has expired with it
          refine h c hc (lt_of_not_ge fun hle => hlive ?_) hnew
          exact (Nat.sub_le_sub_left hle now).trans_lt hnew

/-- A lower slot that is announced late does no harm as long as the highest is live. -/
theorem best_live_iff_late :
    (cacheOf 75 [⟨12, "a", 1⟩, ⟨10, "b", 2⟩]).offered 80 = some ("b", 2) ∧
      OffersBest 75 [⟨12, "a", 1⟩, ⟨10, "b", 2⟩] 80 := by
  refine ⟨by decide, ((best_live_iff 75 [⟨12, "a", 1⟩, ⟨10, "b", 2⟩] (by simp)).2 80).mpr ?_⟩
  rintro m hm
  obtain rfl : ⟨10, "b", 2⟩ = m := Option.some.inj hm
  exact .inl (by decide)

/-- One announcement of the highest slot, and nothing is offered after it has expired. -/
theorem high_slot_outlasts :
    (cacheOf blockhashValidity [⟨75000, "b", 5⟩, ⟨0, "a", 18446744073709551615⟩]).offered 75000 =
        none ∧
      Live blockhashValidity [⟨75000, "b", 5⟩, ⟨0, "a", 18446744073709551615⟩] 75000 ("b", 5) :=
  ⟨by decide, ⟨75000, "b", 5⟩, by simp [firsts, Announcement.pair], rfl, by decide⟩

end OpenFiat.BlockhashCache
