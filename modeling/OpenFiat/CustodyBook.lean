import OpenFiat.FiniteTable

/-!
# A custody book

An abstract account of holding funds for others. Pools hold funds of one owner
each and divide them into available, reserved, pending and settled parts; a box
holds one amount set aside from a pool, first as a reservation, then in its own
custody, until it is paid out. Balances are what the custodian really holds for
each pool and each box, and may exceed what the book promises.

`Move` and `Opening` are the changes a custodian makes; anything may be added to
any balance by anyone. `Sound` says that the parts of each pool add up, that the
balances cover the promises and that the pending part is the sum over funded
boxes. `Covered` says that reservations cover the boxes that are not funded yet;
opening a box keeps that only when the reservation has room for it.
-/
namespace OpenFiat.CustodyBook
open FiniteTable FiniteTable.Table

structure Pool where
  total : ℕ
  available : ℕ
  reserved : ℕ
  pending : ℕ
  settled : ℕ
deriving DecidableEq, Repr

inductive Phase where
  | reserved
  | funded
  | closed
deriving DecidableEq, Repr

structure Box (K : Type) where
  pool : K
  amount : ℕ
  phase : Phase
deriving DecidableEq, Repr

structure Book (K I : Type) [DecidableEq K] [DecidableEq I] where
  pools : Table K Pool
  boxes : Table I (Box K)
  poolBalance : K → ℕ
  boxBalance : I → ℕ

section
variable {K I : Type} [DecidableEq K] [DecidableEq I]

def share (k : K) (phase : Phase) (x : Box K) : ℕ :=
  if x.pool = k ∧ x.phase = phase then x.amount else 0

def Book.held (b : Book K I) (k : K) (phase : Phase) : ℕ :=
  Table.total (fun _ x => share k phase x) b.boxes

inductive Opening (i : I) (k : K) (n : ℕ) : Book K I → Book K I → Prop
  | intro {b : Book K I} {p : Pool} : b.boxes.lookup i = none → b.pools.lookup k = some p →
      n ≤ p.reserved → Opening i k n b { b with boxes := b.boxes.insert i ⟨k, n, .reserved⟩ }

inductive Move : Book K I → Book K I → Prop
  | grow {b : Book K I} {f : K → ℕ} {g : I → ℕ} : (∀ k, b.poolBalance k ≤ f k) →
      (∀ i, b.boxBalance i ≤ g i) → Move b { b with poolBalance := f, boxBalance := g }
  | openPool {b : Book K I} {k : K} : b.pools.lookup k = none →
      Move b { b with pools := b.pools.insert k ⟨0, 0, 0, 0, 0⟩ }
  | deposit {b : Book K I} {k : K} {p : Pool} {n : ℕ} {f : K → ℕ} {g : I → ℕ} :
      b.pools.lookup k = some p →
      (∀ j, b.poolBalance j + (if j = k then n else 0) ≤ f j) → (∀ i, b.boxBalance i ≤ g i) →
      Move b { b with
        pools := b.pools.insert k { p with total := p.total + n, available := p.available + n }
        poolBalance := f, boxBalance := g }
  | absorb {b : Book K I} {k : K} {p : Pool} {n : ℕ} : b.pools.lookup k = some p →
      p.total + n ≤ b.poolBalance k →
      Move b { b with
        pools := b.pools.insert k { p with total := p.total + n, available := p.available + n } }
  | withdraw {b : Book K I} {k : K} {p : Pool} {n : ℕ} {f : K → ℕ} {g : I → ℕ} :
      b.pools.lookup k = some p → n ≤ p.available → n ≤ p.total →
      (∀ j, b.poolBalance j ≤ f j + (if j = k then n else 0)) → (∀ i, b.boxBalance i ≤ g i) →
      Move b { b with
        pools := b.pools.insert k { p with total := p.total - n, available := p.available - n }
        poolBalance := f, boxBalance := g }
  | reserve {b : Book K I} {k : K} {p : Pool} {n : ℕ} : b.pools.lookup k = some p →
      n ≤ p.available →
      Move b { b with
        pools := b.pools.insert k
          { p with available := p.available - n, reserved := p.reserved + n } }
  | unreserve {b : Book K I} {i : I} {x : Box K} {p : Pool} : b.boxes.lookup i = some x →
      x.phase = .reserved → b.pools.lookup x.pool = some p → x.amount ≤ p.reserved →
      Move b { b with
        pools := b.pools.insert x.pool
          { p with reserved := p.reserved - x.amount, available := p.available + x.amount }
        boxes := b.boxes.insert i { x with phase := .closed } }
  | fund {b : Book K I} {i : I} {x : Box K} {p : Pool} {f : K → ℕ} {g : I → ℕ} :
      b.boxes.lookup i = some x → x.phase = .reserved → b.pools.lookup x.pool = some p →
      x.amount ≤ p.reserved →
      (∀ j, b.poolBalance j ≤ f j + (if j = x.pool then x.amount else 0)) →
      (∀ j, b.boxBalance j + (if j = i then x.amount else 0) ≤ g j) →
      Move b
        { pools := b.pools.insert x.pool
            { p with reserved := p.reserved - x.amount, pending := p.pending + x.amount }
          boxes := b.boxes.insert i { x with phase := .funded }
          poolBalance := f, boxBalance := g }
  | payout {b : Book K I} {i : I} {x : Box K} {p : Pool} {s : ℕ} {f : K → ℕ} {g : I → ℕ} :
      b.boxes.lookup i = some x → x.phase = .funded → b.pools.lookup x.pool = some p →
      x.amount ≤ p.pending → s ≤ x.amount →
      (∀ j, b.poolBalance j + (if j = x.pool then s else 0) ≤ f j) →
      (∀ j, b.boxBalance j ≤ g j + (if j = i then x.amount else 0)) →
      Move b
        { pools := b.pools.insert x.pool
            { p with
              pending := p.pending - x.amount, available := p.available + s
              settled := p.settled + (x.amount - s) }
          boxes := b.boxes.insert i { x with phase := .closed }
          poolBalance := f, boxBalance := g }

/-- A change made of any number of moves. -/
abbrev Moves : Book K I → Book K I → Prop := Relation.ReflTransGen Move

structure Sound (b : Book K I) : Prop where
  parts : ∀ k p, b.pools.lookup k = some p →
    p.total = p.available + p.reserved + p.pending + p.settled
  backed : ∀ k p, b.pools.lookup k = some p → p.available + p.reserved ≤ b.poolBalance k
  pending : ∀ k p, b.pools.lookup k = some p → p.pending = b.held k .funded
  boxed : ∀ i x, b.boxes.lookup i = some x → x.phase = .funded → x.amount ≤ b.boxBalance i
  owned : ∀ i x, b.boxes.lookup i = some x → ∃ p, b.pools.lookup x.pool = some p

variable {i : I} {x : Box K} {b b' : Book K I} {k : K} {p : Pool}

/-- Moving one box to another phase exchanges its contributions. -/
theorem held_setPhase {boxes : Table I (Box K)} (hx : boxes.lookup i = some x) (k : K)
    (q phase : Phase) :
    total (fun _ x => share k phase x) (boxes.insert i { x with phase := q }) +
        share k phase x =
      total (fun _ x => share k phase x) boxes + share k phase { x with phase := q } :=
  total_insert_old (fun _ x => share k phase x) _ hx

/-- Soundness after one pool and possibly one of its boxes changed: the conditions
on that pool and box have to be shown, all others carry over. -/
theorem Sound.update (h : Sound b) (hpools : b'.pools = b.pools.insert k p)
    (hparts : p.total = p.available + p.reserved + p.pending + p.settled)
    (hbacked : p.available + p.reserved ≤ b'.poolBalance k)
    (hgrow : ∀ j, j ≠ k → b.poolBalance j ≤ b'.poolBalance j)
    (hpending : p.pending = b'.held k .funded)
    (hheld : ∀ j, j ≠ k → b'.held j .funded = b.held j .funded)
    (hboxed : ∀ i x, b'.boxes.lookup i = some x → x.phase = .funded → x.amount ≤ b'.boxBalance i)
    (howned : ∀ i x, b'.boxes.lookup i = some x →
      x.pool = k ∨ ∃ x₀, b.boxes.lookup i = some x₀ ∧ x₀.pool = x.pool) : Sound b' := by
  have hlookup (j : K) : b'.pools.lookup j = if j = k then some p else b.pools.lookup j := by
    rw [hpools, lookup_insert_eq]
  have hsplit (j : K) (q : Pool) (hq : b'.pools.lookup j = some q) :
      (j = k ∧ q = p) ∨ (j ≠ k ∧ b.pools.lookup j = some q) := by
    rw [hlookup] at hq
    split_ifs at hq with hj
    · exact .inl ⟨hj, (Option.some.inj hq).symm⟩
    · exact .inr ⟨hj, hq⟩
  refine ⟨?_, ?_, ?_, hboxed, ?_⟩
  · intro j q hq
    rcases hsplit j q hq with ⟨-, rfl⟩ | ⟨-, hq⟩
    · exact hparts
    · exact h.parts j q hq
  · intro j q hq
    rcases hsplit j q hq with ⟨rfl, rfl⟩ | ⟨hj, hq⟩
    · exact hbacked
    · exact (h.backed j q hq).trans (hgrow j hj)
  · intro j q hq
    rcases hsplit j q hq with ⟨rfl, rfl⟩ | ⟨hj, hq⟩
    · exact hpending
    · rw [hheld j hj]
      exact h.pending j q hq
  · intro i x hx
    rw [hlookup]
    split_ifs with hj
    · exact ⟨p, rfl⟩
    · rcases howned i x hx with hk | ⟨x₀, hx₀, hpool⟩
      · exact absurd hk hj
      · rw [← hpool]
        exact h.owned i x₀ hx₀

theorem Sound.update_pool (h : Sound b) {p₀ : Pool} (hk : b.pools.lookup k = some p₀)
    (hpools : b'.pools = b.pools.insert k p) (hboxes : b'.boxes = b.boxes)
    (hparts : p.total = p.available + p.reserved + p.pending + p.settled)
    (hbacked : p.available + p.reserved ≤ b'.poolBalance k)
    (hgrow : ∀ j, j ≠ k → b.poolBalance j ≤ b'.poolBalance j) (hpending : p.pending = p₀.pending)
    (hxb : ∀ i, b.boxBalance i ≤ b'.boxBalance i) : Sound b' := by
  have hheld (j : K) : b'.held j .funded = b.held j .funded := by
    simp only [Book.held, hboxes]
  refine h.update hpools hparts hbacked hgrow ?_ (fun j _ => hheld j) ?_ ?_
  · rw [hheld, hpending]
    exact h.pending k p₀ hk
  · intro i x hx hf
    rw [hboxes] at hx
    exact (h.boxed i x hx hf).trans (hxb i)
  · intro i x hx
    rw [hboxes] at hx
    exact .inr ⟨x, hx, rfl⟩

theorem Opening.sound {n : ℕ} (hm : Opening i k n b b') (h : Sound b) : Sound b' := by
  cases hm with
  | @intro p hi hk =>
    have hheld (j : K) : total (fun _ x => share j .funded x)
        (b.boxes.insert i ⟨k, n, .reserved⟩) = b.held j .funded := by
      rw [total_insert_new _ _ hi]
      simp [share, Book.held]
    refine ⟨h.parts, h.backed, ?_, ?_, ?_⟩
    · intro j q hq
      exact (h.pending j q hq).trans (hheld j).symm
    · intro j x hx hf
      rw [lookup_insert_eq] at hx
      split_ifs at hx with hj
      · rw [← Option.some.inj hx] at hf
        cases hf
      · exact h.boxed j x hx hf
    · intro j x hx
      rw [lookup_insert_eq] at hx
      split_ifs at hx with hj
      · rw [← Option.some.inj hx]
        exact ⟨p, hk⟩
      · exact h.owned j x hx

theorem Sound.update_box (h : Sound b) {p₀ : Pool} {q : Phase} (hi : b.boxes.lookup i = some x)
    (hk : b.pools.lookup x.pool = some p₀) (hpools : b'.pools = b.pools.insert x.pool p)
    (hboxes : b'.boxes = b.boxes.insert i { x with phase := q })
    (hparts : p.total = p.available + p.reserved + p.pending + p.settled)
    (hbacked : p.available + p.reserved ≤ b'.poolBalance x.pool)
    (hgrow : ∀ j, j ≠ x.pool → b.poolBalance j ≤ b'.poolBalance j)
    (hpending : p.pending + share x.pool .funded x =
      p₀.pending + share x.pool .funded { x with phase := q })
    (hxb : ∀ j, j ≠ i → b.boxBalance j ≤ b'.boxBalance j)
    (hbox : q = .funded → x.amount ≤ b'.boxBalance i) : Sound b' := by
  have hheld (j : K) := held_setPhase hi j q .funded
  refine h.update hpools hparts hbacked hgrow ?_ ?_ ?_ ?_
  · have hp := h.pending x.pool p₀ hk
    have hj := hheld x.pool
    simp only [Book.held, hboxes] at hp ⊢
    omega
  · intro j hj
    have hj' := hheld j
    simp only [share, Ne.symm hj, false_and, if_false, add_zero] at hj'
    simp only [Book.held, hboxes, share]
    exact hj'
  · intro j y hy hf
    rw [hboxes, lookup_insert_eq] at hy
    split_ifs at hy with hj
    · rw [← Option.some.inj hy] at hf ⊢
      rw [hj]
      exact hbox hf
    · exact (h.boxed j y hy hf).trans (hxb j hj)
  · intro j y hy
    rw [hboxes, lookup_insert_eq] at hy
    split_ifs at hy with hj
    · rw [← Option.some.inj hy]
      exact .inl rfl
    · exact .inr ⟨y, hy, rfl⟩

theorem Move.sound (hm : Move b b') (h : Sound b) : Sound b' := by
  cases hm with
  | grow hpb hxb =>
    exact ⟨h.parts, fun k p hk => (h.backed k p hk).trans (hpb k), h.pending,
      fun i x hi hf => (h.boxed i x hi hf).trans (hxb i), h.owned⟩
  | @openPool k hk =>
    -- A pool that did not exist owns no box, so nothing is pending on it.
    have hnone : b.held k .funded = 0 := by
      refine total_eq_zero fun i x hx => ?_
      obtain ⟨p, hp⟩ := h.owned i x hx
      have hne : x.pool ≠ k := by
        intro he
        rw [he, hk] at hp
        cases hp
      simp [share, hne]
    refine h.update rfl rfl (Nat.zero_le _) (fun j _ => le_rfl) hnone.symm (fun j _ => rfl) h.boxed
      fun i x hx => .inr ⟨x, hx, rfl⟩
  | @deposit k p n f g hk hpb hxb =>
    have hparts := h.parts k p hk
    have hbacked := h.backed k p hk
    have hpbk := hpb k
    simp only [if_true] at hpbk
    refine h.update_pool hk rfl rfl ?_ ?_ (fun j _ => le_of_add_le_left (hpb j)) rfl hxb
    · simp only
      omega
    · simp only
      omega
  | @absorb k p n hk =>
    have hparts := h.parts k p hk
    refine h.update_pool hk rfl rfl ?_ ?_ (fun j _ => le_rfl) rfl fun i => le_rfl
    · simp only
      omega
    · simp only
      omega
  | @withdraw k p n f g hk ha ht hpb hxb =>
    have hparts := h.parts k p hk
    have hbacked := h.backed k p hk
    have hpbk := hpb k
    simp only [if_true] at hpbk
    refine h.update_pool hk rfl rfl ?_ ?_ ?_ rfl hxb
    · simp only
      omega
    · simp only
      omega
    · intro j hj
      simpa [hj] using hpb j
  | @reserve k p n hk =>
    have hparts := h.parts k p hk
    have hbacked := h.backed k p hk
    refine h.update_pool hk rfl rfl ?_ ?_ (fun j _ => le_rfl) rfl fun i => le_rfl
    · simp only
      omega
    · simp only
      omega
  | @unreserve i x p hi hph hk =>
    have hparts := h.parts x.pool p hk
    have hbacked := h.backed x.pool p hk
    refine h.update_box hi hk rfl rfl ?_ ?_ (fun j _ => le_rfl) ?_ (fun j _ => le_rfl) ?_
    · simp only
      omega
    · simp only
      omega
    · simp [share, hph]
    · exact fun hq => by cases hq
  | @fund i x p f g hi hph hk hr hpb hxb =>
    have hparts := h.parts x.pool p hk
    have hbacked := h.backed x.pool p hk
    have hpbk := hpb x.pool
    have hxbi := hxb i
    simp only [if_true] at hpbk hxbi
    refine h.update_box hi hk rfl rfl ?_ ?_ ?_ ?_ (fun j _ => le_of_add_le_left (hxb j)) ?_
    · simp only
      omega
    · simp only
      omega
    · intro j hj
      simpa [hj] using hpb j
    · simp only [share, hph, reduceCtorEq, and_false, if_false, and_self, if_true]
      omega
    · simp only
      omega
  | @payout i x p s f g hi hph hk hr hs hpb hxb =>
    have hparts := h.parts x.pool p hk
    have hbacked := h.backed x.pool p hk
    have hpbk := hpb x.pool
    simp only [if_true] at hpbk
    refine h.update_box hi hk rfl rfl ?_ ?_ (fun j _ => le_of_add_le_left (hpb j)) ?_ ?_ ?_
    · simp only
      omega
    · simp only
      omega
    · simp only [share, hph, reduceCtorEq, and_false, if_false, and_self, if_true]
      omega
    · intro j hj
      simpa [hj] using hxb j
    · exact fun hq => by cases hq

theorem Moves.sound (hm : Moves b b') (h : Sound b) : Sound b' := by
  induction hm with
  | refl => exact h
  | tail _ hm ih => exact hm.sound ih

/-- The reserved part of every pool covers its boxes that are not funded yet. -/
def Covered (b : Book K I) : Prop :=
  ∀ k p, b.pools.lookup k = some p → b.held k .reserved ≤ p.reserved

theorem held_reserved_after (hi : b.boxes.lookup i = some x) (hph : x.phase = .reserved) {q : Phase}
    (hq : q ≠ .reserved) :
    total (fun _ y => share x.pool .reserved y) (b.boxes.insert i { x with phase := q }) +
      x.amount = b.held x.pool .reserved ∧
    ∀ k, total (fun _ y => share k .reserved y) (b.boxes.insert i { x with phase := q }) ≤
      b.held k .reserved := by
  have hheld (k : K) := held_setPhase hi k q .reserved
  constructor
  · simpa [Book.held, share, hph, hq] using hheld x.pool
  · intro k
    have hzero : share k .reserved { x with phase := q } = 0 := if_neg fun h => hq h.2
    exact le_of_add_le_left ((hheld k).le.trans_eq (by rw [hzero]; rfl))

theorem Move.covered (hm : Move b b') (hs : Sound b) (h : Covered b) : Covered b' := by
  -- Every move that touches a pool leaves its reserved part in step with its boxes.
  have hpool {k : K} {q : Pool} {b' : Book K I} (hpools : b'.pools = b.pools.insert k q)
      (hk : b'.held k .reserved ≤ q.reserved)
      (hother : ∀ j, j ≠ k → b'.held j .reserved ≤ b.held j .reserved) : Covered b' := by
    intro j p hj
    rw [hpools, lookup_insert_eq] at hj
    split_ifs at hj with he
    · rw [← Option.some.inj hj, he]
      exact hk
    · exact (hother j he).trans (h j p hj)
  cases hm with
  | grow => exact h
  | @openPool k hk =>
    have hnone : b.held k .reserved = 0 := by
      refine total_eq_zero fun i x hx => ?_
      obtain ⟨p, hp⟩ := hs.owned i x hx
      have hne : x.pool ≠ k := by
        intro he
        rw [he, hk] at hp
        cases hp
      simp [share, hne]
    exact hpool rfl hnone.le fun j _ => le_rfl
  | @deposit k p n f g hk | @absorb k p n hk | @withdraw k p n f g hk =>
    exact hpool rfl (h k p hk) fun j _ => le_rfl
  | @reserve k p n hk =>
    exact hpool rfl ((h k p hk).trans (Nat.le_add_right _ _)) fun j _ => le_rfl
  | @unreserve i x p hi hph hk | @fund i x p f g hi hph hk =>
    refine hpool rfl (Nat.le_sub_of_add_le ?_) fun j _ =>
      (held_reserved_after hi hph (by decide)).2 j
    exact (held_reserved_after hi hph (by decide)).1.trans_le (h x.pool p hk)
  | @payout i x p s f g hi hph hk =>
    have hheld (j : K) := held_setPhase hi j .closed .reserved
    simp only [share, hph, reduceCtorEq, and_false, if_false, add_zero] at hheld
    refine hpool rfl ?_ fun j _ => (hheld j).le
    exact (hheld x.pool).le.trans (h x.pool p hk)

theorem Moves.covered (hm : Moves b b') (hs : Sound b) (h : Covered b) : Covered b' := by
  have hboth : Sound b' ∧ Covered b' := by
    induction hm with
    | refl => exact ⟨hs, h⟩
    | tail _ hm ih => exact ⟨hm.sound ih.1, hm.covered ih.1 ih.2⟩
  exact hboth.2

theorem Opening.covered {n : ℕ} (hm : Opening i k n b b') (h : Covered b)
    (hroom : ∀ p, b.pools.lookup k = some p → n + b.held k .reserved ≤ p.reserved) :
    Covered b' := by
  cases hm with
  | @intro p hi =>
    intro j q hj
    have hheld := total_insert_new (fun _ x => share j .reserved x)
      (⟨k, n, .reserved⟩ : Box K) hi
    by_cases he : j = k
    · subst he
      have hq := hroom q hj
      simp only [share, and_self, if_true, Book.held] at hheld hq ⊢
      omega
    · simp only [share, Ne.symm he, false_and, if_false, add_zero] at hheld
      exact hheld.le.trans (h j q hj)

end

end OpenFiat.CustodyBook
