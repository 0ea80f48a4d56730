import Mathlib.Algebra.Order.Ring.Int
import Mathlib.Data.Fintype.Basic

/-!
# Fallible straight-line code over checked machine words

A transaction body is a chain of guards, checked operations and updates in
`Except`. The lemmas below take such a chain apart from either end: a run that
returned a value passed every guard, and a run that failed stopped at the first
guard that did not hold. `Avoids` states that certain failures cannot occur, link
by link. Words are natural numbers, and signed words integers,
with the range test written out at the operation that performs it.
-/
namespace OpenFiat.GuardedResult

section Guards

universe u v
variable {ε : Type v} {α β : Type u}

/-- Stop with `e` unless `p` holds. -/
def require (p : Prop) [Decidable p] (e : ε) : Except ε Unit :=
  if p then .ok () else .error e

/-- A guard that hands its condition on, for records that carry it as a field. -/
def ensure (p : Prop) [Decidable p] (e : ε) : Except ε (PLift p) :=
  if h : p then .ok ⟨h⟩ else .error e

/-- The value of an optional slot, or the error that its absence raises. -/
def load (slot : Option α) (e : ε) : Except ε α :=
  slot.elim (.error e) .ok

@[simp] theorem bind_ok (first : Except ε α) (rest : α → Except ε β) (b : β) :
    first >>= rest = .ok b ↔ ∃ a, first = .ok a ∧ rest a = .ok b := by
  cases first <;> simp [bind, Except.bind]

theorem bind_error (first : Except ε α) (rest : α → Except ε β) (e : ε) :
    first >>= rest = .error e ↔
      first = .error e ∨ ∃ a, first = .ok a ∧ rest a = .error e := by
  cases first <;> simp [bind, Except.bind]

@[simp] theorem pure_ok (a b : α) : (pure a : Except ε α) = .ok b ↔ a = b :=
  ⟨fun h => by cases h; rfl, fun h => h ▸ rfl⟩

theorem pure_error (a : α) (e : ε) : (pure a : Except ε α) ≠ .error e :=
  fun h => by cases h

@[simp] theorem require_ok (p : Prop) [Decidable p] (e : ε) (u : Unit) :
    require p e = .ok u ↔ p := by
  unfold require
  split_ifs with h <;> simp only [h]

theorem require_error (p : Prop) [Decidable p] (e e' : ε) :
    require p e = .error e' ↔ ¬ p ∧ e = e' := by
  unfold require
  split_ifs with h <;> simp [h]

theorem second_require_error {α : Type} {p q : Prop} [Decidable p] [Decidable q] (h : ¬ q)
    (e e' : ε) (rest : Unit → Except ε α) :
    (require p e >>= fun _ => require q e' >>= rest) = .error (if p then e' else e) := by
  rw [(require_error q e' e').mpr ⟨h, rfl⟩]
  unfold require
  split_ifs <;> rfl

@[simp] theorem load_ok (slot : Option α) (e : ε) (a : α) :
    load slot e = .ok a ↔ slot = some a := by
  cases slot <;> simp [load]

theorem load_error (slot : Option α) (e e' : ε) :
    load slot e = .error e' ↔ slot = none ∧ e = e' := by
  cases slot <;> simp [load]

@[simp] theorem mapError_ok {ε' : Type v} (f : ε → ε') (x : Except ε α) (a : α) :
    x.mapError f = .ok a ↔ x = .ok a := by
  cases x <;> simp [Except.mapError]

/-- A best-effort call: on failure the old value stands. -/
def attempt (old : α) (x : Except ε α) : α :=
  match x with
  | .ok a => a
  | .error _ => old

end Guards

section Avoids

universe u v
variable {ε : Type v} {α β : Type u} {bad : ε → Prop}

/-- A computation that never fails in a bad way. -/
def Avoids (bad : ε → Prop) (x : Except ε α) : Prop := ∀ e, x = .error e → ¬ bad e

theorem avoids_of_ok (a : α) : Avoids bad (.ok a : Except ε α) := fun _ h => by cases h

@[simp] theorem avoids_pure (a : α) : Avoids bad (pure a : Except ε α) := avoids_of_ok a

theorem avoids_error (e : ε) : Avoids bad (.error e : Except ε α) ↔ ¬ bad e :=
  ⟨fun h => h e rfl, fun h _ he => Except.error.inj he ▸ h⟩

/-- A chain avoids what each of its links avoids. -/
@[simp] theorem avoids_bind (first : Except ε α) (rest : α → Except ε β) :
    Avoids bad (first >>= rest) ↔
      Avoids bad first ∧ ∀ a, first = .ok a → Avoids bad (rest a) := by
  constructor
  · intro h
    refine ⟨fun e he => ?_, fun a ha e he => ?_⟩
    · exact h e ((bind_error _ _ _).mpr (.inl he))
    · exact h e ((bind_error _ _ _).mpr (.inr ⟨a, ha, he⟩))
  · intro h e he
    rcases (bind_error _ _ _).mp he with hfirst | ⟨a, ha, hrest⟩
    · exact h.1 e hfirst
    · exact h.2 a ha e hrest

theorem avoids_ite (p : Prop) [Decidable p] (a : α) (e : ε) :
    Avoids bad (if p then .ok a else .error e) ↔ (bad e → p) := by
  split_ifs with h
  · simp [avoids_of_ok, h]
  · simp [avoids_error, h]

@[simp] theorem avoids_require (p : Prop) [Decidable p] (e : ε) :
    Avoids bad (require p e) ↔ (bad e → p) := avoids_ite p () e

@[simp] theorem avoids_load (slot : Option α) (e : ε) :
    Avoids bad (load slot e) ↔ (bad e → slot.isSome) := by
  cases slot with
  | none => simp [load, avoids_error]
  | some => simp [load, avoids_of_ok]

end Avoids

section CheckedWords

variable {ε : Type*}

def checkedAdd (w : ℕ) (e : ε) (a b : ℕ) : Except ε ℕ :=
  if a + b < 2 ^ w then .ok (a + b) else .error e

def checkedSub (e : ε) (a b : ℕ) : Except ε ℕ :=
  if b ≤ a then .ok (a - b) else .error e

def checkedMul (w : ℕ) (e : ε) (a b : ℕ) : Except ε ℕ :=
  if a * b < 2 ^ w then .ok (a * b) else .error e

/-- The range of a signed 64-bit word. -/
def InI64 (a : ℤ) : Prop := -2 ^ 63 ≤ a ∧ a < 2 ^ 63

instance (a : ℤ) : Decidable (InI64 a) := inferInstanceAs (Decidable (_ ∧ _))

def checkedAddI64 (e : ε) (a b : ℤ) : Except ε ℤ :=
  if InI64 (a + b) then .ok (a + b) else .error e

/-- Signed 64-bit subtraction that stops at the ends of the range. -/
def saturatingSubI64 (a b : ℤ) : ℤ := max (-2 ^ 63) (min (2 ^ 63 - 1) (a - b))

@[simp] theorem checkedAdd_ok (w : ℕ) (e : ε) (a b c : ℕ) :
    checkedAdd w e a b = .ok c ↔ a + b < 2 ^ w ∧ c = a + b := by
  unfold checkedAdd
  split_ifs with h <;> simp [h, eq_comm]

@[simp] theorem checkedSub_ok (e : ε) (a b c : ℕ) :
    checkedSub e a b = .ok c ↔ b ≤ a ∧ c = a - b := by
  unfold checkedSub
  split_ifs with h <;> simp [h, eq_comm]

@[simp] theorem checkedMul_ok (w : ℕ) (e : ε) (a b c : ℕ) :
    checkedMul w e a b = .ok c ↔ a * b < 2 ^ w ∧ c = a * b := by
  unfold checkedMul
  split_ifs with h <;> simp [h, eq_comm]

@[simp] theorem checkedAddI64_ok (e : ε) (a b c : ℤ) :
    checkedAddI64 e a b = .ok c ↔ InI64 (a + b) ∧ c = a + b := by
  unfold checkedAddI64
  split_ifs with h <;> simp [h, eq_comm]

@[simp] theorem avoids_checkedAdd {bad : ε → Prop} (w : ℕ) (e : ε) (a b : ℕ) :
    Avoids bad (checkedAdd w e a b) ↔ (bad e → a + b < 2 ^ w) := avoids_ite _ _ _

@[simp] theorem avoids_checkedSub {bad : ε → Prop} (e : ε) (a b : ℕ) :
    Avoids bad (checkedSub e a b) ↔ (bad e → b ≤ a) := avoids_ite _ _ _

@[simp] theorem avoids_checkedAddI64 {bad : ε → Prop} (e : ε) (a b : ℤ) :
    Avoids bad (checkedAddI64 e a b) ↔ (bad e → InI64 (a + b)) := avoids_ite _ _ _

end CheckedWords

end OpenFiat.GuardedResult
