import Mathlib.Data.List.Basic
import Mathlib.Data.List.Induction
import Mathlib.Tactic.Ring
import Mathlib.Algebra.Order.Ring.Int

/-!
# Digits regrouped through a bit buffer

A loop reads digits of `a` bits into the low end of a machine word and takes groups of `b` bits
off the high end of what is pending. The digits read and the groups taken so far, with the pending
bits, spell the same number, so what the loop computes is fixed by that number and the two lengths.
-/
namespace OpenFiat.DigitGroups

/-- The number that a list of digits spells, the first digit being the highest. -/
def value (base : ℕ) (ds : List ℕ) : ℕ := ds.foldl (fun n d => n * base + d) 0

@[simp] theorem value_concat (base : ℕ) (ds : List ℕ) (d : ℕ) :
    value base (ds ++ [d]) = value base ds * base + d := by
  simp [value]

theorem value_inj {base : ℕ} {ds es : List ℕ} (hlen : ds.length = es.length)
    (hds : ∀ d ∈ ds, d < base) (hes : ∀ e ∈ es, e < base) (h : value base ds = value base es) :
    ds = es := by
  induction ds using List.reverseRecOn generalizing es with
  | nil => exact (List.length_eq_zero_iff.mp hlen.symm).symm
  | append_singleton ds d ih =>
    rcases es.eq_nil_or_concat' with rfl | ⟨es, e, rfl⟩
    · simp at hlen
    · simp only [List.length_append, List.length_singleton, Nat.add_right_cancel_iff] at hlen
      have hd : d < base := hds d (by simp)
      have he : e < base := hes e (by simp)
      rw [value_concat, value_concat, Nat.mul_comm, Nat.mul_comm (value base es)] at h
      have hlast : d = e := by
        simpa [Nat.mul_add_mod, Nat.mod_eq_of_lt hd, Nat.mod_eq_of_lt he]
          using congrArg (· % base) h
      have hbase : 0 < base := by omega
      have hrest : value base ds = value base es := by
        rw [hlast] at h
        exact Nat.eq_of_mul_eq_mul_left hbase (Nat.add_right_cancel h)
      rw [hlast, ih hlen (fun x hx => hds x (by simp [hx])) (fun x hx => hes x (by simp [hx]))
        hrest]

/-- The groups taken and the pending bits spell what was read. -/
structure Carries (a b : ℕ) (ds out : List ℕ) (buffer bits : ℕ) : Prop where
  value_eq : value (2 ^ a) ds = value (2 ^ b) out * 2 ^ bits + buffer % 2 ^ bits
  length_eq : a * ds.length = b * out.length + bits
  small : ∀ d ∈ out, d < 2 ^ b

section Steps
variable {a b d buffer bits word : ℕ} {ds out : List ℕ}

theorem carries_nil (a b : ℕ) : Carries a b [] [] 0 0 where
  value_eq := by simp [value]
  length_eq := by simp
  small := by simp

theorem Carries.push (h : Carries a b ds out buffer bits) (hd : d < 2 ^ a)
    (hfit : bits + a ≤ word) :
    Carries a b (ds ++ [d]) out ((buffer * 2 ^ a + d) % 2 ^ word) (bits + a) where
  value_eq := by
    have hpending : (buffer * 2 ^ a + d) % 2 ^ (bits + a) = buffer % 2 ^ bits * 2 ^ a + d := by
      rw [Nat.add_comm bits, Nat.pow_add, Nat.mod_mul, Nat.mul_comm buffer, Nat.mul_add_mod,
        Nat.mod_eq_of_lt hd, Nat.mul_add_div (Nat.two_pow_pos a), Nat.div_eq_of_lt hd, Nat.add_zero]
      ring
    rw [value_concat, h.value_eq, Nat.mod_mod_of_dvd _ (Nat.pow_dvd_pow 2 hfit), hpending,
      Nat.pow_add]
    ring
  length_eq := by
    have hlength := h.length_eq
    simp only [List.length_append, List.length_singleton, Nat.mul_add, Nat.mul_one]
    omega
  small := h.small

theorem Carries.emit (h : Carries a b ds out buffer (bits + b)) :
    Carries a b ds (out ++ [buffer / 2 ^ bits % 2 ^ b]) buffer bits where
  value_eq := by
    rw [h.value_eq, value_concat, Nat.pow_add, Nat.mod_mul]
    ring
  length_eq := by
    have hlength := h.length_eq
    simp only [List.length_append, List.length_singleton, Nat.mul_add, Nat.mul_one]
    omega
  small := List.forall_mem_append.mpr
    ⟨h.small, List.forall_mem_singleton.mpr (Nat.mod_lt _ (Nat.two_pow_pos b))⟩

/-- The last group is filled up with zeros. -/
theorem Carries.pad (h : Carries a b ds out buffer bits) (hbits : bits ≤ b) :
    value (2 ^ b) (out ++ [buffer * 2 ^ (b - bits) % 2 ^ b]) =
      value (2 ^ a) ds * 2 ^ (b - bits) := by
  have hsplit : 2 ^ b = 2 ^ bits * 2 ^ (b - bits) := by
    rw [← Nat.pow_add, Nat.add_sub_cancel' hbits]
  have hlast : buffer * 2 ^ (b - bits) % 2 ^ b = buffer % 2 ^ bits * 2 ^ (b - bits) := by
    rw [hsplit, Nat.mul_mod_mul_right]
  rw [value_concat, hlast, h.value_eq, hsplit]
  ring

end Steps

end OpenFiat.DigitGroups
