import OpenFiat.NodePayloads
import Mathlib.Data.Rat.Cast.CharZero
import Mathlib.Tactic.FieldSimp

/-!
# Amounts on display

An amount is printed as a decimal numeral whose point is set by its precision. The precision is a
byte from the record of a stranger and becomes the exponent of a 64-bit power of ten, which
overflows from the twentieth power on.
-/
namespace OpenFiat.AmountDisplay
open NodePayloads

def zeroPadded (width n : ℕ) : List Char := (Nat.toDigits 10 n).leftpad width '0'

/-- A power that overflows ends the process, which is `none`. -/
def display (a : Amount) : Option String :=
  if a.decimals = 0 then some (Nat.repr a.baseUnits)
  else if 10 ^ a.decimals < 2 ^ 64 then
    let divisor := 10 ^ a.decimals
    some (Nat.repr (a.baseUnits / divisor) ++ "." ++
      String.ofList (zeroPadded a.decimals (a.baseUnits % divisor)))
  else none

/-- A decimal numeral, with a point if there are digits after it. -/
structure Numeral where
  whole : List Char
  fraction : List Char
  whole_ne_nil : whole ≠ []
  all_digits : ∀ c ∈ whole ++ fraction, c.isDigit = true

namespace Numeral

def spelling (n : Numeral) : String :=
  String.ofList (n.whole ++ if n.fraction = [] then [] else '.' :: n.fraction)

def value (n : Numeral) : ℚ :=
  Nat.ofDigitChars 10 n.whole 0 + Nat.ofDigitChars 10 n.fraction 0 / 10 ^ n.fraction.length

end Numeral

theorem isDigit_of_mem_toDigits {n : ℕ} {c : Char} (h : c ∈ Nat.toDigits 10 n) :
    c.isDigit = true :=
  Nat.isDigit_of_mem_toDigits (by decide) (by decide) h

section Padding
variable {width n : ℕ}

theorem isDigit_of_mem_zeroPadded {c : Char} (h : c ∈ zeroPadded width n) : c.isDigit = true := by
  rw [zeroPadded, List.leftpad, List.mem_append] at h
  rcases h with h | h
  · rw [List.eq_of_mem_replicate h]
    rfl
  · exact isDigit_of_mem_toDigits h

theorem ofDigitChars_zeroPadded : Nat.ofDigitChars 10 (zeroPadded width n) 0 = n := by
  rw [zeroPadded, List.leftpad, Nat.ofDigitChars_append, Nat.ofDigitChars_replicate_zero,
    Nat.mul_zero, Nat.ofDigitChars_ten_toDigits]

/-- What fits the width is padded to exactly the width. -/
theorem length_zeroPadded (hwidth : 0 < width) (hn : n < 10 ^ width) :
    (zeroPadded width n).length = width := by
  have hfits : (Nat.toDigits 10 n).length ≤ width :=
    (Nat.length_toDigits_le_iff (by decide) hwidth).mpr hn
  rw [zeroPadded, List.length_leftpad, Nat.max_eq_left hfits]

end Padding

theorem pow_fits_iff {n : ℕ} : 10 ^ n < 2 ^ 64 ↔ n < 20 := by
  constructor
  · intro h
    by_contra hn
    have hpow : 10 ^ 20 ≤ 10 ^ n := Nat.pow_le_pow_right (by decide) (Nat.le_of_not_lt hn)
    omega
  · intro h
    have hpow : 10 ^ n ≤ 10 ^ 19 := Nat.pow_le_pow_right (by decide) (Nat.le_of_lt_succ h)
    omega

/-- An amount is printed, as the numeral of its value with as many digits after the point as its
precision says, exactly if the precision is below twenty. -/
theorem display_faithful_iff (a : Amount) :
    (∃ n : Numeral, display a = some n.spelling ∧ n.fraction.length = a.decimals ∧
      n.value = a.baseUnits / 10 ^ a.decimals) ↔ a.decimals < 20 := by
  rw [← pow_fits_iff]
  constructor
  · rintro ⟨n, hdisplay, -⟩
    unfold display at hdisplay
    split_ifs at hdisplay with hzero hfits
    · rw [hzero]
      decide
    · exact hfits
  · intro hfits
    by_cases hzero : a.decimals = 0
    · refine ⟨⟨Nat.toDigits 10 a.baseUnits, [], Nat.toDigits_ne_nil, fun c hc => ?_⟩, ?_,
        hzero.symm, ?_⟩
      · rw [List.append_nil] at hc
        exact isDigit_of_mem_toDigits hc
      · simp [display, hzero, Numeral.spelling, Nat.repr_eq_ofList_toDigits]
      · simp [Numeral.value, hzero, Nat.ofDigitChars_ten_toDigits]
    · have hlength : (zeroPadded a.decimals (a.baseUnits % 10 ^ a.decimals)).length = a.decimals :=
        length_zeroPadded (Nat.pos_of_ne_zero hzero) (Nat.mod_lt _ (Nat.pow_pos (by decide)))
      refine ⟨⟨Nat.toDigits 10 (a.baseUnits / 10 ^ a.decimals),
        zeroPadded a.decimals (a.baseUnits % 10 ^ a.decimals), Nat.toDigits_ne_nil,
        fun c hc => ?_⟩, ?_, hlength, ?_⟩
      · rcases List.mem_append.mp hc with hc | hc
        · exact isDigit_of_mem_toDigits hc
        · exact isDigit_of_mem_zeroPadded hc
      · have hsome : zeroPadded a.decimals (a.baseUnits % 10 ^ a.decimals) ≠ [] :=
          fun hnil => hzero (by rw [← hlength, hnil, List.length_nil])
        rw [display, if_neg hzero, if_pos hfits, Numeral.spelling, if_neg hsome, Option.some.injEq]
        apply String.toList_injective
        simp
      · have hsplit : (a.baseUnits : ℚ) = 10 ^ a.decimals * ↑(a.baseUnits / 10 ^ a.decimals) +
            ↑(a.baseUnits % 10 ^ a.decimals) := by
          exact_mod_cast (Nat.div_add_mod a.baseUnits (10 ^ a.decimals)).symm
        simp only [Numeral.value, Nat.ofDigitChars_ten_toDigits, ofDigitChars_zeroPadded, hlength]
        rw [hsplit]
        field_simp

/-- One unit of an asset with twenty decimals cannot be printed. -/
theorem display_overflows : display (Amount.new 1 20) = none := by
  decide

end OpenFiat.AmountDisplay
