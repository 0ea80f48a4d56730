import Mathlib.Algebra.BigOperators.Ring.Finset
import Mathlib.Algebra.Order.BigOperators.Group.Finset

/-!
# Dividing a pool in proportion to weights

Every holder is entitled to its share of the pool, rounded down. What the rounding
leaves over is less than one unit for each holder, and a holder that splits its
weight among two gains nothing by it.
-/
namespace OpenFiat.ProportionalShares
open scoped BigOperators

variable {ι : Type} (pool : ℕ) (weight : ι → ℕ) (holders : Finset ι)

def share (i : ι) : ℕ := pool * weight i / ∑ j ∈ holders, weight j

/-- What rounding the shares leaves over. -/
def dust : ℕ := pool - ∑ i ∈ holders, share pool weight holders i

variable {pool weight holders}

theorem sum_share_mul_le (K : Finset ι) :
    (∑ i ∈ K, share pool weight holders i) * ∑ i ∈ holders, weight i ≤
      pool * ∑ i ∈ K, weight i := by
  rw [Finset.sum_mul, Finset.mul_sum]
  exact Finset.sum_le_sum fun i _ => Nat.div_mul_le_self _ _

variable {i : ι}

section
variable (hpos : ∀ i ∈ holders, 0 < weight i)
include hpos

theorem sum_weight_pos (hi : i ∈ holders) : 0 < ∑ i ∈ holders, weight i :=
  (hpos i hi).trans_le (Finset.single_le_sum (fun _ _ => Nat.zero_le _) hi)

theorem sum_share_le {K : Finset ι} (hK : K ⊆ holders) :
    ∑ i ∈ K, share pool weight holders i ≤ pool := by
  rcases K.eq_empty_or_nonempty with rfl | ⟨i, hi⟩
  · exact Nat.zero_le _
  · have hle : ∑ i ∈ K, weight i ≤ ∑ i ∈ holders, weight i := Finset.sum_le_sum_of_subset hK
    exact Nat.le_of_mul_le_mul_right ((sum_share_mul_le K).trans (Nat.mul_le_mul_left pool hle))
      (sum_weight_pos hpos (hK hi))

theorem dust_lt (hi : i ∈ holders) : dust pool weight holders < holders.card := by
  have hW := sum_weight_pos hpos hi
  have hlt : pool * ∑ i ∈ holders, weight i <
      (∑ i ∈ holders, share pool weight holders i + holders.card) * ∑ i ∈ holders, weight i := by
    calc pool * ∑ i ∈ holders, weight i = ∑ i ∈ holders, pool * weight i := Finset.mul_sum ..
      _ < ∑ i ∈ holders, (share pool weight holders i + 1) * ∑ j ∈ holders, weight j :=
          Finset.sum_lt_sum_of_nonempty ⟨i, hi⟩ fun j _ => by
            rw [mul_comm _ (∑ j ∈ holders, weight j)]
            exact Nat.lt_mul_div_succ _ hW
      _ = _ := by
          rw [← Finset.sum_mul, Finset.sum_add_distrib, ← Finset.card_eq_sum_ones]
  have hpool := Nat.lt_of_mul_lt_mul_right hlt
  have hcard : 0 < holders.card := Finset.card_pos.mpr ⟨i, hi⟩
  unfold dust
  omega

end

/-- A holder that gains weight loses no share, whatever the others hold. -/
theorem share_mono {rest a b : ℕ} (h : a ≤ b) : pool * a / (rest + a) ≤ pool * b / (rest + b) := by
  rcases Nat.eq_zero_or_pos (rest + b) with hzero | hpos
  · obtain rfl : a = 0 := by omega
    rw [mul_zero, Nat.zero_div]
    exact Nat.zero_le _
  have hshare : pool * a / (rest + a) * (rest + a) ≤ pool * a := Nat.div_mul_le_self _ _
  have hpool : pool * a / (rest + a) ≤ pool :=
    Nat.div_le_of_le_mul (by rw [mul_comm]; exact Nat.mul_le_mul_right _ (Nat.le_add_left a rest))
  obtain ⟨gain, rfl⟩ := Nat.exists_eq_add_of_le h
  refine (Nat.le_div_iff_mul_le hpos).mpr ?_
  calc pool * a / (rest + a) * (rest + (a + gain))
      = pool * a / (rest + a) * (rest + a) + pool * a / (rest + a) * gain := by
        rw [← Nat.add_assoc, Nat.mul_add]
    _ ≤ pool * a + pool * gain := Nat.add_le_add hshare (Nat.mul_le_mul_right _ hpool)
    _ = pool * (a + gain) := (Nat.mul_add ..).symm

/-- Two parts of a holder together receive no more than the holder. -/
theorem split_share_le {rest a b whole : ℕ} (h : a + b ≤ whole) :
    pool * a / (rest + (a + b)) + pool * b / (rest + (a + b)) ≤ pool * whole / (rest + whole) :=
  calc pool * a / (rest + (a + b)) + pool * b / (rest + (a + b))
      ≤ (pool * a + pool * b) / (rest + (a + b)) := Nat.div_add_div_le_add_div
    _ = pool * (a + b) / (rest + (a + b)) := by rw [Nat.mul_add]
    _ ≤ _ := share_mono h

end OpenFiat.ProportionalShares
