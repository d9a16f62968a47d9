/-
Rounding up to a power of two.

`roundUp` is a formula on bits. For a power of two it is the least multiple at
or above a number, which is all that arenas and layouts need of it.
-/
import Mathlib.Data.Nat.Bitwise
import TypeRecords.Layout

namespace TypeRecords

variable {value align bound : Nat}

/-- Whatever the alignment, nothing is rounded down. -/
theorem le_roundUp (value : Nat) (h : 0 < align) : value ≤ roundUp value align := by
  unfold roundUp
  have hmask : (value + align - 1) &&& (align - 1) ≤ align - 1 := Nat.and_le_right
  simp only
  omega

theorem roundUp_eq (h : align.isPowerOfTwo) :
    roundUp value align = (value + align - 1) / align * align := by
  obtain ⟨k, rfl⟩ := h
  unfold roundUp
  simp only
  rw [Nat.and_two_pow_sub_one_eq_mod, Nat.div_mul_self_eq_mod_sub_self]

theorem dvd_roundUp (h : align.isPowerOfTwo) : align ∣ roundUp value align := by
  rw [roundUp_eq h]
  exact Nat.dvd_mul_left ..

/-- No multiple lies in between. -/
theorem roundUp_le (h : align.isPowerOfTwo) (hb : align ∣ bound) (hv : value ≤ bound) :
    roundUp value align ≤ bound := by
  rw [roundUp_eq h]
  obtain ⟨n, rfl⟩ := hb
  have hpos : 0 < align := Nat.pos_of_isPowerOfTwo h
  have hlt : value + align - 1 < (n + 1) * align := by
    rw [Nat.add_mul, Nat.mul_comm n]
    omega
  rw [Nat.mul_comm align]
  exact Nat.mul_le_mul_right _ (Nat.lt_succ_iff.mp ((Nat.div_lt_iff_lt_mul hpos).mpr hlt))

/-- What is a multiple stays as it is. -/
theorem roundUp_of_dvd (h : align.isPowerOfTwo) (hd : align ∣ value) :
    roundUp value align = value :=
  Nat.le_antisymm (roundUp_le h hd (Nat.le_refl value))
    (le_roundUp value (Nat.pos_of_isPowerOfTwo h))

/-- Of two powers of two the smaller one divides the larger one. -/
theorem dvd_of_le_of_isPowerOfTwo {a b : Nat} (ha : a.isPowerOfTwo) (hb : b.isPowerOfTwo)
    (h : a ≤ b) : a ∣ b := by
  obtain ⟨i, rfl⟩ := ha
  obtain ⟨j, rfl⟩ := hb
  exact Nat.pow_dvd_pow 2 ((Nat.pow_le_pow_iff_right (by decide)).mp h)

end TypeRecords
