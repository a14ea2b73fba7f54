import Mathlib.Tactic

set_option autoImplicit false

/-! # Unsigned 64-bit words

Sums and differences of 64-bit words, read as natural numbers. Addition wraps modulo `2^64`;
`satSub` is the subtraction that stops at zero.
-/

namespace Lib

/-- Subtraction that stops at zero: `(a >= b) ? a - b : 0`. -/
def satSub (a b : UInt64) : UInt64 := if b ≤ a then a - b else 0

theorem toNat_satSub (a b : UInt64) : (satSub a b).toNat = a.toNat - b.toNat := by
  unfold satSub
  split
  · rename_i h
    exact UInt64.toNat_sub_of_le a b h
  · rename_i h
    have hlt : a.toNat < b.toNat := by
      rw [UInt64.le_iff_toNat_le] at h
      omega
    rw [Nat.sub_eq_zero_of_le (Nat.le_of_lt hlt)]
    rfl

theorem satSub_zero (a : UInt64) : satSub a 0 = a := by
  rw [← UInt64.toNat_inj, toNat_satSub]
  rfl

theorem toNat_min (a b : UInt64) : (min a b).toNat = min a.toNat b.toNat := by
  show (if a ≤ b then a else b).toNat = _
  split
  · rename_i h
    rw [UInt64.le_iff_toNat_le] at h
    omega
  · rename_i h
    rw [UInt64.le_iff_toNat_le] at h
    omega

/-- A sum of words is the sum of the numbers when that fits. -/
theorem toNat_add_of_lt {a b : UInt64} (h : a.toNat + b.toNat < 2 ^ 64) :
    (a + b).toNat = a.toNat + b.toNat := by
  rw [UInt64.toNat_add, Nat.mod_eq_of_lt h]

/-- Wrapping only makes a sum smaller. -/
theorem toNat_add_le (a b : UInt64) : (a + b).toNat ≤ a.toNat + b.toNat := by
  rw [UInt64.toNat_add]
  exact Nat.mod_le _ _

/-- A sum that does not fit is smaller than either summand. -/
theorem toNat_add_of_ge {a b : UInt64} (h : 2 ^ 64 ≤ a.toNat + b.toNat) :
    (a + b).toNat + 2 ^ 64 = a.toNat + b.toNat := by
  have ha := a.toNat_lt
  have hb := b.toNat_lt
  rw [UInt64.toNat_add]
  omega

theorem toNat_eq_zero_iff (a : UInt64) : a.toNat = 0 ↔ a = 0 := by
  rw [← UInt64.toNat_inj]
  rfl

theorem satSub_add_cancel {a b : UInt64} (h : a.toNat + b.toNat < 2 ^ 64) :
    satSub (a + b) b = a := by
  rw [← UInt64.toNat_inj, toNat_satSub, toNat_add_of_lt h]
  omega

/-- A wrapped sum does not give the summand back: subtracting stops at zero. -/
theorem satSub_add_of_wraps {a b : UInt64} (h : 2 ^ 64 ≤ a.toNat + b.toNat) :
    satSub (a + b) b = 0 := by
  have hsum := toNat_add_of_ge h
  have ha := a.toNat_lt
  rw [← toNat_eq_zero_iff, toNat_satSub]
  omega

/-- Adding and then subtracting with a stop at zero gives the word back exactly when the sum did
not wrap. -/
theorem satSub_add_eq_iff (a b : UInt64) : satSub (a + b) b = a ↔ a.toNat + b.toNat < 2 ^ 64 := by
  refine ⟨fun h => ?_, satSub_add_cancel⟩
  by_contra hwrap
  have hzero := satSub_add_of_wraps (Nat.le_of_not_lt hwrap)
  rw [h] at hzero
  have hb := b.toNat_lt
  rw [hzero] at hwrap
  simp at hwrap
  omega

/-- Adding a word changes nothing only if the word is zero. -/
theorem add_eq_left_iff (a b : UInt64) : a + b = a ↔ b = 0 := by
  constructor
  · intro h
    have h' : a + b = a + 0 := by rw [h, UInt64.add_zero]
    exact UInt64.add_right_inj a |>.mp h'
  · rintro rfl
    exact UInt64.add_zero a

end Lib
