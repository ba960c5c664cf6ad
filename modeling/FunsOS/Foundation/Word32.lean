import Mathlib.Tactic.NormNum

/-!
# 32-bit sums and rounding

Unsigned 32-bit arithmetic on natural numbers: sums are taken modulo `2 ^ 32`,
and `alignUp` rounds up to a multiple of a power of two the way
`(value + align - 1) & ~(align - 1)` does, sum included. Near the top of the
range the sum wraps and the rounded value is zero.
-/

set_option autoImplicit false

namespace FunsOS.Foundation

open Nat

/-- The number of 32-bit words. -/
def wordLimit : Nat := 2 ^ 32

/-- A sum of 32-bit words. -/
def add32 (a b : Nat) : Nat := (a + b) % wordLimit

/-- A difference of 32-bit words. -/
def sub32 (a b : Nat) : Nat := (a + (wordLimit - b % wordLimit)) % wordLimit

theorem add32_of_lt {a b : Nat} (fits : a + b < wordLimit) : add32 a b = a + b := mod_eq_of_lt fits

theorem add32_add32_of_lt {a b c : Nat} (fits : a + b + c < wordLimit) :
    add32 (add32 a b) c = a + b + c := by
  rw [add32_of_lt (a := a) (by omega), add32_of_lt fits]

theorem sub32_of_le {a b : Nat} (le : b ≤ a) (lt : a < wordLimit) : sub32 a b = a - b := by
  have small : b % wordLimit = b := mod_eq_of_lt (lt_of_le_of_lt le lt)
  rw [sub32, small]
  have shifted : a + (wordLimit - b) = a - b + wordLimit := by omega
  rw [shifted, add_mod_right, mod_eq_of_lt (by omega)]

/-- `(value + align - 1) & ~(align - 1)` in 32 bits, for a power of two. -/
def alignUp (value align : Nat) : Nat := (value + align - 1) % wordLimit / align * align

section AlignUp

variable {value align : Nat}

theorem alignUp_dvd : align ∣ alignUp value align := Dvd.intro_left _ rfl

theorem alignUp_of_fits (fits : value + align - 1 < wordLimit) :
    alignUp value align = (value + align - 1) / align * align := by
  rw [alignUp, mod_eq_of_lt fits]

theorem le_alignUp (positive : 0 < align) (fits : value + align - 1 < wordLimit) :
    value ≤ alignUp value align := by
  rw [alignUp_of_fits fits]
  have division := div_add_mod (value + align - 1) align
  have remainder := mod_lt (value + align - 1) positive
  rw [mul_comm] at division
  omega

theorem alignUp_lt (positive : 0 < align) (fits : value + align - 1 < wordLimit) :
    alignUp value align < value + align := by
  rw [alignUp_of_fits fits]
  have rounded := div_mul_le_self (value + align - 1) align
  omega

/-- Rounding a value too close to the top gives zero. -/
theorem alignUp_of_wraps (word : value < wordLimit) (align_le : align ≤ wordLimit)
    (wraps : wordLimit ≤ value + align - 1) : alignUp value align = 0 := by
  have wrapped : (value + align - 1) % wordLimit = value + align - 1 - wordLimit := by
    rw [mod_eq_sub_mod wraps]
    exact mod_eq_of_lt (by omega)
  rw [alignUp, div_eq_of_lt (by omega), zero_mul]

theorem alignUp_lt_wordLimit : alignUp value align < wordLimit := by
  have rounded := div_mul_le_self ((value + align - 1) % wordLimit) align
  have bounded := mod_lt (value + align - 1) (show 0 < wordLimit by decide)
  exact lt_of_le_of_lt rounded bounded

end AlignUp

end FunsOS.Foundation
