import Mathlib.Data.List.GetD
import Mathlib.Tactic.NormNum

/-!
# Little-endian fields of a byte buffer

A packed record in a byte buffer is read and written by fields: `n` bytes from an
offset on, least significant first. A written field reads back (`getField_setField`),
and a field that does not overlap it reads as before (`getField_setField_apart`). A
record can also be put together from the bytes of its fields (`fieldBytes`).
-/

set_option autoImplicit false

namespace FunsOS.Foundation

open List Nat UInt8

/-- The value of the field of `n` bytes at an offset. -/
def getField (bytes : List UInt8) : Nat → Nat → Nat
  | _, 0 => 0
  | at_, n + 1 => (bytes.getD at_ 0).toNat + 256 * getField bytes (at_ + 1) n

/-- Store a value in the field of `n` bytes at an offset. -/
def setField (bytes : List UInt8) : Nat → Nat → Nat → List UInt8
  | _, 0, _ => bytes
  | at_, n + 1, value => setField (bytes.set at_ (ofNat value)) (at_ + 1) n (value / 256)

@[simp] theorem length_setField {bytes : List UInt8} {at_ n value : Nat} :
    (setField bytes at_ n value).length = bytes.length := by
  induction n generalizing bytes at_ value with
  | zero => rfl
  | succ n ih => rw [setField, ih, length_set]

variable {bytes other : List UInt8} {at_ n value i : Nat}

/-- A byte outside the field does not change. -/
theorem getD_setField_apart (apart : i < at_ ∨ at_ + n ≤ i) :
    (setField bytes at_ n value).getD i 0 = bytes.getD i 0 := by
  induction n generalizing bytes at_ value with
  | zero => rfl
  | succ n ih =>
    rw [setField, ih (by omega)]
    simp only [getD_eq_getElem?_getD]
    rw [List.getElem?_set_ne (by omega)]

/-- A field depends on its own bytes. -/
theorem getField_congr (same : ∀ i, at_ ≤ i → i < at_ + n → bytes.getD i 0 = other.getD i 0) :
    getField bytes at_ n = getField other at_ n := by
  induction n generalizing at_ with
  | zero => rfl
  | succ n ih =>
    rw [getField, getField, same at_ (le_refl _) (by omega)]
    rw [ih fun i low high => same i (by omega) (by omega)]

/-- A field that does not overlap the written one reads as before. -/
theorem getField_setField_apart {other m : Nat} (apart : other + m ≤ at_ ∨ at_ + n ≤ other) :
    getField (setField bytes at_ n value) other m = getField bytes other m :=
  getField_congr fun _ low high => getD_setField_apart (by omega)

/-- **A written field reads back.** -/
theorem getField_setField (fits : at_ + n ≤ bytes.length) :
    getField (setField bytes at_ n value) at_ n = value % 256 ^ n := by
  induction n generalizing bytes at_ value with
  | zero => rw [getField, pow_zero, mod_one]
  | succ n ih =>
    have rest := @ih (bytes.set at_ (ofNat value)) (at_ + 1) (value / 256)
      (by rw [length_set]; omega)
    have first : (setField (bytes.set at_ (ofNat value)) (at_ + 1) n (value / 256)).getD at_
        0 = ofNat value := by
      rw [getD_setField_apart (.inl (lt_succ_self _))]
      rw [getD_eq_getElem _ _ (by rw [length_set]; omega), getElem_set_self]
    have low : (ofNat value).toNat = value % 256 := by simp
    rw [getField, setField, rest, first, low, pow_succ']
    rw [mod_mul]

/-- Buffers of one length that agree from an offset on have the same bytes there. -/
theorem drop_eq_of_getD {k : Nat} (length : bytes.length = other.length)
    (same : ∀ i, k ≤ i → bytes.getD i 0 = other.getD i 0) : bytes.drop k = other.drop k := by
  refine ext_getElem (by rw [length_drop, length_drop, length]) fun i low high => ?_
  rw [length_drop] at low high
  rw [getElem_drop, getElem_drop, ← getD_eq_getElem _ 0 (by omega),
    ← getD_eq_getElem _ 0 (by omega)]
  exact same (k + i) (le_add_right _ _)

/-- What a write leaves in a byte of its field depends on the value and the room only. -/
theorem getD_setField_congr (length : bytes.length = other.length) (low : at_ ≤ i)
    (high : i < at_ + n) :
    (setField bytes at_ n value).getD i 0 = (setField other at_ n value).getD i 0 := by
  induction n generalizing bytes other at_ value with
  | zero => omega
  | succ n ih =>
    rw [setField, setField]
    by_cases first : i = at_
    · subst first
      rw [getD_setField_apart (.inl (lt_succ_self _)), getD_setField_apart (.inl (lt_succ_self _))]
      simp only [getD_eq_getElem?_getD, List.getElem?_set, length, if_true]
    · exact ih (by rw [length_set, length_set, length]) (by omega) (by omega)

def fieldBytes : Nat → Nat → List UInt8
  | 0, _ => []
  | n + 1, value => ofNat value :: fieldBytes n (value / 256)

@[simp] theorem length_fieldBytes : (fieldBytes n value).length = n := by
  induction n generalizing value with
  | zero => rfl
  | succ n ih => rw [fieldBytes, length_cons, ih]

/-- **Bytes that were written as a field are read as the field.** -/
theorem getField_fieldBytes (before after : List UInt8) (n value : Nat) :
    getField (before ++ fieldBytes n value ++ after) before.length n = value % 256 ^ n := by
  induction n generalizing before value with
  | zero => rw [getField, pow_zero, mod_one]
  | succ n ih =>
    have rest := ih (before ++ [ofNat value]) (value / 256)
    have first : (before ++ fieldBytes (n + 1) value ++ after).getD before.length 0 =
        ofNat value := by
      simp [fieldBytes, getD_eq_getElem?_getD]
    rw [getField, first, pow_succ', mod_mul, ← rest]
    simp [fieldBytes]

/-- A field of some bytes is overwritten in place. -/
theorem setField_fieldBytes (before after : List UInt8) (n old new : Nat) :
    setField (before ++ fieldBytes n old ++ after) before.length n new =
      before ++ fieldBytes n new ++ after := by
  induction n generalizing before old new with
  | zero => rfl
  | succ n ih =>
    have rest := ih (before ++ [ofNat new]) (old / 256) (new / 256)
    simpa [setField, fieldBytes] using rest

end FunsOS.Foundation
