import Mathlib.Data.List.GetD

/-!
# Files as sequences that grow

A file is a finite sequence of elements. A write replaces a range; what lies between the end
of the file and a range beyond it is filled with a zero element. Resizing cuts the file or
fills it up with zeros.

An element of a file is read with the zero element as default (`List.getD`), so an element
beyond the end and an element of a hole look the same: after a write
(`writeAt_getD`) and after resizing (`resize_getD`) an element that was not written is what it
was before.
-/

set_option autoImplicit false

namespace FunsOS.Foundation

open List

universe u

variable {α : Type u} (zero : α)

/-- Cut the file, or fill it up with zeros. -/
def resize (content : List α) (size : Nat) : List α :=
  content.take size ++ replicate (size - content.length) zero

/-- Replace the elements from `offset` on. Writing nothing changes nothing. -/
def writeAt (content : List α) (offset : Nat) (items : List α) : List α :=
  if items = [] then content
  else resize zero content offset ++ (items ++ content.drop (offset + items.length))

/-- At most `count` elements from `offset` on. -/
def readAt (content : List α) (offset count : Nat) : List α := (content.drop offset).take count

variable {zero} (content : List α) {offset size i : Nat} {items : List α}

theorem resize_length : (resize zero content size).length = size := by
  rw [resize, length_append, length_take, length_replicate]
  omega

theorem resize_getD (inside : i < size) :
    (resize zero content size).getD i zero = content.getD i zero := by
  rw [resize]
  rcases Nat.lt_or_ge i content.length with old | new
  · rw [getD_append _ _ _ _ (by rw [length_take]; omega)]
    simp only [getD_eq_getElem?_getD, getElem?_take, if_pos inside]
  · rw [getD_append_right _ _ _ _ (by rw [length_take]; omega), getD_eq_default _ _ new]
    simp only [getD_eq_getElem?_getD, getElem?_replicate]
    split
    · rfl
    · rfl

theorem writeAt_nil : writeAt zero content offset [] = content := if_pos rfl

theorem writeAt_length (some : items ≠ []) {content : List α} :
    (writeAt zero content offset items).length = max content.length (offset + items.length) := by
  rw [writeAt, if_neg some, length_append, resize_length, length_append, length_drop]
  omega

theorem writeAt_getD (some : items ≠ []) {content : List α} :
    (writeAt zero content offset items).getD i zero =
      if offset ≤ i ∧ i < offset + items.length then items.getD (i - offset) zero
      else content.getD i zero := by
  rw [writeAt, if_neg some]
  rcases Nat.lt_or_ge i offset with before | from_
  · rw [getD_append _ _ _ _ (by rwa [resize_length]), resize_getD content before, if_neg (by omega)]
  · rw [getD_append_right _ _ _ _ (by rwa [resize_length]), resize_length]
    rcases Nat.lt_or_ge i (offset + items.length) with inside | after
    · rw [getD_append _ _ _ _ (by omega), if_pos ⟨from_, inside⟩]
    · rw [getD_append_right _ _ _ _ (by omega), if_neg (by omega)]
      simp only [getD_eq_getElem?_getD, getElem?_drop]
      rw [show offset + items.length + (i - offset - items.length) = i by omega]

/-- A reader of a buffer that agrees with the file reads what is in the file. -/
theorem readAt_of_agrees {content : List α} {buffer : Nat → α}
    (agrees : ∀ i < content.length, buffer i = content.getD i zero) {count copied : Nat}
    (most : copied = min count (content.length - offset)) :
    (range copied).map (fun i => buffer (offset + i)) = readAt content offset count := by
  refine ext_getElem? fun i => ?_
  rw [readAt, getElem?_map, getElem?_take, getElem?_drop]
  rcases Nat.lt_or_ge i copied with here | beyond
  · rw [getElem?_range here, if_pos (by omega), Option.map_some, agrees _ (by omega),
      getD_eq_getElem?_getD, getElem?_eq_getElem (by omega), Option.getD_some]
  · rw [getElem?_eq_none (by simpa using beyond)]
    split
    · rw [getElem?_eq_none (by omega)]
      rfl
    · rfl

end FunsOS.Foundation
