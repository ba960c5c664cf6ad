import Mathlib.Data.List.Basic

/-!
# Bitmaps kept in words

A bitmap with words of `w` bits: bit `i` is bit `i % w` of word `i / w`. The operations
work on the words with shifts and masks, and the lemmas say what they do to the bits. The
number of set bits below a limit changes by one when a bit below it does.
-/

set_option autoImplicit false

namespace FunsOS.Foundation

open List Nat BitVec

/-- A bitmap in words of `w` bits. -/
structure Bitmap (w : Nat) where
  words : Nat → BitVec w

namespace Bitmap

variable {w : Nat} (b : Bitmap w) {word : BitVec w}

def setWord (i : Nat) (word : BitVec w) : Bitmap w :=
  ⟨Function.update b.words i word⟩

def set (i : Nat) : Bitmap w :=
  b.setWord (i / w) (b.words (i / w) ||| 1#w <<< (i % w))

def clear (i : Nat) : Bitmap w :=
  b.setWord (i / w) (b.words (i / w) &&& ~~~(1#w <<< (i % w)))

def test (i : Nat) : Bool := (b.words (i / w) >>> (i % w)) &&& 1#w == 1#w

/-! ## Bits -/

theorem and_one_beq_one (positive : 0 < w) : (word &&& 1#w == 1#w) = word.getLsbD 0 := by
  rw [Bool.eq_iff_iff, beq_iff_eq]
  constructor
  · intro same
    have lowest := congrArg (·.getLsbD 0) same
    simpa [positive] using lowest
  · intro lowest
    ext i below
    simp only [getElem_and, getElem_one, Bool.and_eq_right_iff_imp, decide_eq_true_eq]
    rintro rfl
    exact lowest

theorem test_eq_getLsbD (positive : 0 < w) {b : Bitmap w} {i : Nat} :
    b.test i = (b.words (i / w)).getLsbD (i % w) := by
  unfold test
  rw [and_one_beq_one positive, getLsbD_ushiftRight, Nat.add_zero]

variable {i j limit : Nat} {b b' : Bitmap w}

/-- The mask of a bit. -/
theorem getLsbD_mask (below : j < w) : (1#w <<< i).getLsbD j = decide (j = i) := by
  rw [getLsbD_shiftLeft, getLsbD_one, Bool.eq_iff_iff]
  simp only [Bool.and_eq_true, Bool.not_eq_true', decide_eq_true_eq, decide_eq_false_iff_not]
  omega

/-- A word has nothing in common with the mask of a bit that is clear. -/
theorem and_mask_eq_zero (below : j < w) : word &&& 1#w <<< j = 0#w ↔ word.getLsbD j = false := by
  constructor
  · intro masked
    have bit := congrArg (·.getLsbD j) masked
    simpa [getLsbD_mask below] using bit
  · intro bit
    refine eq_of_getLsbD_eq fun k inside => ?_
    rw [getLsbD_and, getLsbD_mask inside]
    by_cases here : k = j
    · simp [here, bit]
    · simp [here]

theorem test_setWord (positive : 0 < w) :
    (b.setWord i word).test j = if j / w = i then word.getLsbD (j % w) else b.test j := by
  rw [test_eq_getLsbD positive, test_eq_getLsbD positive]
  unfold setWord
  dsimp only
  split
  case isTrue here => rw [here, Function.update_self]
  case isFalse other => rw [Function.update_of_ne other]

/-- Two bits of one word are at different places of it. -/
theorem mod_eq_mod_iff (word : j / w = i / w) : j % w = i % w ↔ j = i := by
  constructor
  · intro place
    rw [← div_add_mod j w, ← div_add_mod i w, word, place]
  · rintro rfl
    rfl

/-- The bit that is set changes, and no other. -/
theorem test_set (positive : 0 < w) (b : Bitmap w) (i j : Nat) :
    (b.set i).test j = (decide (j = i) || b.test j) := by
  unfold set
  rw [test_setWord positive]
  split
  case isTrue word =>
    rw [getLsbD_or, getLsbD_mask (mod_lt j positive), test_eq_getLsbD positive, word, Bool.or_comm]
    simp only [mod_eq_mod_iff word]
  case isFalse word =>
    have other : j ≠ i := fun same => word (same ▸ rfl)
    simp [other]

/-- The bit that is cleared changes, and no other. -/
theorem test_clear (positive : 0 < w) : (b.clear i).test j = (!decide (j = i) && b.test j) := by
  unfold clear
  rw [test_setWord positive]
  split
  case isTrue word =>
    rw [getLsbD_and, getLsbD_not, getLsbD_mask (mod_lt j positive),
      test_eq_getLsbD positive, word, Bool.and_comm]
    simp only [mod_eq_mod_iff word, mod_lt j positive, decide_true, Bool.true_and]
  case isFalse word =>
    have other : j ≠ i := fun same => word (same ▸ rfl)
    simp [other]

theorem test_of_allOnes (positive : 0 < w) (full : b.words (j / w) = allOnes w) : b.test j := by
  rw [test_eq_getLsbD positive, full, getLsbD_allOnes]
  exact decide_eq_true (mod_lt j positive)

theorem exists_clear_of_ne_allOnes (notFull : word ≠ allOnes w) :
    ∃ j < w, word.getLsbD j = false := by
  by_contra full
  refine notFull (eq_of_getLsbD_eq fun j below => ?_)
  rw [getLsbD_allOnes, decide_eq_true below]
  by_contra bit
  exact full ⟨j, below, by simpa using bit⟩

/-! ## Counting -/

def setBits (b : Bitmap w) (limit : Nat) : Nat := (range limit).countP b.test

theorem setBits_le (limit : Nat) : b.setBits limit ≤ limit := by
  have bound := countP_le_length (p := b.test) (l := range limit)
  rwa [length_range] at bound

theorem setBits_congr (same : ∀ i < limit, b'.test i = b.test i) :
    b'.setBits limit = b.setBits limit := by
  refine countP_congr fun i member => ?_
  rw [same i (mem_range.mp member)]

theorem setBits_of_set (below : i < limit) (wasClear : b.test i = false)
    (isSet : ∀ j, b'.test j = (decide (j = i) || b.test j)) :
    b'.setBits limit = b.setBits limit + 1 := by
  induction limit with
  | zero => omega
  | succ limit ih =>
    unfold setBits at ih ⊢
    rw [range_succ, countP_append, countP_append, countP_singleton, countP_singleton]
    rcases Nat.lt_succ_iff_lt_or_eq.mp below with inside | rfl
    · have other : limit ≠ i := by omega
      rw [isSet limit]
      simp only [other, decide_false, Bool.false_or]
      omega
    · have front : (range i).countP b'.test = (range i).countP b.test := by
        refine setBits_congr fun j inside => ?_
        rw [isSet j, decide_eq_false (Nat.ne_of_lt inside), Bool.false_or]
      rw [front, isSet i, wasClear]
      simp

theorem setBits_clear (positive : 0 < w) (below : i < limit) (wasSet : b.test i) :
    (b.clear i).setBits limit + 1 = b.setBits limit := by
  refine (setBits_of_set below ?_ fun j => ?_).symm
  · simp [test_clear positive]
  · rw [test_clear positive]
    by_cases here : j = i
    · simp [here, wasSet]
    · simp [here]

end Bitmap

end FunsOS.Foundation
