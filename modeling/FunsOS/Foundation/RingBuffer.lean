import Mathlib.Data.List.Basic
import Mathlib.Logic.Function.Iterate

/-!
# Ring buffers

A queue kept in a circular array: the queue starts at one cell and continues, past the end
of the array, at its beginning. The array is a function of the index, of which a ring of
`size` cells uses the indices below `size`.

The queue is read off the array by walking from its start (`ringContents`). Taking the first
elements moves the start (`ringContents_append`); writing the cell behind the last element
appends to the queue and disturbs nothing in it, as long as the ring is not full
(`ringContents_push`).
-/

set_option autoImplicit false

namespace FunsOS.Foundation

open Nat Function
open List hiding count

universe u

variable {α : Type u} {size : Nat}

/-- The `count` elements of the queue that starts at the cell `start`. -/
def ringContents (size : Nat) (cells : Nat → α) (start : Nat) : Nat → List α
  | 0 => []
  | count + 1 => cells start :: ringContents size cells ((start + 1) % size) count

variable (cells : Nat → α) {count : Nat}

@[simp] theorem ringContents_zero {start : Nat} : ringContents size cells start 0 = [] := rfl

/-- The first element is in the cell the queue starts at. -/
theorem ringContents_succ {start : Nat} : ringContents size cells start (count + 1) =
      cells start :: ringContents size cells ((start + 1) % size) count := rfl

@[simp] theorem ringContents_length {start : Nat} :
    (ringContents size cells start count).length = count := by
  induction count generalizing start with
  | zero => rfl
  | succ count ih => rw [ringContents_succ, length_cons, ih]

/-- Going round the ring from the next cell is going round it one cell further. -/
theorem ring_next {start : Nat} :
    ((start + 1) % size + count) % size = (start + (count + 1)) % size := by
  rw [Nat.mod_add_mod, Nat.add_assoc, Nat.add_comm 1 count]

variable {start : Nat}

section

variable (inRing : start < size)
include inRing

/-- The queue is its first `n` elements and those that start `n` cells further. -/
theorem ringContents_append (n count : Nat) :
    ringContents size cells start (n + count) =
      ringContents size cells start n ++ ringContents size cells ((start + n) % size) count := by
  induction n generalizing start with
  | zero => simp [mod_eq_of_lt inRing]
  | succ n ih =>
    have next : (start + 1) % size < size := mod_lt _ (zero_lt_of_lt inRing)
    rw [succ_add, ringContents_succ, ih next, ring_next, ringContents_succ, cons_append]

/-- The last element is in the cell before the end of the queue. -/
theorem ringContents_snoc : ringContents size cells start (count + 1) =
      ringContents size cells start count ++ [cells ((start + count) % size)] :=
  ringContents_append cells inRing count 1

/-- Less than once round the ring from a cell is another cell. -/
theorem ring_ne {steps : Nat} (forward : 0 < steps)
    (notRound : steps < size) : (start + steps) % size ≠ start := by
  intro same
  rcases Nat.lt_or_ge (start + steps) size with below | above
  · rw [mod_eq_of_lt below] at same
    omega
  · rw [mod_eq_sub_mod above, mod_eq_of_lt (by omega)] at same
    omega

/-- Cells that are not in the queue do not matter to it. -/
theorem ringContents_congr {cells other : Nat → α}
    (same : ∀ k < count, cells ((start + k) % size) = other ((start + k) % size)) :
    ringContents size cells start count = ringContents size other start count := by
  induction count with
  | zero => rfl
  | succ count ih =>
    rw [ringContents_snoc cells inRing, ringContents_snoc other inRing,
      ih fun k below => same k (by omega), same count (by omega)]

/-- **Writing behind the last element appends to the queue.** -/
theorem ringContents_push (notFull : count < size) {element : α} :
    ringContents size (update cells ((start + count) % size) element) start (count + 1) =
      ringContents size cells start count ++ [element] := by
  rw [ringContents_snoc _ inRing, update_self]
  refine congrArg (· ++ [element]) (ringContents_congr inRing fun k below => ?_)
  -- the written cell is `count - k` cells after the one read
  refine update_of_ne (fun same => ?_) _ _
  have round : ((start + k) % size + (count - k)) % size = (start + k) % size := by
    rw [Nat.mod_add_mod, Nat.add_assoc, Nat.add_sub_cancel' (Nat.le_of_lt below)]
    exact same.symm
  exact ring_ne (mod_lt _ (zero_lt_of_lt inRing)) (by omega) (by omega) round

end

/-! ## Loops over a ring -/

/-- Write elements one behind the other, from the cell `tail` on; the new `tail` is the cell
behind the last one. -/
def ringWrite (size : Nat) : List α → (Nat → α) → Nat → (Nat → α) × Nat
  | [], cells, tail => (cells, tail)
  | x :: xs, cells, tail => ringWrite size xs (update cells tail x) ((tail + 1) % size)

/-- **Elements that fit are appended to the queue.** -/
theorem ringWrite_spec (inRing : start < size) {xs : List α} (fits : count + xs.length ≤ size) :
    ringContents size (ringWrite size xs cells ((start + count) % size)).1 start
        (count + xs.length) = ringContents size cells start count ++ xs ∧
      (ringWrite size xs cells ((start + count) % size)).2 = (start + (count + xs.length)) % size := by
  induction xs generalizing cells count with
  | nil => exact ⟨(append_nil _).symm, rfl⟩
  | cons x xs ih =>
    rw [length_cons] at fits ⊢
    have next : ((start + count) % size + 1) % size = (start + (count + 1)) % size := by
      rw [Nat.mod_add_mod, Nat.add_assoc]
    have longer : count + (xs.length + 1) = count + 1 + xs.length := by omega
    obtain ⟨contents, tail⟩ :=
      @ih (update cells ((start + count) % size) x) (count + 1) (by omega)
    rw [ringContents_push cells inRing (by omega), append_assoc, singleton_append] at contents
    rw [ringWrite, next, longer]
    exact ⟨contents, tail⟩

/-- Going from cell to cell. -/
theorem ring_iterate (inRing : start < size) :
    (fun cell => (cell + 1) % size)^[count] start = (start + count) % size := by
  induction count generalizing start with
  | zero => exact (mod_eq_of_lt inRing).symm
  | succ count ih =>
    rw [iterate_succ_apply, ih (mod_lt _ (zero_lt_of_lt inRing)), ring_next]

end FunsOS.Foundation
