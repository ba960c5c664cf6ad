import Mathlib.Data.List.Nodup
import Mathlib.Data.List.Pairwise
import Mathlib.Data.List.Perm.Subperm

/-!
# Blocks laid out in an address range

`Laid len lo as hi` says that the blocks that start at the addresses `as`, each
`len a` long, lie in this order in `[lo, hi)` and do not overlap. Gaps are
allowed. It splits where the list of blocks splits (`laid_append`,
`laid_split`), and gives the two usual readings: every block lies in the range
(`Laid.bounds`), and every block ends before any later one starts
(`Laid.pairwise`).
-/

set_option autoImplicit false

namespace FunsOS.Foundation

open List

/-- The blocks at `as` lie in order and without overlap in `[lo, hi)`. -/
def Laid (len : Nat → Nat) : Nat → List Nat → Nat → Prop
  | lo, [], hi => lo ≤ hi
  | lo, a :: as, hi => lo ≤ a ∧ Laid len (a + len a) as hi

variable {len : Nat → Nat} {lo hi a : Nat} {as : List Nat}

@[simp] theorem laid_nil : Laid len lo [] hi ↔ lo ≤ hi := Iff.rfl

@[simp] theorem laid_cons :
    Laid len lo (a :: as) hi ↔ lo ≤ a ∧ Laid len (a + len a) as hi := Iff.rfl

section

variable (laid : Laid len lo as hi)
include laid

theorem Laid.mono_left {lo' : Nat} (le : lo' ≤ lo) : Laid len lo' as hi := by
  cases as with
  | nil => exact Nat.le_trans le laid
  | cons a as => exact ⟨Nat.le_trans le laid.1, laid.2⟩

theorem Laid.mono_right {hi' : Nat} (le : hi ≤ hi') : Laid len lo as hi' := by
  induction as generalizing lo with
  | nil => exact Nat.le_trans laid le
  | cons a as ih => exact ⟨laid.1, ih laid.2⟩

/-- A layout reads the lengths of its own blocks only. -/
theorem Laid.congr {len' : Nat → Nat} (agree : ∀ a ∈ as, len' a = len a) : Laid len' lo as hi := by
  induction as generalizing lo with
  | nil => exact laid
  | cons a as ih =>
    refine ⟨laid.1, ?_⟩
    rw [agree a mem_cons_self]
    exact ih laid.2 (forall_mem_cons.mp agree).2

theorem Laid.le : lo ≤ hi := by
  induction as generalizing lo with
  | nil => exact laid
  | cons a as ih =>
    have rest := ih laid.2
    have first := laid.1
    omega

end

theorem laid_append {first second : List Nat} :
    Laid len lo (first ++ second) hi ↔ ∃ mid, Laid len lo first mid ∧ Laid len mid second hi := by
  induction first generalizing lo with
  | nil =>
    constructor
    · intro laid
      exact ⟨lo, Nat.le_refl lo, laid⟩
    · rintro ⟨mid, le, laid⟩
      exact laid.mono_left le
  | cons a as ih => simp only [cons_append, laid_cons, ih, exists_and_left, and_assoc]

/-- Splitting a layout at one of its blocks. -/
theorem laid_split {before after : List Nat} :
    Laid len lo (before ++ a :: after) hi ↔
      Laid len lo before a ∧ Laid len (a + len a) after hi := by
  rw [laid_append]
  constructor
  · rintro ⟨mid, left, le, right⟩
    exact ⟨left.mono_right le, right⟩
  · rintro ⟨left, right⟩
    exact ⟨a, left, Nat.le_refl a, right⟩

/-- Every block lies in the range. -/
theorem Laid.bounds (laid : Laid len lo as hi) (member : a ∈ as) : lo ≤ a ∧ a + len a ≤ hi := by
  obtain ⟨before, after, rfl⟩ := append_of_mem member
  obtain ⟨left, right⟩ := laid_split.mp laid
  exact ⟨left.le, right.le⟩

/-- Every block ends at or before the start of any later one. -/
theorem Laid.pairwise (laid : Laid len lo as hi) : as.Pairwise fun a b => a + len a ≤ b := by
  induction as generalizing lo with
  | nil => exact List.Pairwise.nil
  | cons a as ih =>
    exact List.Pairwise.cons (fun b member => (laid.2.bounds member).1) (ih laid.2)

/-- Blocks that are not empty are no more than the bytes of the range. -/
theorem Laid.length_le (positive : ∀ a, 0 < len a) (laid : Laid len lo as hi) :
    lo + as.length ≤ hi := by
  induction as generalizing lo with
  | nil => exact laid
  | cons a as ih =>
    have rest := ih laid.2
    have first := laid.1
    have nonempty := positive a
    rw [length_cons]
    omega

/-- Blocks of one length that do not overlap fill no more than the range they are in,
whatever their order. -/
theorem length_mul_le_of_apart {starts : List Nat} {size limit : Nat}
    (inside : ∀ a ∈ starts, a + size ≤ limit)
    (apart : starts.Pairwise fun a b => a + size ≤ b ∨ b + size ≤ a) :
    starts.length * size ≤ limit := by
  have distinct : (starts.flatMap fun a => range' a size).Nodup := by
    rw [nodup_flatMap]
    refine ⟨fun a _ => nodup_range', apart.imp fun {a b} order => ?_⟩
    intro p inFirst inSecond
    rw [mem_range'_1] at inFirst inSecond
    omega
  have covered : (starts.flatMap fun a => range' a size) ⊆ range limit := by
    intro p member
    obtain ⟨a, isStart, inBlock⟩ := mem_flatMap.mp member
    have := inside a isStart
    rw [mem_range'_1] at inBlock
    rw [mem_range]
    omega
  have bound := (subperm_of_subset distinct covered).length_le
  simpa [length_flatMap, map_const'] using bound

end FunsOS.Foundation
