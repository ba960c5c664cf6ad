import Mathlib.Logic.Function.Basic

/-!
# A cache whose entries share their storage

A slot of the cache holds a key and names the cell in which the value of the key is
kept; several slots may name one cell. The cache is coherent with a function from keys
to values when every cell that a slot names holds the value of the key of that slot.

A coherent cache can lose this in three ways: the function changes, a cell is
overwritten, or a slot is filled. Each has a lemma that says exactly when it does not
(`Coherent.respecify_iff`, `Coherent.overwrite_iff`, `coherent_fill_iff`).
-/

set_option autoImplicit false

namespace FunsOS.Foundation

open Function Option

universe u

variable {Slot Key Cell Value : Type u}

/-- Every cell that a slot names holds the value of the key of that slot. -/
def Coherent (cache : Slot → Option (Key × Cell)) (cells : Cell → Value) (value : Key → Value) :
    Prop :=
  ∀ i key cell, cache i = some (key, cell) → cells cell = value key

variable {cache : Slot → Option (Key × Cell)} {cells cells' : Cell → Value}
  {value value' : Key → Value}

theorem Coherent.of_empty (empty : ∀ i, cache i = none) : Coherent cache cells value := by
  intro i key cell holds
  rw [empty i] at holds
  cases holds

/-- A change of the function is unnoticed exactly if no cached key changes its value. -/
theorem Coherent.respecify_iff (coherent : Coherent cache cells value) :
    Coherent cache cells value' ↔
      ∀ i key cell, cache i = some (key, cell) → value' key = value key := by
  constructor
  · intro after i key cell holds
    rw [← after i key cell holds, coherent i key cell holds]
  · intro same i key cell holds
    rw [same i key cell holds, coherent i key cell holds]

/-- Overwriting cells is harmless exactly if each cell that a slot names and that is
written gets the value of the key of that slot. -/
theorem Coherent.overwrite_iff (coherent : Coherent cache cells value)
    {written : Cell → Option Value} (write : ∀ cell, cells' cell = (written cell).getD (cells cell)) :
    Coherent cache cells' value ↔
      ∀ i key cell, cache i = some (key, cell) → ∀ new, written cell = some new → new = value key := by
  constructor
  · intro after i key cell holds new isWritten
    rw [← after i key cell holds, write, isWritten, getD_some]
  · intro right i key cell holds
    rw [write]
    cases isWritten : written cell with
    | none => rw [getD_none, coherent i key cell holds]
    | some new => rw [getD_some, right i key cell holds new isWritten]

section Slots

variable [DecidableEq Slot] {slot : Slot}

/-- The entries of a cache with one slot emptied are the entries of the other slots. -/
theorem clear_eq_some_iff {i : Slot} {entry : Key × Cell} :
    update cache slot none i = some entry ↔ i ≠ slot ∧ cache i = some entry := by
  by_cases here : i = slot
  · subst here
    simp
  · simp [here]

/-- A cache is coherent after a slot is filled exactly if the new entry is right and the
entries of the other slots are. -/
theorem coherent_fill_iff {key : Key} {cell : Cell} :
    Coherent (update cache slot (some (key, cell))) cells value ↔
      cells cell = value key ∧ Coherent (update cache slot none) cells value := by
  constructor
  · intro filled
    refine ⟨filled slot key cell (update_self ..), fun i other named holds => ?_⟩
    obtain ⟨elsewhere, before⟩ := clear_eq_some_iff.mp holds
    exact filled i other named (by rw [update_of_ne elsewhere, before])
  · rintro ⟨right, others⟩ i other named holds
    by_cases here : i = slot
    · subst here
      rw [update_self] at holds
      cases holds
      exact right
    · rw [update_of_ne here] at holds
      exact others i other named (clear_eq_some_iff.mpr ⟨here, holds⟩)

/-- Emptying a slot does no harm. -/
theorem Coherent.clear (coherent : Coherent cache cells value) :
    Coherent (update cache slot none) cells value :=
  fun i key cell holds => coherent i key cell (clear_eq_some_iff.mp holds).2

end Slots

end FunsOS.Foundation
