import Mathlib.Algebra.Order.BigOperators.Group.Finset

/-!
# Items in places, and the load of a place

Items are in one place each, or in none. Each item has a weight, and the load of a place is the
weight of the items in it; with weight 1 it is their number.

Putting an item that was nowhere into a place adds its weight to the load of that place and to no
other (`load_put`), and taking an item out does the converse (`load_take`). The weight of an item
that is nowhere does not count (`load_congr`).
-/

set_option autoImplicit false

namespace FunsOS.Foundation

open Function Finset

universe u v

variable {Item : Type u} {Place : Type v} [Fintype Item] [DecidableEq Place]

def occupants (place : Item → Option Place) (p : Place) : Finset Item :=
  univ.filter fun a => place a = some p

def load (place : Item → Option Place) (weight : Item → Nat) (p : Place) : Nat :=
  ∑ a ∈ occupants place p, weight a

variable {place : Item → Option Place} {weight other : Item → Nat} {a : Item} {p q : Place}

@[simp] theorem mem_occupants : a ∈ occupants place p ↔ place a = some p := by
  simp [occupants]

theorem load_one : load place (fun _ => 1) p = (occupants place p).card := by
  simp [load]

/-- No place has more items than there are. -/
theorem load_one_le_card : load place (fun _ => 1) p ≤ Fintype.card Item := by
  rw [load_one]
  exact card_le_univ _

/-- Only the weights of items that are somewhere count. -/
theorem load_congr (same : ∀ a, place a ≠ none → other a = weight a) :
    load place other p = load place weight p := by
  refine sum_congr rfl fun a member => same a ?_
  rw [mem_occupants.mp member]
  exact Option.some_ne_none p

/-- An item is no heavier than the place it is in. -/
theorem weight_le_load (here : place a = some p) : weight a ≤ load place weight p :=
  single_le_sum (fun _ _ => Nat.zero_le _) (mem_occupants.mpr here)

section

variable [DecidableEq Item]

/-- Putting an item that was nowhere into a place adds its weight there. -/
theorem load_put (nowhere : place a = none) :
    load (update place a (some p)) weight q =
      load place weight q + if q = p then weight a else 0 := by
  by_cases same : q = p
  · subst same
    have grown : occupants (update place a (some q)) q = insert a (occupants place q) := by
      ext b
      by_cases isItem : b = a
      · simp [isItem]
      · simp [isItem]
    have fresh : a ∉ occupants place q := by simp [nowhere]
    rw [load, grown, sum_insert fresh, if_pos rfl, Nat.add_comm, load]
  · have kept : occupants (update place a (some p)) q = occupants place q := by
      ext b
      by_cases isItem : b = a
      · simp [isItem, nowhere, Ne.symm same]
      · simp [isItem]
    rw [load, kept, if_neg same, Nat.add_zero, load]

theorem load_take (here : place a = some p) :
    load (update place a none) weight q + (if q = p then weight a else 0) =
      load place weight q := by
  have back : update (update place a none) a (some p) = place := by
    rw [update_idem, ← here, update_eq_self]
  have added : load (update (update place a none) a (some p)) weight q =
      load (update place a none) weight q + if q = p then weight a else 0 :=
    load_put (update_self a none place)
  rw [back] at added
  exact added.symm

end

end FunsOS.Foundation
