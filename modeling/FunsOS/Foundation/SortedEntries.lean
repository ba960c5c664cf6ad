import Mathlib.Order.Lattice

/-!
# Sorted arrays of keys and values

An array of entries in the order of their keys, as a node of a search tree holds them. An
entry is inserted from the end: the entries with a larger key move up. A key is looked up
from the front: the first entry whose key is not smaller decides.

Insertion keeps the order and adds the entry, and in an array of distinct keys the lookup
finds exactly the entries (`insertEntry_perm`, `insertEntry_sorted`, `lookupEntry_iff`).
-/

set_option autoImplicit false

namespace FunsOS.Foundation

open List

universe u v

variable {Key : Type u} [LinearOrder Key] {Value : Type v} {new : Key × Value}

/-- Insert in front of the largest run of entries at the end whose keys are larger. -/
def insertEntry (new : Key × Value) : List (Key × Value) → List (Key × Value)
  | [] => [new]
  | entry :: rest =>
    if (entry :: rest).all fun other => decide (new.1 < other.1) then new :: entry :: rest
    else entry :: insertEntry new rest

/-- The first entry whose key is not smaller, if its key is the one looked for. -/
def lookupEntry (entries : List (Key × Value)) (key : Key) : Option Value :=
  match entries.find? fun entry => decide (key ≤ entry.1) with
  | some entry => if entry.1 = key then some entry.2 else none
  | none => none

/-- The keys increase strictly. -/
def SortedEntries (entries : List (Key × Value)) : Prop :=
  entries.Pairwise fun first second => first.1 < second.1

theorem insertEntry_perm {entries : List (Key × Value)} :
    (insertEntry new entries).Perm (new :: entries) := by
  induction entries with
  | nil => exact List.Perm.refl _
  | cons entry rest ih =>
    rw [insertEntry]
    split
    · exact List.Perm.refl _
    · exact (ih.cons entry).trans (List.Perm.swap new entry rest)

variable {entries : List (Key × Value)} {key : Key}

section

variable (sorted : SortedEntries entries)
include sorted

theorem insertEntry_sorted (isNew : ∀ entry ∈ entries, entry.1 ≠ new.1) :
    SortedEntries (insertEntry new entries) := by
  induction entries with
  | nil => exact pairwise_singleton _ _
  | cons entry rest ih =>
    obtain ⟨first, later⟩ := pairwise_cons.mp sorted
    rw [insertEntry]
    split
    · rename_i larger
      refine pairwise_cons.mpr ⟨fun other member => ?_, sorted⟩
      exact of_decide_eq_true (all_eq_true.mp larger other member)
    · rename_i notAll
      have below : entry.1 < new.1 := by
        by_contra above
        have bigger : new.1 < entry.1 :=
          lt_of_le_of_ne (not_lt.mp above) (isNew entry mem_cons_self).symm
        refine notAll (all_eq_true.mpr fun other member => decide_eq_true ?_)
        obtain rfl | behind := mem_cons.mp member
        · exact bigger
        · exact lt_trans bigger (first other behind)
      have rest_ := ih later (forall_mem_cons.mp isNew).2
      refine pairwise_cons.mpr ⟨fun other member => ?_, rest_⟩
      obtain rfl | behind := mem_cons.mp (insertEntry_perm.mem_iff.mp member)
      · exact below
      · exact first other behind

/-- **A lookup finds exactly the entries of the array.** -/
theorem lookupEntry_iff {value : Value} :
    lookupEntry entries key = some value ↔ (key, value) ∈ entries := by
  induction entries with
  | nil => simp [lookupEntry]
  | cons entry rest ih =>
    obtain ⟨first, later⟩ := pairwise_cons.mp sorted
    have rest_ := ih later
    rw [lookupEntry] at rest_ ⊢
    rw [List.find?_cons]
    by_cases reached : key ≤ entry.1
    · rw [decide_eq_true reached]
      dsimp only
      have notBehind : (key, value) ∉ rest := fun behind =>
        absurd (first _ behind) (not_lt.mpr reached)
      rw [mem_cons, or_iff_left notBehind]
      by_cases here : entry.1 = key
      · rw [if_pos here, Option.some.injEq]
        constructor
        · rintro rfl
          exact Prod.ext here.symm rfl
        · intro same
          rw [← same]
      · rw [if_neg here]
        refine iff_of_false (by simp) fun same => here ?_
        rw [← same]
    · rw [decide_eq_false reached]
      rw [rest_, mem_cons, or_iff_right]
      rintro rfl
      exact reached le_rfl

theorem lookupEntry_eq_none (absent : ∀ entry ∈ entries, entry.1 ≠ key) :
    lookupEntry entries key = none := by
  cases found : lookupEntry entries key with
  | none => rfl
  | some value => exact absurd rfl (absent _ ((lookupEntry_iff sorted).mp found))

end

end FunsOS.Foundation
