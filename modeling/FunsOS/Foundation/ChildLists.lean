import Mathlib.Data.List.Nodup
import Mathlib.Logic.Relation

/-!
# Trees kept as child lists and parent pointers

A forest is a heap of blocks, each with a pointer to its parent and the list of its children.
Blocks are claimed from the heap zeroed, linked in front of a child list, taken out of one and
given back.

`Forest.Linked` is what makes the lists usable: every child of a block in use is itself in use,
points back to that block and occurs once. `Forest.IsTree` adds that every block in use is
reached from a root that is nobody's child. Since a child points to its only parent, this is a
tree without cycles and without unreachable blocks. Adding a leaf and removing one keep it.
-/

set_option autoImplicit false

namespace FunsOS.Foundation

open Function List

universe u

/-- Blocks with a parent pointer and a list of children, some of them in use. -/
structure Forest (α : Type u) where
  used : α → Bool
  parent : α → Option α
  children : α → List α

namespace Forest

variable {α : Type u} [DecidableEq α]

/-! ## Operations -/

variable (forest : Forest α)

/-- Claims a block from the heap and zeroes it. -/
def claim (x : α) : Forest α where
  used := update forest.used x true
  parent := update forest.parent x none
  children := update forest.children x []

/-- Puts a block in front of the children of another. -/
def link (p x : α) : Forest α :=
  { forest with
    parent := update forest.parent x (some p)
    children := update forest.children p (x :: forest.children p) }

/-- Takes a block out of a child list; its parent pointer stays. -/
def unlinkFrom (p x : α) : Forest α :=
  { forest with children := update forest.children p ((forest.children p).erase x) }

/-- Takes a block out of the child list of the parent it points to. -/
def unlink (x : α) : Forest α :=
  match forest.parent x with
  | none => forest
  | some p => forest.unlinkFrom p x

/-- Gives a block back to the heap. -/
def discard (x : α) : Forest α :=
  { forest with used := update forest.used x false }

section Fields

variable (forest : Forest α) (p x : α)

@[simp] theorem link_used : (forest.link p x).used = forest.used := rfl

@[simp] theorem unlinkFrom_used : (forest.unlinkFrom p x).used = forest.used := rfl

@[simp] theorem unlinkFrom_parent : (forest.unlinkFrom p x).parent = forest.parent := rfl

@[simp] theorem discard_children : (forest.discard x).children = forest.children := rfl

@[simp] theorem discard_parent : (forest.discard x).parent = forest.parent := rfl

@[simp] theorem claim_used_self : (forest.claim x).used x := by
  simp [claim]

variable {q : α}

theorem claim_used_of_ne (other : q ≠ x) : (forest.claim x).used q = forest.used q :=
  update_of_ne other _ _

theorem discard_used_of_ne (other : q ≠ x) : (forest.discard x).used q = forest.used q :=
  update_of_ne other _ _

@[simp] theorem discard_used_self : (forest.discard x).used x = false := by
  simp [discard]

@[simp] theorem claim_children_self : (forest.claim x).children x = [] := by
  simp [claim]

theorem claim_children_of_ne (other : q ≠ x) : (forest.claim x).children q = forest.children q :=
  update_of_ne other _ _

theorem claim_parent_of_ne (other : q ≠ x) : (forest.claim x).parent q = forest.parent q :=
  update_of_ne other _ _

@[simp] theorem link_children_self : (forest.link p x).children p = x :: forest.children p := by
  simp [link]

theorem link_children_of_ne (other : q ≠ p) : (forest.link p x).children q = forest.children q :=
  update_of_ne other _ _

@[simp] theorem link_parent_self : (forest.link p x).parent x = some p := by
  simp [link]

theorem link_parent_of_ne (other : q ≠ x) : (forest.link p x).parent q = forest.parent q :=
  update_of_ne other _ _

@[simp] theorem unlinkFrom_children_self :
    (forest.unlinkFrom p x).children p = (forest.children p).erase x := by
  simp [unlinkFrom]

theorem unlinkFrom_children_of_ne (other : q ≠ p) :
    (forest.unlinkFrom p x).children q = forest.children q :=
  update_of_ne other _ _

theorem unlinkFrom_children_sublist (q : α) :
    ((forest.unlinkFrom p x).children q).Sublist (forest.children q) := by
  by_cases here : q = p
  · subst here
    simpa using erase_sublist
  · rw [forest.unlinkFrom_children_of_ne p x here]

theorem unlink_of_parent {forest : Forest α} {p x : α} (parent_x : forest.parent x = some p) :
    forest.unlink x = forest.unlinkFrom p x := by
  simp [unlink, parent_x]

/-- Linking a block and taking it out again restores every child list. -/
theorem unlink_link_children : ((forest.link p x).unlink x).children = forest.children := by
  rw [unlink_of_parent (forest.link_parent_self p x)]
  funext q
  by_cases here : q = p
  · subst here
    simp
  · rw [unlinkFrom_children_of_ne _ _ _ here, link_children_of_ne _ _ _ here]

theorem children_addLeaf {p x : α} (other : p ≠ x) : ((forest.claim x).link p x).children q =
      if q = x then [] else if q = p then x :: forest.children p else forest.children q := by
  by_cases new : q = x
  · subst new
    rw [if_pos rfl, link_children_of_ne _ _ _ (Ne.symm other), claim_children_self]
  · rw [if_neg new]
    by_cases here : q = p
    · subst here
      rw [if_pos rfl, link_children_self, claim_children_of_ne _ _ new]
    · rw [if_neg here, link_children_of_ne _ _ _ here, claim_children_of_ne _ _ new]

theorem used_addLeaf : ((forest.claim x).link p x).used q ↔ q = x ∨ forest.used q := by
  by_cases new : q = x
  · simp [new]
  · simp [claim_used_of_ne _ _ new, new]

/-- The children after a block has been taken out of a list and given back. -/
theorem children_removeLeaf : ((forest.unlinkFrom p x).discard x).children q =
      if q = p then (forest.children p).erase x else forest.children q := by
  by_cases here : q = p
  · subst here
    rw [if_pos rfl, discard_children, unlinkFrom_children_self]
  · rw [if_neg here, discard_children, unlinkFrom_children_of_ne _ _ _ here]

theorem used_removeLeaf : ((forest.unlinkFrom p x).discard x).used q ↔ q ≠ x ∧ forest.used q := by
  by_cases gone : q = x
  · simp [gone]
  · simp [discard_used_of_ne _ _ gone, gone]

end Fields

/-! ## Linked forests -/

/-- Every child of a block in use is in use, points back to it and occurs once. -/
structure Linked (forest : Forest α) : Prop where
  used_child : ∀ {p x : α}, forest.used p → x ∈ forest.children p → forest.used x
  parent_child : ∀ {p x : α}, forest.used p → x ∈ forest.children p → forest.parent x = some p
  nodup : ∀ {p : α}, forest.used p → (forest.children p).Nodup

/-- The block is in no child list of a block in use. -/
def Top (forest : Forest α) (x : α) : Prop := ∀ p, forest.used p → x ∉ forest.children p

namespace Linked

variable {forest : Forest α} {p x : α}

theorem top_claim (top : forest.Top x) : (forest.claim x).Top x := by
  intro q used_q member
  by_cases here : q = x
  · simp [here] at member
  · rw [forest.claim_children_of_ne x here] at member
    rw [forest.claim_used_of_ne x here] at used_q
    exact top q used_q member

theorem mem_link {q y : α} (member : y ∈ (forest.link p x).children q) :
    q = p ∧ y = x ∨ y ∈ forest.children q := by
  by_cases here : q = p
  · subst here
    rw [forest.link_children_self, mem_cons] at member
    exact member.imp_left fun same => ⟨rfl, same⟩
  · rw [forest.link_children_of_ne p x here] at member
    exact .inr member

@[simp] theorem unlink_used : (forest.unlink x).used = forest.used := by
  unfold unlink
  split <;> simp

variable (linked : forest.Linked)
include linked

omit [DecidableEq α] in
theorem top_of_not_used (free : forest.used x = false) : forest.Top x := by
  intro p used_p member
  simp [linked.used_child used_p member] at free

theorem claimed (free : forest.used x = false) : (forest.claim x).Linked := by
  have top := linked.top_of_not_used free
  have old : ∀ {q : α}, (forest.claim x).used q → q ≠ x → forest.used q := by
    intro q used_q other
    rwa [forest.claim_used_of_ne x other] at used_q
  refine ⟨?_, ?_, ?_⟩
  · intro q y used_q member
    by_cases here : q = x
    · simp [here] at member
    · rw [forest.claim_children_of_ne x here] at member
      by_cases same : y = x
      · simp [same]
      · rw [forest.claim_used_of_ne x same]
        exact linked.used_child (old used_q here) member
  · intro q y used_q member
    by_cases here : q = x
    · simp [here] at member
    · rw [forest.claim_children_of_ne x here] at member
      have other : y ≠ x := fun same => top q (old used_q here) (same ▸ member)
      rw [forest.claim_parent_of_ne x other]
      exact linked.parent_child (old used_q here) member
  · intro q used_q
    by_cases here : q = x
    · simp [here]
    · rw [forest.claim_children_of_ne x here]
      exact linked.nodup (old used_q here)

theorem linked_link (used_x : forest.used x) (top : forest.Top x) : (forest.link p x).Linked := by
  refine ⟨?_, ?_, ?_⟩
  · intro q y used_q member
    rcases mem_link member with ⟨-, rfl⟩ | member
    · exact used_x
    · exact linked.used_child used_q member
  · intro q y used_q member
    rcases mem_link member with ⟨rfl, rfl⟩ | member
    · exact forest.link_parent_self _ _
    · have other : y ≠ x := fun same => top q used_q (same ▸ member)
      rw [forest.link_parent_of_ne p x other]
      exact linked.parent_child used_q member
  · intro q used_q
    by_cases here : q = p
    · subst here
      rw [forest.link_children_self]
      exact nodup_cons.2 ⟨top q used_q, linked.nodup used_q⟩
    · rw [forest.link_children_of_ne p x here]
      exact linked.nodup used_q

theorem unlinkedFrom : (forest.unlinkFrom p x).Linked := by
  have sub := forest.unlinkFrom_children_sublist p x
  exact ⟨fun used_q member => linked.used_child used_q ((sub _).subset member),
    fun used_q member => linked.parent_child used_q ((sub _).subset member),
    fun used_q => (linked.nodup used_q).sublist (sub _)⟩

theorem unlinked : (forest.unlink x).Linked := by
  unfold unlink
  split
  · exact linked
  · exact linked.unlinkedFrom

/-- A child is taken out of the only list it is in. -/
theorem top_unlinkFrom (used_p : forest.used p) (member : x ∈ forest.children p) :
    (forest.unlinkFrom p x).Top x := by
  intro q used_q member_q
  have old := (forest.unlinkFrom_children_sublist p x q).subset member_q
  have same : q = p :=
    Option.some.inj ((linked.parent_child used_q old).symm.trans
      (linked.parent_child used_p member))
  subst same
  rw [forest.unlinkFrom_children_self] at member_q
  exact (linked.nodup used_p).not_mem_erase member_q

theorem discarded (top : forest.Top x) : (forest.discard x).Linked := by
  have old : ∀ {q : α}, (forest.discard x).used q → forest.used q := by
    intro q used_q
    by_cases here : q = x
    · simp [here] at used_q
    · rwa [forest.discard_used_of_ne x here] at used_q
  refine ⟨?_, fun used_q member => linked.parent_child (old used_q) member,
    fun used_q => linked.nodup (old used_q)⟩
  intro q y used_q member
  have other : y ≠ x := fun same => top q (old used_q) (same ▸ member)
  rw [forest.discard_used_of_ne x other]
  exact linked.used_child (old used_q) member

end Linked

/-! ## Trees -/

/-- The second block is reached from the first along child lists. -/
def Below (forest : Forest α) : α → α → Prop :=
  Relation.ReflTransGen fun p x => x ∈ forest.children p

/-- Every block in use is reached from the root, which is nobody's child. -/
structure IsTree (forest : Forest α) (root : α) : Prop extends Linked forest where
  used_root : forest.used root
  top_root : forest.Top root
  reached : ∀ {x : α}, forest.used x → forest.Below root x

namespace IsTree

variable {forest : Forest α} {root p x : α}

omit [DecidableEq α] in
theorem ne_root (tree : forest.IsTree root) (used_p : forest.used p)
    (member : x ∈ forest.children p) : x ≠ root :=
  fun same => tree.top_root p used_p (same ▸ member)

/-- **Adding a leaf.** A free block linked under a block in use gives a tree. -/
theorem addLeaf (tree : forest.IsTree root) (used_p : forest.used p)
    (free : forest.used x = false) : ((forest.claim x).link p x).IsTree root := by
  have root_ne : root ≠ x := by
    rintro rfl
    simp [tree.used_root] at free
  have linked : ((forest.claim x).link p x).Linked :=
    (tree.toLinked.claimed free).linked_link (forest.claim_used_self x)
      (Linked.top_claim (tree.top_of_not_used free))
  -- old paths survive: the only child list that changed has grown
  have grown : ∀ {q y : α}, q ≠ x → y ∈ forest.children q →
      y ∈ ((forest.claim x).link p x).children q := by
    intro q y q_ne member
    rw [← forest.claim_children_of_ne x q_ne] at member
    by_cases here : q = p
    · subst here
      simp [member]
    · rwa [link_children_of_ne _ _ _ here]
  have old : ∀ {y : α}, forest.Below root y →
      ((forest.claim x).link p x).Below root y ∧ forest.used y := by
    intro y reach
    induction reach with
    | refl => exact ⟨Relation.ReflTransGen.refl, tree.used_root⟩
    | @tail q y _ member ih =>
      have q_ne : q ≠ x := by
        rintro rfl
        simp [ih.2] at free
      exact ⟨ih.1.tail (grown q_ne member), tree.used_child ih.2 member⟩
  refine ⟨linked, ?_, ?_, ?_⟩
  · simp [forest.claim_used_of_ne x root_ne, tree.used_root]
  · intro q used_q member
    rcases Linked.mem_link member with ⟨-, same⟩ | member
    · exact root_ne same
    · by_cases here : q = x
      · simp [here] at member
      · rw [forest.claim_children_of_ne x here] at member
        rw [link_used, forest.claim_used_of_ne x here] at used_q
        exact tree.top_root q used_q member
  · intro y used_y
    by_cases same : y = x
    · subst same
      exact (old (tree.reached used_p)).1.tail (by simp)
    · rw [link_used, forest.claim_used_of_ne x same] at used_y
      exact (old (tree.reached used_y)).1

/-- **Removing a leaf.** A leaf taken out of its list and given back leaves a tree. -/
theorem removeLeaf (tree : forest.IsTree root) (used_p : forest.used p)
    (member : x ∈ forest.children p) (leaf : forest.children x = []) :
    ((forest.unlinkFrom p x).discard x).IsTree root := by
  have root_ne : root ≠ x := (tree.ne_root used_p member).symm
  have linked : ((forest.unlinkFrom p x).discard x).Linked :=
    tree.toLinked.unlinkedFrom.discarded (tree.toLinked.top_unlinkFrom used_p member)
  have old_used : ∀ {q : α}, ((forest.unlinkFrom p x).discard x).used q →
      q ≠ x ∧ forest.used q := by
    intro q used_q
    have q_ne : q ≠ x := by
      rintro rfl
      simp at used_q
    rw [discard_used_of_ne _ _ q_ne] at used_q
    exact ⟨q_ne, used_q⟩
  -- a path to another block does not pass through the leaf
  have kept : ∀ {y : α}, forest.Below root y → y ≠ x →
      ((forest.unlinkFrom p x).discard x).Below root y := by
    intro y reach
    induction reach with
    | refl => exact fun _ => Relation.ReflTransGen.refl
    | @tail q y _ member_q ih =>
      intro y_ne
      have q_ne : q ≠ x := by
        rintro rfl
        simp [leaf] at member_q
      refine (ih q_ne).tail ?_
      rw [discard_children]
      by_cases here : q = p
      · subst here
        rw [unlinkFrom_children_self]
        exact (mem_erase_of_ne y_ne).2 member_q
      · rwa [forest.unlinkFrom_children_of_ne p x here]
  refine ⟨linked, ?_, ?_, ?_⟩
  · rw [discard_used_of_ne _ _ root_ne]
    exact tree.used_root
  · intro q used_q member_q
    exact tree.top_root q (old_used used_q).2
      ((forest.unlinkFrom_children_sublist p x q).subset member_q)
  · intro y used_y
    obtain ⟨y_ne, used_y⟩ := old_used used_y
    exact kept (tree.reached used_y) y_ne

/-- Taking a leaf out and linking it elsewhere is removing it and adding it again. -/
theorem move_eq (used_x : forest.used x) (leaf : forest.children x = []) {q : α} (p_ne : p ≠ x) :
    (forest.unlinkFrom p x).link q x = (((forest.unlinkFrom p x).discard x).claim x).link q x := by
  have no_children : (forest.unlinkFrom p x).children x = [] := by
    rw [forest.unlinkFrom_children_of_ne p x p_ne.symm, leaf]
  have same_children :
      (((forest.unlinkFrom p x).discard x).claim x).children = (forest.unlinkFrom p x).children := by
    simp only [claim, discard_children]
    rw [← no_children, update_eq_self]
  simp only [link, same_children, mk.injEq, and_true]
  refine ⟨?_, ?_⟩
  · funext y
    by_cases same : y = x
    · simp [same, claim, used_x]
    · simp [claim, discard, same]
  · funext y
    by_cases same : y = x
    · simp [same]
    · simp [same, claim]

end IsTree

end Forest

end FunsOS.Foundation
