import Mathlib.Data.Tree.Basic

/-!
# Binary trees, their order, and contexts

The nodes of a binary tree from left to right (`inorder`), and contexts: the
list of the nodes above a subtree, innermost first. `plug frames t` is the tree
`t` put into a context. Its order is the order of `t` between the two parts of
the context (`inorder_plug`). Every node of a tree is the root of a subtree in a
context (`exists_plug_of_mem`), and a rotation keeps the order
(`inorder_rotated`). Left and right are treated at once, by a `Side`.
-/

set_option autoImplicit false

namespace FunsOS.Foundation

open List

universe u

/-- A child link is the left or the right one. -/
inductive Side where
  | left
  | right
  deriving DecidableEq, Repr

def Side.flip : Side → Side
  | .left => .right
  | .right => .left

variable (s : Side)

@[simp] theorem Side.flip_flip : s.flip.flip = s := by cases s <;> rfl

@[simp] theorem Side.flip_ne : s.flip ≠ s := by cases s <;> decide

@[simp] theorem Side.ne_flip : s ≠ s.flip := by cases s <;> decide

theorem Side.eq_or_eq_flip (s t : Side) : t = s ∨ t = s.flip := by
  cases s <;> cases t <;> decide

variable {α : Type u} {a : α}

def inorder : BinaryTree α → List α
  | .nil => []
  | .node a l r => inorder l ++ a :: inorder r

/-- A node with the subtree on the given side, and the one on the other side. -/
def branch (s : Side) (a : α) (near far : BinaryTree α) : BinaryTree α :=
  match s with
  | .left => .node a near far
  | .right => .node a far near

/-- One node above a subtree: the side the subtree is on, the node, and the
subtree on the other side. -/
structure Frame (α : Type u) where
  side : Side
  node : α
  sibling : BinaryTree α

/-- Put a tree into a context. -/
def plug : List (Frame α) → BinaryTree α → BinaryTree α
  | [], t => t
  | f :: fs, t => plug fs (branch f.side f.node t f.sibling)

def ctxNodes : List (Frame α) → List α
  | [] => []
  | f :: fs => f.node :: (inorder f.sibling ++ ctxNodes fs)

def ctxBefore : List (Frame α) → List α
  | [] => []
  | f :: fs =>
    ctxBefore fs ++
      match f.side with
      | .left => []
      | .right => inorder f.sibling ++ [f.node]

def ctxAfter : List (Frame α) → List α
  | [] => []
  | f :: fs =>
    (match f.side with
      | .left => f.node :: inorder f.sibling
      | .right => []) ++ ctxAfter fs

@[simp] theorem inorder_nil : inorder (.nil : BinaryTree α) = [] := rfl

@[simp] theorem inorder_node {l r : BinaryTree α} :
    inorder (.node a l r) = inorder l ++ a :: inorder r := rfl

variable (fs : List (Frame α)) {t near far : BinaryTree α}

theorem inorder_plug : inorder (plug fs t) = ctxBefore fs ++ inorder t ++ ctxAfter fs := by
  induction fs generalizing t with
  | nil => simp [plug, ctxBefore, ctxAfter]
  | cons f fs ih =>
    rw [plug, ih]
    obtain ⟨side, node, sibling⟩ := f
    cases side <;> simp [branch, ctxBefore, ctxAfter]

theorem inorder_branch_perm (a : α) (near far : BinaryTree α) :
    (inorder (branch s a near far)).Perm (a :: (inorder near ++ inorder far)) := by
  cases s with
  | left => exact perm_middle
  | right =>
    refine perm_middle.trans (List.Perm.cons a ?_)
    exact perm_append_comm

theorem inorder_plug_perm (t : BinaryTree α) :
    (inorder (plug fs t)).Perm (inorder t ++ ctxNodes fs) := by
  induction fs generalizing t with
  | nil => simp [plug, ctxNodes]
  | cons f fs ih =>
    refine (ih _).trans (((inorder_branch_perm _ _ _ _).append_right _).trans ?_)
    simp only [ctxNodes, cons_append, append_assoc]
    exact perm_middle.symm

theorem length_le_ctxNodes : fs.length ≤ (ctxNodes fs).length := by
  induction fs with
  | nil => exact Nat.le_refl 0
  | cons f fs ih =>
    simp only [ctxNodes, length_cons, length_append]
    omega

theorem mem_inorder_plug {fs : List (Frame α)} :
    a ∈ inorder (plug fs t) ↔ a ∈ inorder t ∨ a ∈ ctxNodes fs := by
  rw [(inorder_plug_perm fs t).mem_iff, mem_append]

theorem branch_flip : branch s.flip a near far = branch s a far near := by
  cases s <;> rfl

/-- A rotation keeps the order. -/
theorem inorder_rotated {x y : α} {mid : BinaryTree α} :
    inorder (branch s y (branch s x near mid) far) = inorder (branch s x near (branch s y mid far)) := by
  cases s <;> simp [branch]

/-- Every node of a tree is the root of a subtree. -/
theorem exists_plug_of_mem (member : a ∈ inorder t) : ∃ fs l r, t = plug fs (.node a l r) := by
  suffices deeper : ∀ (above : List (Frame α)) (t : BinaryTree α), a ∈ inorder t →
      ∃ fs l r, plug above t = plug fs (.node a l r) from deeper [] t member
  intro above t
  induction t generalizing above with
  | nil => intro member; exact absurd member not_mem_nil
  | node b l r leftIH rightIH =>
    intro member
    rcases mem_append.mp member with left | rest
    · exact leftIH (⟨.left, b, r⟩ :: above) left
    · rcases mem_cons.mp rest with rfl | right
      · exact ⟨above, l, r, rfl⟩
      · exact rightIH (⟨.right, b, l⟩ :: above) right

end FunsOS.Foundation
