import FunsOS.Foundation.TreeContext

/-!
# Red-black trees

The colours of the nodes of a binary tree are a function beside the tree. A tree
is balanced with a root of colour `c` and black height `n` (`Balanced`) when no
red node has a red child and every path from the root down meets `n` black nodes;
the empty tree counts as black.

An insertion breaks the balance at one place only. So there is a notion of a
balanced context (`BalancedCtx`): it wants a tree of some colour and black height
in its hole, and with such a tree the whole is balanced and has a black root
(`BalancedCtx.plug`). A context that wants a black tree and has a red node at its
end goes on with a black node above it (`BalancedCtx.of_red`): that is why the
loop that repairs the balance finds a grandparent.
-/

set_option autoImplicit false

namespace FunsOS.Foundation

open List

universe u

/-- The colour of a node. -/
inductive NodeColor where
  | red
  | black
  deriving DecidableEq, Repr

variable {α : Type u} {color color' : α → NodeColor}

/-- The tree is balanced, with the given colour of the root and black height. -/
inductive Balanced (color : α → NodeColor) : BinaryTree α → NodeColor → Nat → Prop where
  | nil : Balanced color .nil .black 0
  | red {a : α} {l r : BinaryTree α} {n : Nat} : color a = .red →
      Balanced color l .black n → Balanced color r .black n → Balanced color (.node a l r) .red n
  | black {a : α} {l r : BinaryTree α} {c d : NodeColor} {n : Nat} : color a = .black →
      Balanced color l c n → Balanced color r d n → Balanced color (.node a l r) .black (n + 1)

/-- How many black nodes each path from the root to a leaf meets, from left to right. -/
def blackCounts (color : α → NodeColor) : BinaryTree α → List Nat
  | .nil => [0]
  | .node a l r =>
    (blackCounts color l ++ blackCounts color r).map fun n =>
      if color a = .black then n + 1 else n

def NoRedRed (color : α → NodeColor) : BinaryTree α → Prop
  | .nil => True
  | .node a l r =>
    (color a = .red → ∀ child grandL grandR,
      l = .node child grandL grandR ∨ r = .node child grandL grandR → color child = .black) ∧
    NoRedRed color l ∧ NoRedRed color r

namespace Balanced

variable {t : BinaryTree α} {c : NodeColor} {n : Nat}

theorem congr (agree : ∀ a ∈ inorder t, color' a = color a) (balanced : Balanced color t c n) :
    Balanced color' t c n := by
  induction balanced with
  | nil => exact .nil
  | red isRed _ _ leftIH rightIH =>
    rw [inorder_node, forall_mem_append, forall_mem_cons] at agree
    exact .red (agree.2.1.trans isRed) (leftIH agree.1) (rightIH agree.2.2)
  | black isBlack _ _ leftIH rightIH =>
    rw [inorder_node, forall_mem_append, forall_mem_cons] at agree
    exact .black (agree.2.1.trans isBlack) (leftIH agree.1) (rightIH agree.2.2)

variable {s : Side} {a : α} {near far l r : BinaryTree α}

theorem branch_red (isRed : color a = .red) (nearBalanced : Balanced color near .black n)
    (farBalanced : Balanced color far .black n) : Balanced color (branch s a near far) .red n := by
  cases s with
  | left => exact .red isRed nearBalanced farBalanced
  | right => exact .red isRed farBalanced nearBalanced

theorem branch_black {d : NodeColor} (isBlack : color a = .black)
    (nearBalanced : Balanced color near c n) (farBalanced : Balanced color far d n) :
    Balanced color (branch s a near far) .black (n + 1) := by
  cases s with
  | left => exact .black isBlack nearBalanced farBalanced
  | right => exact .black isBlack farBalanced nearBalanced

/-- The root has the colour a balanced tree is said to have. -/
theorem root_color (balanced : Balanced color (.node a l r) c n) : color a = c := by
  cases balanced with
  | red isRed _ _ => exact isRed
  | black isBlack _ _ => exact isBlack

/-- A tree whose root is not red is black. -/
theorem eq_black (balanced : Balanced color t c n)
    (root : ∀ a l r, t = .node a l r → color a = .black) : c = .black := by
  cases balanced with
  | nil => rfl
  | red isRed _ _ =>
    rw [root _ _ _ rfl] at isRed
    exact isRed.symm
  | black => rfl

/-- Painting a red root black. -/
theorem blacken (balanced : Balanced color (.node a l r) .red n) (isBlack : color' a = .black)
    (same : ∀ b ∈ inorder l ++ inorder r, color' b = color b) :
    Balanced color' (.node a l r) .black (n + 1) := by
  cases balanced with
  | red _ left right =>
    refine .black isBlack (left.congr fun b member => ?_) (right.congr fun b member => ?_)
    · exact same b (mem_append_left _ member)
    · exact same b (mem_append_right _ member)

/-- All paths of a balanced tree meet the same number of black nodes. -/
theorem blackCounts_eq (balanced : Balanced color t c n) :
    ∀ count ∈ blackCounts color t, count = n := by
  induction balanced with
  | nil => simp [blackCounts]
  | red isColor _ _ leftIH rightIH | black isColor _ _ leftIH rightIH =>
    intro count member
    obtain ⟨below, inside, rfl⟩ := mem_map.mp member
    have same := (mem_append.mp inside).elim (leftIH below) (rightIH below)
    simp [isColor, same]

theorem noRedRed (balanced : Balanced color t c n) : NoRedRed color t := by
  induction balanced with
  | nil => trivial
  | red _ leftBalanced rightBalanced leftIH rightIH =>
    refine ⟨fun _ child grandL grandR isChild => ?_, leftIH, rightIH⟩
    rcases isChild with rfl | rfl
    · exact leftBalanced.root_color
    · exact rightBalanced.root_color
  | black isBlack _ _ leftIH rightIH =>
    refine ⟨fun isRed => ?_, leftIH, rightIH⟩
    rw [isBlack] at isRed
    exact NodeColor.noConfusion isRed

end Balanced

/-! ## Contexts -/

/-- With a tree of the given colour and black height in its hole, the context makes a
balanced tree with a black root. -/
inductive BalancedCtx (color : α → NodeColor) : List (Frame α) → NodeColor → Nat → Prop where
  | nil {n : Nat} : BalancedCtx color [] .black n
  | red {f : Frame α} {fs : List (Frame α)} {n : Nat} : color f.node = .red →
      Balanced color f.sibling .black n → BalancedCtx color fs .red n →
      BalancedCtx color (f :: fs) .black n
  | black {f : Frame α} {fs : List (Frame α)} {c d : NodeColor} {n : Nat} : color f.node = .black →
      Balanced color f.sibling d n → BalancedCtx color fs .black (n + 1) →
      BalancedCtx color (f :: fs) c n

namespace BalancedCtx

variable {fs : List (Frame α)} {c : NodeColor} {n : Nat}

theorem congr (agree : ∀ a ∈ ctxNodes fs, color' a = color a) (balanced : BalancedCtx color fs c n) :
    BalancedCtx color' fs c n := by
  induction balanced with
  | nil => exact .nil
  | red isRed sibling _ ih =>
    rw [ctxNodes, forall_mem_cons, forall_mem_append] at agree
    exact .red (agree.1.trans isRed) (sibling.congr agree.2.1) (ih agree.2.2)
  | black isBlack sibling _ ih =>
    rw [ctxNodes, forall_mem_cons, forall_mem_append] at agree
    exact .black (agree.1.trans isBlack) (sibling.congr agree.2.1) (ih agree.2.2)

variable {t : BinaryTree α}

theorem plug (ctx : BalancedCtx color fs c n) (balanced : Balanced color t c n) :
    ∃ m, Balanced color (Foundation.plug fs t) .black m := by
  induction ctx generalizing t with
  | nil => exact ⟨_, balanced⟩
  | red isRed sibling _ ih => exact ih (balanced.branch_red isRed sibling)
  | black isBlack sibling _ ih => exact ih (balanced.branch_black isBlack sibling)

/-- Under a red node at the end of the context there is a black one. -/
theorem of_red {f : Frame α} (ctx : BalancedCtx color (f :: fs) c n) (isRed : color f.node = .red) :
    ∃ g gs d, fs = g :: gs ∧ color g.node = .black ∧ Balanced color f.sibling .black n ∧
      Balanced color g.sibling d n ∧ BalancedCtx color gs .black (n + 1) := by
  cases ctx with
  | red _ sibling outer =>
    cases outer with
    | black isBlack uncle rest => exact ⟨_, _, _, rfl, isBlack, sibling, uncle, rest⟩
  | black isBlack _ _ =>
    rw [isRed] at isBlack
    exact NodeColor.noConfusion isBlack

/-- A balanced tree splits into a balanced context and a balanced subtree. -/
theorem of_plug {m : Nat} (balanced : Balanced color (Foundation.plug fs t) .black m) :
    ∃ c n, BalancedCtx color fs c n ∧ Balanced color t c n := by
  induction fs generalizing t with
  | nil => exact ⟨.black, m, .nil, balanced⟩
  | cons f fs ih =>
    obtain ⟨c, n, ctx, whole⟩ := ih balanced
    obtain ⟨side, node, sibling⟩ := f
    cases side with
    | left =>
      cases whole with
      | red isRed inner outer => exact ⟨_, _, .red isRed outer ctx, inner⟩
      | black isBlack inner outer => exact ⟨_, _, .black isBlack outer ctx, inner⟩
    | right =>
      cases whole with
      | red isRed outer inner => exact ⟨_, _, .red isRed outer ctx, inner⟩
      | black isBlack outer inner => exact ⟨_, _, .black isBlack outer ctx, inner⟩

end BalancedCtx

end FunsOS.Foundation
