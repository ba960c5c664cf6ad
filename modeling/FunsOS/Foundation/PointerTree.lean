import Mathlib.Data.List.Nodup
import FunsOS.Foundation.TreeContext

/-!
# Binary trees with child and parent links

A binary tree in memory is a root pointer and, per node, two child links and a
parent link. `Links.Represents L t` says that the links spell out the tree `t`,
parent links included, and that no node occurs twice.

An update works at one place of the tree. A represented tree splits into a
represented context and a represented subtree (`holds_plug`), and the context
does not read the one link it hangs the subtree from (`HoldsCtx.of_frame`).

The updates are rotation (`Represents.rotate`), attaching a new leaf
(`Represents.attach`) and unlinking a node with at most one child
(`Represents.unlink`). Each says what becomes of the nodes in order: a rotation
keeps them, attaching inserts one, unlinking removes one. `Holds.walk` is the
walk down to a place to attach at, `Holds.minimum` the walk to the first node.
-/

set_option autoImplicit false

namespace FunsOS.Foundation

open List Side

universe u

variable {α : Type u}

/-! ## Links -/

/-- A root pointer, and the child and parent links of every node. -/
structure Links (α : Type u) where
  root : Option α
  child : Side → α → Option α
  parent : α → Option α

namespace Links

/-- The pointer `p` leads to the tree `t`, whose root has the parent `q`. -/
def Holds (L : Links α) : Option α → Option α → BinaryTree α → Prop
  | p, _, .nil => p = none
  | p, q, .node a l r =>
    p = some a ∧ L.parent a = q ∧ Holds L (L.child .left a) (some a) l ∧
      Holds L (L.child .right a) (some a) r

/-- The links spell out the tree, and no node occurs twice. -/
structure Represents (L : Links α) (t : BinaryTree α) : Prop where
  holds : L.Holds L.root none t
  nodup : (inorder t).Nodup

/-- The two families of links agree at the nodes `as`. -/
def AgreeOn (L L' : Links α) (as : List α) : Prop :=
  ∀ a ∈ as, L'.parent a = L.parent a ∧ ∀ s, L'.child s a = L.child s a

variable {L L' : Links α} {p q : Option α} {t : BinaryTree α} {a : α}

@[simp] theorem holds_nil : L.Holds p q .nil ↔ p = none := Iff.rfl

variable {s : Side} {near far : BinaryTree α} {fs : List (Frame α)}

@[simp] theorem holds_branch :
    L.Holds p q (branch s a near far) ↔
      p = some a ∧ L.parent a = q ∧ L.Holds (L.child s a) (some a) near ∧
        L.Holds (L.child s.flip a) (some a) far := by
  cases s with
  | left => exact Iff.rfl
  | right =>
    refine and_congr_right fun _ => and_congr_right fun _ => ?_
    exact and_comm

theorem AgreeOn.refl {as : List α} : AgreeOn L L as := fun _ _ => ⟨rfl, fun _ => rfl⟩

theorem Holds.congr (agree : AgreeOn L L' (inorder t)) (holds : L.Holds p q t) :
    L'.Holds p q t := by
  induction t generalizing p q with
  | nil => exact holds
  | node b l r leftIH rightIH =>
    obtain ⟨top, parent, left, right⟩ := holds
    obtain ⟨sameParent, sameChild⟩ := agree b (by simp)
    refine ⟨top, sameParent.trans parent, ?_, ?_⟩
    · rw [sameChild]
      exact leftIH (fun c member => agree c (by simp [member])) left
    · rw [sameChild]
      exact rightIH (fun c member => agree c (by simp [member])) right

/-- Links that agree at the nodes of a tree represent it too. -/
theorem Represents.congr (rep : L.Represents t) (root : L'.root = L.root)
    (agree : AgreeOn L L' (inorder t)) : L'.Represents t :=
  ⟨root ▸ rep.holds.congr agree, rep.nodup⟩

variable {q' : Option α} {t' mid : BinaryTree α} {x : α} {f : Frame α}

/-- A subtree whose root gets another parent. -/
theorem Holds.reparent (nodup : (inorder t).Nodup)
    (child : ∀ b ∈ inorder t, ∀ s, L'.child s b = L.child s b)
    (parent : ∀ b ∈ inorder t, p ≠ some b → L'.parent b = L.parent b)
    (top : ∀ b, p = some b → L'.parent b = q') (holds : L.Holds p q t) : L'.Holds p q' t := by
  cases t with
  | nil => exact holds
  | node b l r =>
    obtain ⟨rfl, -, left, right⟩ := holds
    have fresh := (nodup_cons.mp (nodup_middle.mp nodup)).1
    have below : ∀ c ∈ inorder l ++ inorder r, some b ≠ some c := by
      rintro c member same
      cases same
      exact fresh member
    refine ⟨rfl, top b rfl, ?_, ?_⟩
    · rw [child b (by simp)]
      refine left.congr fun c member => ⟨?_, child c (by simp [member])⟩
      exact parent c (by simp [member]) (below c (mem_append_left _ member))
    · rw [child b (by simp)]
      refine right.congr fun c member => ⟨?_, child c (by simp [member])⟩
      exact parent c (by simp [member]) (below c (mem_append_right _ member))

/-- Links spell out one tree only. -/
theorem Holds.unique (holds : L.Holds p q t) (other : L.Holds p q' t') : t = t' := by
  induction t generalizing p q q' t' with
  | nil =>
    cases t' with
    | nil => rfl
    | node b l r =>
      cases holds.symm.trans other.1
  | node a l r leftIH rightIH =>
    cases t' with
    | nil =>
      cases other.symm.trans holds.1
    | node b l' r' =>
      obtain ⟨top, -, left, right⟩ := holds
      obtain ⟨top', -, left', right'⟩ := other
      cases top.symm.trans top'
      rw [leftIH left left', rightIH right right']

theorem Represents.unique (rep : L.Represents t) (other : L.Represents t') : t = t' :=
  rep.holds.unique other.holds

/-- The pointer that leads to a tree is to its root. -/
theorem Holds.mem_of_eq_some (holds : L.Holds (some a) q t) : a ∈ inorder t := by
  cases t with
  | nil => exact absurd holds (by simp)
  | node b l r =>
    cases holds.1
    simp

/-- NULL leads to the empty tree. -/
theorem Holds.eq_nil (holds : L.Holds none q t) : t = .nil := by
  cases t with
  | nil => rfl
  | node b l r => exact absurd holds.1 (by simp)

/-! ### Contexts -/

/-- The parent of the subtree in a context. -/
def above : List (Frame α) → Option α
  | [] => none
  | f :: _ => some f.node

/-- The link the subtree hangs from. -/
def slot (L : Links α) : List (Frame α) → Option α
  | [] => L.root
  | f :: _ => L.child f.side f.node

/-- The links spell out a context, the link to the subtree apart. -/
def HoldsCtx (L : Links α) : List (Frame α) → Prop
  | [] => True
  | f :: fs =>
    L.slot fs = some f.node ∧ L.parent f.node = above fs ∧
      L.Holds (L.child f.side.flip f.node) (some f.node) f.sibling ∧ HoldsCtx L fs

/-- A tree in a context is represented when both parts are. -/
theorem holds_plug :
    L.Holds L.root none (plug fs t) ↔ L.HoldsCtx fs ∧ L.Holds (L.slot fs) (above fs) t := by
  induction fs generalizing t with
  | nil => simp [plug, HoldsCtx, slot, above]
  | cons f fs ih =>
    rw [plug, ih, holds_branch]
    simp only [HoldsCtx, slot, above]
    tauto

/-- `L'` agrees with `L` on a context, the link to the subtree apart. -/
def CtxFrame (L L' : Links α) : List (Frame α) → Prop
  | [] => True
  | f :: fs =>
    L'.root = L.root ∧ L'.parent f.node = L.parent f.node ∧
      L'.child f.side.flip f.node = L.child f.side.flip f.node ∧
      AgreeOn L L' (inorder f.sibling ++ ctxNodes fs)

theorem CtxFrame.refl : CtxFrame L L fs := by
  cases fs with
  | nil => trivial
  | cons f fs => exact ⟨rfl, rfl, rfl, AgreeOn.refl⟩

/-- A context does not read the link to its subtree. -/
theorem HoldsCtx.of_frame (frame : CtxFrame L L' fs) (holds : L.HoldsCtx fs) : L'.HoldsCtx fs := by
  induction fs with
  | nil => trivial
  | cons f fs ih =>
    obtain ⟨root, sameParent, sameChild, agree⟩ := frame
    obtain ⟨slot_eq, parent, sibling, rest⟩ := holds
    have outer : AgreeOn L L' (ctxNodes fs) := fun b member =>
      agree b (mem_append_right _ member)
    refine ⟨?_, sameParent.trans parent, ?_, ih ?_ rest⟩
    · rw [← slot_eq]
      cases fs with
      | nil => exact root
      | cons g gs => exact (outer g.node (by simp [ctxNodes])).2 g.side
    · rw [sameChild]
      exact sibling.congr fun b member => agree b (mem_append_left _ member)
    · cases fs with
      | nil => trivial
      | cons g gs =>
        obtain ⟨outerParent, outerChild⟩ := outer g.node (by simp [ctxNodes])
        exact ⟨root, outerParent, outerChild _, fun b member => outer b (.tail _ member)⟩

/-- The node a context hangs a subtree from is not also its sibling. -/
theorem HoldsCtx.once (holds : L.HoldsCtx fs) (outside : x ∉ ctxNodes fs) :
    ∀ f, fs.head? = some f → L.child f.side.flip f.node ≠ some x := by
  intro f first leads
  cases fs with
  | nil => exact absurd first (by simp)
  | cons g fs =>
    cases first
    obtain ⟨-, -, sibling, -⟩ := holds
    rw [leads] at sibling
    exact outside (by simp [ctxNodes, sibling.mem_of_eq_some])

/-- In a represented tree, the link a subtree hangs from leads to its root. -/
theorem Represents.slot (rep : L.Represents (plug fs (branch s a near far))) : L.slot fs = some a :=
  (holds_branch.mp (holds_plug.mp rep.holds).2).1

/-- In a represented tree, the parent link of a subtree's root leads up. -/
theorem Represents.parent (rep : L.Represents (plug fs (branch s a near far))) :
    L.parent a = above fs :=
  (holds_branch.mp (holds_plug.mp rep.holds).2).2.1

theorem Represents.parent_of_root (rep : L.Represents t) (top : L.root = some a) :
    L.parent a = none := by
  have holds := rep.holds
  rw [top] at holds
  cases t with
  | nil => cases holds
  | node b l r =>
    cases holds.1
    exact holds.2.1

/-- The root of a subtree is not in the context. -/
theorem Represents.notMem_ctx (rep : L.Represents (plug fs (branch s a near far))) :
    a ∉ ctxNodes fs := by
  intro inCtx
  have apart := (nodup_append.mp ((inorder_plug_perm fs _).nodup_iff.mp rep.nodup)).2.2
  exact apart a ((inorder_branch_perm s a near far).mem_iff.mpr mem_cons_self) a inCtx rfl

section

variable (rep : L.Represents (plug (f :: fs) (branch s a near far)))
include rep

/-- The root of a subtree hangs from one link only. -/
theorem Represents.child_flip_ne : L.child f.side.flip f.node ≠ some a :=
  (holds_plug.mp rep.holds).1.once rep.notMem_ctx f rfl

/-- The side on which the root of a subtree hangs. -/
theorem Represents.side_eq [DecidableEq α] :
    (if L.child .left f.node = some a then left else right) = f.side := by
  have hangs : L.child f.side f.node = some a := rep.slot
  have once := rep.child_flip_ne
  obtain ⟨side, b, sibling⟩ := f
  cases side with
  | left => exact if_pos hangs
  | right => exact if_neg once

end

/-- A node with an empty subtree stands between the nodes of the tree without it. -/
theorem Represents.single_split (rep : L.Represents (plug fs (branch s a .nil far))) :
    ∃ before after, inorder (plug fs (branch s a .nil far)) = before ++ a :: after ∧
      inorder (plug fs far) = before ++ after ∧ a ∉ before ++ after := by
  obtain ⟨before, after, whole, rest⟩ : ∃ before after,
      inorder (plug fs (branch s a .nil far)) = before ++ a :: after ∧
        inorder (plug fs far) = before ++ after := by
    rw [inorder_plug, inorder_plug]
    cases s with
    | left => exact ⟨ctxBefore fs, inorder far ++ ctxAfter fs, by simp [branch], by simp⟩
    | right => exact ⟨ctxBefore fs ++ inorder far, ctxAfter fs, by simp [branch], by simp⟩
  have nodup := rep.nodup
  rw [whole] at nodup
  exact ⟨before, after, whole, rest, (nodup_cons.mp (nodup_middle.mp nodup)).1⟩

/-- The nodes that meet in a rotation are different. -/
theorem nodup_rotation {y : α}
    (nodup : (inorder (plug fs (branch s x near (branch s y mid far)))).Nodup) :
    (x :: y :: (inorder near ++ (inorder mid ++ (inorder far ++ ctxNodes fs)))).Nodup := by
  refine ((inorder_plug_perm _ _).trans ?_).nodup_iff.mp nodup
  have inner := (inorder_branch_perm s y mid far).append_left (inorder near)
  have outer := (inorder_branch_perm s x near (branch s y mid far)).trans (inner.cons x)
  refine (outer.append_right (ctxNodes fs)).trans ?_
  refine List.Perm.cons x ?_
  have moved : (inorder near ++ y :: (inorder mid ++ inorder far)).Perm
      (y :: (inorder near ++ (inorder mid ++ inorder far))) := perm_middle
  refine (moved.append_right (ctxNodes fs)).trans ?_
  simp

/-! ### Updates -/

section Updates

variable [DecidableEq α] (L)

def setChild (s : Side) (a : α) (value : Option α) : Links α :=
  { L with child := fun side b => if side = s ∧ b = a then value else L.child side b }

def setParent (a : α) (value : Option α) : Links α :=
  { L with parent := Function.update L.parent a value }

/-- Set the parent link of the node a pointer leads to, if it is not NULL. -/
def setParentOf (p value : Option α) : Links α :=
  match p with
  | none => L
  | some a => L.setParent a value

def setSlot (fs : List (Frame α)) (value : Option α) : Links α :=
  match fs with
  | [] => { L with root := value }
  | f :: _ => L.setChild f.side f.node value

/-- Put `new` where `old` hangs: the root pointer, or the child link of its
parent that leads to it, where the side `s` is looked at first. -/
def replace (s : Side) (old : α) (new : Option α) : Links α :=
  match L.parent old with
  | none => { L with root := new }
  | some above =>
    if L.child s above = some old then L.setChild s above new
    else L.setChild s.flip above new

/-- The rotation at `x` towards the side `s`; `none` when there is no child on
the other side. -/
def rotate (s : Side) (x : α) : Option (Links α) :=
  match L.child s.flip x with
  | none => none
  | some y =>
    let L := L.setChild s.flip x (L.child s y)
    let L := L.setParentOf (L.child s y) (some x)
    let L := L.setParent y (L.parent x)
    let L := L.replace s x (some y)
    let L := L.setChild s y (some x)
    some (L.setParent x (some y))

variable {L} {b y old : α} {value new : Option α} {side : Side}

@[simp] theorem setChild_parent : (L.setChild s a value).parent = L.parent := rfl

theorem setChild_child :
    (L.setChild s a value).child side b = if side = s ∧ b = a then value else L.child side b := rfl

@[simp] theorem setChild_child_self : (L.setChild s a value).child s a = value := if_pos ⟨rfl, rfl⟩

theorem setChild_child_of_ne (other : b ≠ a) :
    (L.setChild s a value).child side b = L.child side b := if_neg fun same => other same.2

theorem setChild_child_of_side (other : side ≠ s) :
    (L.setChild s a value).child side b = L.child side b := if_neg fun same => other same.1

@[simp] theorem setParent_child : (L.setParent a value).child = L.child := rfl

@[simp] theorem setParent_parent_self :
    (L.setParent a value).parent a = value := Function.update_self _ _ _

theorem setParent_parent_of_ne (other : b ≠ a) :
    (L.setParent a value).parent b = L.parent b := Function.update_of_ne other _ _

@[simp] theorem setParentOf_child : (L.setParentOf p value).child = L.child := by cases p <;> rfl

theorem setParentOf_parent_of_ne (other : p ≠ some b) :
    (L.setParentOf p value).parent b = L.parent b := by
  cases p with
  | none => rfl
  | some a => exact setParent_parent_of_ne fun same => other (by rw [same])

theorem setParentOf_parent_self (same : p = some b) : (L.setParentOf p value).parent b = value := by
  subst same
  exact setParent_parent_self

@[simp] theorem setSlot_parent : (L.setSlot fs value).parent = L.parent := by cases fs <;> rfl

@[simp] theorem setSlot_slot : (L.setSlot fs value).slot fs = value := by
  cases fs with
  | nil => rfl
  | cons f fs => exact setChild_child_self

theorem setSlot_child_of_notMem (outside : b ∉ ctxNodes fs) :
    (L.setSlot fs value).child side b = L.child side b := by
  cases fs with
  | nil => rfl
  | cons f fs =>
    refine setChild_child_of_ne ?_
    rintro rfl
    exact outside (by simp [ctxNodes])

@[simp] theorem replace_parent : (L.replace s old new).parent = L.parent := by
  rw [replace]
  split
  · rfl
  · split <;> rfl

theorem replace_child_of_ne (other : L.parent old ≠ some b) :
    (L.replace s old new).child side b = L.child side b := by
  rw [replace]
  split
  · rfl
  · rename_i above isAbove
    have apart : b ≠ above := fun same => other (same ▸ isAbove)
    split
    · exact setChild_child_of_ne apart
    · exact setChild_child_of_ne apart

/-- Where the context ends in the link to `old`, `replace` sets that link. -/
theorem replace_eq_setSlot (parent : L.parent old = above fs) (hangs : L.slot fs = some old)
    (once : ∀ f, fs.head? = some f → L.child f.side.flip f.node ≠ some old) :
    L.replace s old new = L.setSlot fs new := by
  cases fs with
  | nil => simp only [replace, parent, above, setSlot]
  | cons f fs =>
    simp only [replace, parent, above, setSlot]
    rcases eq_or_eq_flip s f.side with same | other
    · rw [if_pos (same ▸ hangs), same]
    · have absent := once f rfl
      rw [other, Side.flip_flip] at absent
      rw [if_neg absent, ← other]

/-! What a single store leaves alone -/

variable {M : Links α} {as : List α}

theorem AgreeOn.setChild (agree : AgreeOn L M as) (outside : a ∉ as) :
    AgreeOn L (M.setChild s a value) as := by
  intro b member
  refine ⟨(agree b member).1, fun side => ?_⟩
  rw [setChild_child_of_ne, (agree b member).2]
  rintro rfl
  exact outside member

theorem AgreeOn.setParent (agree : AgreeOn L M as) (outside : a ∉ as) :
    AgreeOn L (M.setParent a value) as := by
  intro b member
  refine ⟨?_, (agree b member).2⟩
  rw [setParent_parent_of_ne, (agree b member).1]
  rintro rfl
  exact outside member

section

variable (frame : CtxFrame L M fs)
include frame

theorem CtxFrame.setChild (outside : a ∉ ctxNodes fs) : CtxFrame L (M.setChild s a value) fs := by
  cases fs with
  | nil => trivial
  | cons f fs =>
    obtain ⟨notNode, notRest⟩ := not_or.mp (mem_cons.not.mp outside)
    obtain ⟨root, parent, child, agree⟩ := frame
    refine ⟨root, parent, ?_, agree.setChild notRest⟩
    rw [setChild_child_of_ne (Ne.symm notNode), child]

theorem CtxFrame.setParent (outside : a ∉ ctxNodes fs) : CtxFrame L (M.setParent a value) fs := by
  cases fs with
  | nil => trivial
  | cons f fs =>
    obtain ⟨notNode, notRest⟩ := not_or.mp (mem_cons.not.mp outside)
    obtain ⟨root, parent, child, agree⟩ := frame
    refine ⟨root, ?_, child, agree.setParent notRest⟩
    rw [setParent_parent_of_ne (Ne.symm notNode), parent]

theorem CtxFrame.setParentOf (outside : ∀ b, p = some b → b ∉ ctxNodes fs) :
    CtxFrame L (M.setParentOf p value) fs := by
  cases p with
  | none => exact frame
  | some b => exact frame.setParent (outside b rfl)

theorem CtxFrame.setSlot (nodup : (ctxNodes fs).Nodup) : CtxFrame L (M.setSlot fs value) fs := by
  cases fs with
  | nil => trivial
  | cons f fs =>
    obtain ⟨root, parent, child, agree⟩ := frame
    refine ⟨root, parent, ?_, agree.setChild (nodup_cons.mp nodup).1⟩
    exact (setChild_child_of_side (flip_ne f.side)).trans child

end

theorem slot_setChild (outside : a ∉ ctxNodes fs) : (L.setChild s a value).slot fs = L.slot fs := by
  cases fs with
  | nil => rfl
  | cons f fs =>
    refine setChild_child_of_ne ?_
    rintro rfl
    exact outside (by simp [ctxNodes])

theorem slot_setParent : (L.setParent a value).slot fs = L.slot fs := by
  cases fs <;> rfl

theorem slot_setParentOf : (L.setParentOf p value).slot fs = L.slot fs := by
  cases p with
  | none => rfl
  | some b => exact slot_setParent

/-! The three updates -/

/-- The links before a rotation sets the link from above: the middle subtree
and `y` have their new parents. -/
def lifting (L : Links α) (fs : List (Frame α)) (s : Side) (x y : α) : Links α :=
  ((L.setChild s.flip x (L.child s y)).setParentOf (L.child s y) (some x)).setParent y (above fs)

/-- The links after a rotation in a context. -/
def lifted (L : Links α) (fs : List (Frame α)) (s : Side) (x y : α) : Links α :=
  (((lifting L fs s x y).setSlot fs (some y)).setChild s y (some x)).setParent x (some y)

theorem lifted_child_of_ne (notX : b ≠ x) (notY : b ≠ y) (outside : b ∉ ctxNodes fs) (side : Side) :
    (lifted L fs s x y).child side b = L.child side b := by
  rw [lifted, lifting, setParent_child, setChild_child_of_ne notY,
    setSlot_child_of_notMem outside, setParent_child, setParentOf_child,
    setChild_child_of_ne notX]

theorem lifted_child_x (xy : x ≠ y) (outside : x ∉ ctxNodes fs) :
    (lifted L fs s x y).child s x = L.child s x ∧
      (lifted L fs s x y).child s.flip x = L.child s y := by
  constructor
  · rw [lifted, lifting, setParent_child, setChild_child_of_ne xy,
      setSlot_child_of_notMem outside, setParent_child, setParentOf_child,
      setChild_child_of_side (ne_flip s)]
  · rw [lifted, lifting, setParent_child, setChild_child_of_ne xy,
      setSlot_child_of_notMem outside, setParent_child, setParentOf_child, setChild_child_self]

theorem lifted_child_y (xy : x ≠ y) (outside : y ∉ ctxNodes fs) :
    (lifted L fs s x y).child s y = some x ∧
      (lifted L fs s x y).child s.flip y = L.child s.flip y := by
  constructor
  · rw [lifted, setParent_child, setChild_child_self]
  · rw [lifted, lifting, setParent_child, setChild_child_of_side (flip_ne s),
      setSlot_child_of_notMem outside, setParent_child, setParentOf_child,
      setChild_child_of_ne (Ne.symm xy)]

theorem lifted_parent_of_ne (notX : b ≠ x) (notY : b ≠ y) :
    (lifted L fs s x y).parent b = (L.setParentOf (L.child s y) (some x)).parent b := by
  rw [lifted, lifting, setParent_parent_of_ne notX, setChild_parent, setSlot_parent,
    setParent_parent_of_ne notY]
  cases L.child s y <;> rfl

/-- **Rotation.** The rotation at `x` towards `s` lifts the child `y` on the other
side over `x`. -/
theorem Represents.rotate (rep : L.Represents (plug fs (branch s x near (branch s y mid far)))) :
    ∃ L', L.rotate s x = some L' ∧
      L'.Represents (plug fs (branch s y (branch s x near mid) far)) := by
  have nodup := nodup_rotation rep.nodup
  obtain ⟨ctx, top, parentX, nearHolds, topY, parentY, midHolds, farHolds⟩ := by
    simpa only [holds_plug, holds_branch] using rep.holds
  simp only [nodup_cons, mem_cons, mem_append, not_or, nodup_append] at nodup
  obtain ⟨⟨xy, xNear, xMid, xFar, xCtx⟩, ⟨yNear, yMid, yFar, yCtx⟩, nearNodup,
    ⟨midNodup, ⟨farNodup, ctxNodup, farCtx⟩, midRest⟩, nearRest⟩ := nodup
  have midMem : ∀ b, L.child s y = some b → b ∈ inorder mid := by
    rintro b leads
    rw [leads] at midHolds
    exact midHolds.mem_of_eq_some
  have midNe : ∀ b ∉ inorder mid, L.child s y ≠ some b := fun b outside leads =>
    outside (midMem b leads)
  have midCtx : ∀ b, L.child s y = some b → b ∉ ctxNodes fs := fun b leads inCtx =>
    midRest b (midMem b leads) b (.inr inCtx) rfl
  have frame : CtxFrame L (lifting L fs s x y) fs :=
    ((CtxFrame.refl.setChild xCtx).setParentOf midCtx).setParent yCtx
  have whole : CtxFrame L (lifted L fs s x y) fs :=
    ((frame.setSlot ctxNodup).setChild yCtx).setParent xCtx
  have rotated : L.rotate s x = some (lifted L fs s x y) := by
    have parentKept : ((L.setChild s.flip x (L.child s y)).setParentOf (L.child s y)
        (some x)).parent x = above fs :=
      (setParentOf_parent_of_ne (midNe x xMid)).trans parentX
    have replaced : (lifting L fs s x y).replace s x (some y) =
        (lifting L fs s x y).setSlot fs (some y) := by
      refine replace_eq_setSlot ?_ ?_ ((ctx.of_frame frame).once xCtx)
      · rw [lifting, setParent_parent_of_ne xy, parentKept]
      · rw [lifting, slot_setParent, slot_setParentOf, slot_setChild xCtx, top]
    rw [lifting] at replaced
    simp only [Links.rotate, topY, setChild_child_of_ne (Ne.symm xy), parentKept, replaced,
      lifted, lifting]
  have elsewhere : ∀ t : BinaryTree α, x ∉ inorder t → y ∉ inorder t →
      (∀ b ∈ inorder t, b ∉ ctxNodes fs) → (∀ b ∈ inorder t, b ∉ inorder mid) →
      AgreeOn L (lifted L fs s x y) (inorder t) := by
    intro t xOut yOut outside notMid b member
    have notX : b ≠ x := fun same => xOut (same ▸ member)
    have notY : b ≠ y := fun same => yOut (same ▸ member)
    refine ⟨?_, lifted_child_of_ne notX notY (outside b member)⟩
    rw [lifted_parent_of_ne notX notY, setParentOf_parent_of_ne (midNe b (notMid b member))]
  refine ⟨_, rotated, holds_plug.mpr ⟨ctx.of_frame whole, ?_⟩, ?_⟩
  · simp only [holds_branch]
    refine ⟨?_, ?_, ⟨?_, ?_, ?_, ?_⟩, ?_⟩
    · rw [lifted, slot_setParent, slot_setChild yCtx, setSlot_slot]
    · rw [lifted, lifting, setParent_parent_of_ne (Ne.symm xy), setChild_parent, setSlot_parent,
        setParent_parent_self]
    · exact (lifted_child_y xy yCtx).1
    · rw [lifted, setParent_parent_self]
    · rw [(lifted_child_x xy xCtx).1]
      refine nearHolds.congr (elsewhere near xNear yNear ?_ ?_)
      · exact fun b member inCtx => nearRest b member b (.inr (.inr inCtx)) rfl
      · exact fun b member inMid => nearRest b member b (.inl inMid) rfl
    · rw [(lifted_child_x xy xCtx).2]
      have notX : ∀ b ∈ inorder mid, b ≠ x := fun b member same => xMid (same ▸ member)
      have notY : ∀ b ∈ inorder mid, b ≠ y := fun b member same => yMid (same ▸ member)
      refine midHolds.reparent midNodup ?_ ?_ ?_
      · exact fun b member => lifted_child_of_ne (notX b member) (notY b member)
          fun inCtx => midRest b member b (.inr inCtx) rfl
      · intro b member notTop
        rw [lifted_parent_of_ne (notX b member) (notY b member), setParentOf_parent_of_ne notTop]
      · intro b leads
        have member := midMem b leads
        rw [lifted_parent_of_ne (notX b member) (notY b member), setParentOf_parent_self leads]
    · rw [(lifted_child_y xy yCtx).2]
      refine farHolds.congr (elsewhere far xFar yFar ?_ ?_)
      · exact fun b member inCtx => farCtx b member b inCtx rfl
      · exact fun b member inMid => midRest b inMid b (.inl member) rfl
  · rw [inorder_plug, inorder_rotated, ← inorder_plug]
    exact rep.nodup

section Pair

variable {p g : α} {inner outer : BinaryTree α}

/-- Below two links to the same side, the rotation at the upper node lifts the lower one
over it. -/
theorem Represents.rotate_outer
    (rep : L.Represents (plug (⟨side, p, inner⟩ :: ⟨side, g, outer⟩ :: fs) t)) :
    ∃ L', L.rotate side.flip g = some L' ∧
      L'.Represents (plug fs (branch side p t (branch side g inner outer))) := by
  have turned : plug (⟨side, p, inner⟩ :: ⟨side, g, outer⟩ :: fs) t =
      plug fs (branch side.flip g outer (branch side.flip p inner t)) := by
    rw [branch_flip, branch_flip]
    rfl
  rw [turned] at rep
  obtain ⟨L', rotated, represents⟩ := rep.rotate
  rw [branch_flip, branch_flip] at represents
  exact ⟨L', rotated, represents⟩

/-- The rotation at a node lifts the root of the subtree on its other side over it. -/
theorem Represents.rotate_inner
    (rep : L.Represents (plug (⟨side.flip, p, inner⟩ :: fs) (branch s a near far))) :
    ∃ L' near' far', L.rotate side p = some L' ∧
      L'.Represents (plug (⟨side, a, far'⟩ :: fs) (branch side p inner near')) ∧
      inorder (plug (⟨side, a, far'⟩ :: fs) (branch side p inner near')) =
        inorder (plug (⟨side.flip, p, inner⟩ :: fs) (branch s a near far)) ∧
      (near' = near ∧ far' = far ∨ near' = far ∧ far' = near) := by
  obtain ⟨near', far', same, pair⟩ : ∃ near' far', branch s a near far =
      branch side a near' far' ∧ (near' = near ∧ far' = far ∨ near' = far ∧ far' = near) := by
    rcases eq_or_eq_flip side s with rfl | rfl
    · exact ⟨near, far, rfl, .inl ⟨rfl, rfl⟩⟩
    · exact ⟨far, near, branch_flip _, .inr ⟨rfl, rfl⟩⟩
  have turned : plug (⟨side.flip, p, inner⟩ :: fs) (branch s a near far) =
      plug fs (branch side p inner (branch side a near' far')) := by
    rw [same, plug, branch_flip]
  rw [turned] at rep ⊢
  obtain ⟨L', rotated, represents⟩ := rep.rotate
  refine ⟨L', near', far', rotated, represents, ?_, pair⟩
  rw [plug, inorder_plug, inorder_plug, inorder_rotated]

end Pair

/-- Links cleared at a node outside the tree represent the tree still. -/
theorem Represents.cleared (rep : L.Represents t) (outside : a ∉ inorder t) :
    (((L.setChild .left a none).setChild .right a none).setParent a none).Represents t :=
  rep.congr rfl (((AgreeOn.refl.setChild outside).setChild outside).setParent outside)

/-- The link a context ends in, as a place to attach to. -/
def place : List (Frame α) → Option (Side × α)
  | [] => none
  | f :: _ => some (f.side, f.node)

/-- Make `a` a leaf at the given link: its parent link, its child links, and the
link to it. -/
def attach (L : Links α) (at_ : Option (Side × α)) (a : α) : Links α :=
  let L := L.setParent a (at_.map Prod.snd)
  let L := (L.setChild .left a none).setChild .right a none
  match at_ with
  | none => { L with root := some a }
  | some (s, b) => L.setChild s b (some a)

/-- **Attaching.** A new node at the end of a context becomes a leaf there. -/
theorem Represents.attach (rep : L.Represents (plug fs .nil)) (fresh : a ∉ ctxNodes fs) :
    (L.attach (place fs) a).Represents (plug fs (.node a .nil .nil)) := by
  have attached : L.attach (place fs) a = (((L.setParent a (above fs)).setChild .left a
      none).setChild .right a none).setSlot fs (some a) := by
    cases fs <;> rfl
  obtain ⟨ctx, -⟩ := holds_plug.mp rep.holds
  have ctxNodup : (ctxNodes fs).Nodup := (inorder_plug_perm fs .nil).nodup_iff.mp rep.nodup
  rw [attached]
  refine ⟨holds_plug.mpr ⟨ctx.of_frame ?_, ?_, ?_, ?_, ?_⟩, ?_⟩
  · exact ((CtxFrame.refl.setParent fresh).setChild fresh |>.setChild fresh).setSlot ctxNodup
  · exact setSlot_slot
  · rw [setSlot_parent]
    exact setParent_parent_self
  · rw [setSlot_child_of_notMem fresh]
    simp [setChild_child]
  · rw [setSlot_child_of_notMem fresh, holds_nil, setChild_child_self]
  · refine (inorder_plug_perm fs _).nodup_iff.mpr ?_
    simpa using ⟨fresh, ctxNodup⟩

/-- Take a node with at most one child out: the child, if there is one, goes
where the node was. -/
def unlink (L : Links α) (a : α) : Links α :=
  let replacement := (L.child .left a).or (L.child .right a)
  (L.setParentOf replacement (L.parent a)).replace .left a replacement

/-- **Unlinking.** A node with an empty subtree is replaced by its other subtree. -/
theorem Represents.unlink (rep : L.Represents (plug fs (branch s a .nil far))) :
    (L.unlink a).Represents (plug fs far) := by
  obtain ⟨ctx, top, parent, nearHolds, farHolds⟩ := by
    simpa only [holds_plug, holds_branch] using rep.holds
  have nodup := (((inorder_plug_perm fs _).trans ((inorder_branch_perm s a .nil far).append_right
    (ctxNodes fs)))).nodup_iff.mp rep.nodup
  simp only [inorder_nil, nil_append, cons_append, nodup_cons, mem_append,
    not_or, nodup_append] at nodup
  obtain ⟨⟨aFar, aCtx⟩, farNodup, ctxNodup, apart⟩ := nodup
  have replacement : (L.child .left a).or (L.child .right a) = L.child s.flip a := by
    cases s with
    | left => rw [nearHolds]; rfl
    | right => rw [nearHolds, Option.or_none]; rfl
  have farMem : ∀ b, L.child s.flip a = some b → b ∈ inorder far := by
    rintro b leads
    rw [leads] at farHolds
    exact farHolds.mem_of_eq_some
  have farCtx : ∀ b, L.child s.flip a = some b → b ∉ ctxNodes fs := fun b leads inCtx =>
    apart b (farMem b leads) b inCtx rfl
  have frame : CtxFrame L (L.setParentOf (L.child s.flip a) (above fs)) fs :=
    CtxFrame.refl.setParentOf farCtx
  have unlinked : L.unlink a = (L.setParentOf (L.child s.flip a) (above fs)).setSlot fs
      (L.child s.flip a) := by
    rw [Links.unlink]
    simp only [replacement, parent]
    refine replace_eq_setSlot ?_ ?_ ((ctx.of_frame frame).once aCtx)
    · rw [setParentOf_parent_of_ne fun leads => aFar (farMem a leads), parent]
    · rw [slot_setParentOf, top]
  rw [unlinked]
  refine ⟨holds_plug.mpr ⟨ctx.of_frame (frame.setSlot ctxNodup), ?_⟩, ?_⟩
  · rw [setSlot_slot]
    refine farHolds.reparent farNodup ?_ ?_ ?_
    · intro b member side
      rw [setSlot_child_of_notMem fun inCtx => apart b member b inCtx rfl, setParentOf_child]
    · intro b member notTop
      rw [setSlot_parent, setParentOf_parent_of_ne notTop]
    · intro b leads
      rw [setSlot_parent, setParentOf_parent_self leads]
  · refine (inorder_plug_perm fs far).nodup_iff.mpr ?_
    exact nodup_append.mpr ⟨farNodup, ctxNodup, apart⟩

end Updates

/-! ### Walks -/

section Walks

/-- Walk down from a pointer, by the side `goLeft` picks at each node, and return
the link where the walk ends. -/
def walk (L : Links α) (goLeft : α → Bool) :
    Nat → Option α → Option (Side × α) → Option (Option (Side × α))
  | 0, _, _ => none
  | _ + 1, none, at_ => some at_
  | fuel + 1, some b, _ =>
    if goLeft b then walk L goLeft fuel (L.child .left b) (some (.left, b))
    else walk L goLeft fuel (L.child .right b) (some (.right, b))

/-- Once a node picks left, so do the nodes after it. -/
def MonotonePicks (goLeft : α → Bool) (as : List α) : Prop :=
  as.Pairwise fun a b => goLeft a → goLeft b

variable {fuel : Nat}

/-- A walk ends at the end of a context around the empty tree. Where the picks
are monotone, the context has the nodes that pick right before it and those that
pick left after it. -/
theorem Holds.walk (goLeft : α → Bool) (holds : L.Holds (L.slot fs) (above fs) t)
    (enough : (inorder t).length < fuel) :
    ∃ fs', L.walk goLeft fuel (L.slot fs) (place fs) = some (place fs') ∧
      plug fs' .nil = plug fs t ∧
      (MonotonePicks goLeft (inorder t) →
        ∃ bs cs, ctxBefore fs' = ctxBefore fs ++ bs ∧ ctxAfter fs' = cs ++ ctxAfter fs ∧
          (∀ b ∈ bs, goLeft b = false) ∧ ∀ c ∈ cs, goLeft c) := by
  induction t generalizing fs fuel with
  | nil =>
    obtain ⟨fuel, rfl⟩ := Nat.exists_eq_succ_of_ne_zero (Nat.ne_zero_of_lt enough)
    refine ⟨fs, by rw [holds]; rfl, rfl, fun _ => ⟨[], [], ?_⟩⟩
    simp
  | node b l r leftIH rightIH =>
    obtain ⟨fuel, rfl⟩ := Nat.exists_eq_succ_of_ne_zero (Nat.ne_zero_of_lt enough)
    obtain ⟨top, -, left, right⟩ := holds
    simp only [inorder_node, length_append, length_cons] at enough
    cases pick : goLeft b with
    | true =>
      have deeper : L.Holds (L.slot (⟨.left, b, r⟩ :: fs)) (above (⟨.left, b, r⟩ :: fs)) l := left
      have shorter : (inorder l).length < fuel := by omega
      obtain ⟨fs', walked, plugged, split⟩ := leftIH deeper shorter
      refine ⟨fs', ?_, plugged, fun monotone => ?_⟩
      · rw [top, Links.walk, if_pos pick]
        exact walked
      · obtain ⟨monoL, monoR, -⟩ := pairwise_append.mp monotone
        obtain ⟨bs, cs, before, after, rights, lefts⟩ := split monoL
        refine ⟨bs, cs ++ b :: inorder r, ?_, ?_, rights, fun c member => ?_⟩
        · simpa [ctxBefore] using before
        · simpa [ctxAfter] using after
        · rcases mem_append.mp member with early | late
          · exact lefts c early
          · rcases mem_cons.mp late with rfl | later
            · exact pick
            · exact (pairwise_cons.mp monoR).1 c later pick
    | false =>
      have deeper : L.Holds (L.slot (⟨.right, b, l⟩ :: fs)) (above (⟨.right, b, l⟩ :: fs)) r :=
        right
      have shorter : (inorder r).length < fuel := by omega
      obtain ⟨fs', walked, plugged, split⟩ := rightIH deeper shorter
      refine ⟨fs', ?_, plugged, fun monotone => ?_⟩
      · rw [top, Links.walk, if_neg (by rw [pick]; exact Bool.false_ne_true)]
        exact walked
      · obtain ⟨-, monoR, cross⟩ := pairwise_append.mp monotone
        obtain ⟨bs, cs, before, after, rights, lefts⟩ := split (pairwise_cons.mp monoR).2
        refine ⟨inorder l ++ b :: bs, cs, ?_, ?_, fun c member => ?_, lefts⟩
        · simpa [ctxBefore] using before
        · simpa [ctxAfter] using after
        · rcases mem_append.mp member with early | late
          · refine Bool.eq_false_iff.mpr fun left => ?_
            rw [cross c early b mem_cons_self left] at pick
            exact Bool.noConfusion pick
          · rcases mem_cons.mp late with rfl | later
            · exact pick
            · exact rights c later

/-- A walk from the root ends at the link where a new node can become a leaf. -/
theorem Represents.walk [DecidableEq α] (rep : L.Represents t) (goLeft : α → Bool)
    (enough : (inorder t).length < fuel) :
    ∃ fs, L.walk goLeft fuel L.root none = some (place fs) ∧ plug fs .nil = t ∧ fs.length < fuel ∧
      (∀ a ∉ inorder t, a ∉ ctxNodes fs ∧
        (L.attach (place fs) a).Represents (plug fs (branch .left a .nil .nil))) ∧
      (MonotonePicks goLeft (inorder t) →
        (∀ b ∈ ctxBefore fs, goLeft b = false) ∧ ∀ c ∈ ctxAfter fs, goLeft c) := by
  have rooted : L.Holds (L.slot []) (above []) t := rep.holds
  obtain ⟨fs, walked, whole, split⟩ := rooted.walk goLeft enough
  subst whole
  refine ⟨fs, walked, rfl, ?_, fun a fresh => ?_, fun monotone => ?_⟩
  · rw [(inorder_plug_perm fs .nil).length_eq] at enough
    exact Nat.lt_of_le_of_lt (length_le_ctxNodes fs) enough
  · have outside : a ∉ ctxNodes fs := fun inCtx => fresh (mem_inorder_plug.mpr (.inr inCtx))
    exact ⟨outside, rep.attach outside⟩
  · obtain ⟨bs, cs, before, after, rights, lefts⟩ := split monotone
    simp only [ctxBefore, nil_append, ctxAfter, append_nil] at before after
    exact ⟨before ▸ rights, after ▸ lefts⟩

/-- Follow the left links from a node to the end. -/
def minimum (L : Links α) : Nat → α → Option α
  | 0, _ => none
  | fuel + 1, a =>
    match L.child .left a with
    | none => some a
    | some b => minimum L fuel b

/-- The left links end at a node without a left child. -/
theorem minimum_left {first : α} (found : L.minimum fuel a = some first) :
    L.child .left first = none := by
  induction fuel generalizing a with
  | zero => cases found
  | succ fuel ih =>
    cases link : L.child .left a with
    | none =>
      simp only [minimum, link, Option.some.injEq] at found
      rw [← found, link]
    | some b =>
      simp only [minimum, link] at found
      exact ih found

/-- The left links lead to the first node in order. -/
theorem Holds.minimum (holds : L.Holds (some a) q t) (enough : (inorder t).length < fuel) :
    ∃ first rest, inorder t = first :: rest ∧ L.minimum fuel a = some first := by
  induction t generalizing a q fuel with
  | nil => exact absurd holds (by simp)
  | node b l r leftIH _ =>
    obtain ⟨fuel, rfl⟩ := Nat.exists_eq_succ_of_ne_zero (Nat.ne_zero_of_lt enough)
    obtain ⟨same, -, left, -⟩ := holds
    cases same
    simp only [inorder_node, length_append, length_cons] at enough
    cases link : L.child .left b with
    | none =>
      rw [link] at left
      have empty : inorder l = [] := by rw [left.eq_nil, inorder_nil]
      exact ⟨b, inorder r, by simp [empty], by simp [Links.minimum, link]⟩
    | some c =>
      rw [link] at left
      have shorter : (inorder l).length < fuel := by omega
      obtain ⟨first, rest, order, found⟩ := leftIH left shorter
      exact ⟨first, rest ++ b :: inorder r, by simp [order], by simp [Links.minimum, link, found]⟩

/-- From a node with a left child, the left links end below another node. -/
theorem Holds.minimum_of_left {b c : α} {l r : BinaryTree α}
    (holds : L.Holds (some b) q (.node b l r)) (deeper : L.child .left b = some c)
    (enough : (inorder (.node b l r)).length < fuel) :
    ∃ first p, L.minimum fuel b = some first ∧ L.child .left p = some first ∧
      L.parent first = some p ∧ p ∈ inorder (.node b l r) ∧ first ∈ inorder l := by
  induction l generalizing b c q r fuel with
  | nil =>
    obtain ⟨-, -, left, -⟩ := holds
    rw [deeper] at left
    cases left
  | node d ll lr leftIH _ =>
    obtain ⟨fuel, rfl⟩ := Nat.exists_eq_succ_of_ne_zero (Nat.ne_zero_of_lt enough)
    obtain ⟨-, -, left, -⟩ := holds
    have isChild : L.child .left b = some d := left.1
    have up : L.parent d = some b := left.2.1
    have shorter : (inorder (.node d ll lr)).length < fuel := by
      simp only [inorder_node, length_append, length_cons] at enough ⊢
      omega
    rw [isChild] at left
    cases link : L.child .left d with
    | none =>
      obtain ⟨fuel, rfl⟩ := Nat.exists_eq_succ_of_ne_zero (Nat.ne_zero_of_lt shorter)
      exact ⟨d, b, by simp [Links.minimum, isChild, link], isChild, up, by simp, by simp⟩
    | some e =>
      obtain ⟨first, p, found, isLeft, isUp, inside, below⟩ := leftIH left link shorter
      refine ⟨first, p, by simp [Links.minimum, isChild, found], isLeft, isUp, ?_, ?_⟩
      · exact mem_append_left _ inside
      · exact mem_append_left _ below

/-- The nodes below a pointer from left to right, to the given depth. -/
def list (L : Links α) : Nat → Option α → List α
  | 0, _ => []
  | _ + 1, none => []
  | fuel + 1, some a => list L fuel (L.child .left a) ++ a :: list L fuel (L.child .right a)

theorem Holds.list (holds : L.Holds p q t) (enough : (inorder t).length < fuel) :
    L.list fuel p = inorder t := by
  induction t generalizing p q fuel with
  | nil =>
    obtain ⟨fuel, rfl⟩ := Nat.exists_eq_succ_of_ne_zero (Nat.ne_zero_of_lt enough)
    rw [holds, Links.list, inorder_nil]
  | node b l r leftIH rightIH =>
    obtain ⟨fuel, rfl⟩ := Nat.exists_eq_succ_of_ne_zero (Nat.ne_zero_of_lt enough)
    obtain ⟨rfl, -, left, right⟩ := holds
    simp only [inorder_node, length_append, length_cons] at enough
    have shorterL : (inorder l).length < fuel := by omega
    have shorterR : (inorder r).length < fuel := by omega
    rw [Links.list, leftIH left shorterL, rightIH right shorterR, inorder_node]

end Walks

/-! ### Reachability -/

/-- The nodes that can be reached from the root by child links. -/
inductive Reach (L : Links α) : α → Prop where
  | root {a : α} : L.root = some a → Reach L a
  | child {a b : α} {s : Side} : Reach L a → L.child s a = some b → Reach L b

theorem Holds.reach (holds : L.Holds p q t) (start : ∀ b, p = some b → L.Reach b) :
    ∀ b ∈ inorder t, L.Reach b := by
  induction t generalizing p q with
  | nil => exact fun b member => absurd member not_mem_nil
  | node c l r leftIH rightIH =>
    obtain ⟨top, -, left, right⟩ := holds
    have here := start c top
    intro b member
    rcases mem_append.mp member with inLeft | rest
    · exact leftIH left (fun d leads => .child here leads) b inLeft
    · rcases mem_cons.mp rest with rfl | inRight
      · exact here
      · exact rightIH right (fun d leads => .child here leads) b inRight

/-- The nodes that can be reached are the nodes of the tree. -/
theorem Represents.reach_iff (rep : L.Represents t) : L.Reach a ↔ a ∈ inorder t := by
  constructor
  · intro reach
    induction reach with
    | root leads =>
      have holds := rep.holds
      rw [leads] at holds
      exact holds.mem_of_eq_some
    | @child c b s _ leads member =>
      obtain ⟨fs, l, r, rfl⟩ := exists_plug_of_mem member
      obtain ⟨-, -, -, left, right⟩ := holds_plug.mp rep.holds
      refine mem_inorder_plug.mpr (.inl ?_)
      cases s with
      | left =>
        rw [leads] at left
        simp [left.mem_of_eq_some]
      | right =>
        rw [leads] at right
        simp [right.mem_of_eq_some]
  · exact rep.holds.reach (fun b leads => .root leads) a

/-- In a represented tree, a child's parent link leads back. -/
theorem Represents.parent_of_child {b : α} (rep : L.Represents t) (member : a ∈ inorder t)
    (leads : L.child s a = some b) : L.parent b = some a := by
  obtain ⟨fs, l, r, rfl⟩ := exists_plug_of_mem member
  obtain ⟨-, -, -, left, right⟩ := holds_plug.mp rep.holds
  have top : ∀ t : BinaryTree α, L.Holds (some b) (some a) t → L.parent b = some a := by
    intro t holds
    cases t with
    | nil => cases holds
    | node c l r =>
      cases holds.1
      exact holds.2.1
  cases s with
  | left => exact top l (leads ▸ left)
  | right => exact top r (leads ▸ right)

theorem mem_ctxNodes_of_above (isAbove : above fs = some a) : a ∈ ctxNodes fs := by
  cases fs with
  | nil => cases isAbove
  | cons f fs =>
    cases isAbove
    simp [ctxNodes]

end Links

end FunsOS.Foundation
