import FunsOS.Rbtree.Build

/-!
# Red-black erase

`rbtree_erase` takes a node with at most one child out by putting the child in its
place, and a node with two children by putting its successor there. When the
successor is the right child itself, that works. When it is further down, its
parent's left link still leads to it, so that it comes to lie below itself.

So an erase leaves a search tree with the node removed exactly if the node has no
left child, no right child, or a right child without a left child
(`erase_removes_iff`); a run that erases only such nodes keeps a search tree.
Insertion after an erase works on trees with any colours. It may then read the
parent of a red root, and such a run does not return.
-/

set_option autoImplicit false

namespace FunsOS.Rbtree

open Foundation Links List Option

universe u

variable {α : Type u} [DecidableEq α] {rb : Rb α} {x : Option α}

/-! ## At most one child -/

theorem eraseSingle_spec {node : α} :
    (eraseSingle rb node x).key = rb.key ∧ (eraseSingle rb node x).links =
      clearLinks ((rb.links.setParentOf x (rb.links.parent node)).replace .left node x) node := by
  simp only [eraseSingle]
  split
  · cases x <;> exact ⟨rfl, rfl⟩
  · exact ⟨rfl, rfl⟩

variable {fs : List (Frame α)} {node : α}

/-! ## Two children -/

/-- The links with the successor `y` in the place of the node, when `y` is its right child. -/
def succeeded (links : Links α) (fs : List (Frame α)) (l y : α) : Links α :=
  ((((links.setParentOf (links.child .right y) (some y)).setChild .left y (some l)).setParent l
    (some y)).setParent y (above fs)).setSlot fs (some y)

section Succeeded

variable {links : Links α} {l y b : α}

theorem succeeded_child_of_ne (other : b ≠ y) (outside : b ∉ ctxNodes fs) (side : Side) :
    (succeeded links fs l y).child side b = links.child side b := by
  rw [succeeded, setSlot_child_of_notMem outside, setParent_child, setParent_child,
    setChild_child_of_ne other, setParentOf_child]

theorem succeeded_left (outside : y ∉ ctxNodes fs) :
    (succeeded links fs l y).child .left y = some l := by
  rw [succeeded, setSlot_child_of_notMem outside, setParent_child, setParent_child,
    setChild_child_self]

theorem succeeded_right (outside : y ∉ ctxNodes fs) :
    (succeeded links fs l y).child .right y = links.child .right y := by
  rw [succeeded, setSlot_child_of_notMem outside, setParent_child, setParent_child,
    setChild_child_of_side (by decide), setParentOf_child]

theorem succeeded_parent_of_ne (other : b ≠ y) (notLeft : b ≠ l) :
    (succeeded links fs l y).parent b =
      (links.setParentOf (links.child .right y) (some y)).parent b := by
  rw [succeeded, setSlot_parent, setParent_parent_of_ne other, setParent_parent_of_ne notLeft,
    setChild_parent]

theorem succeeded_parent_left (apart : l ≠ y) : (succeeded links fs l y).parent l = some y := by
  rw [succeeded, setSlot_parent, setParent_parent_of_ne apart, setParent_parent_self]

theorem succeeded_parent_self : (succeeded links fs l y).parent y = above fs := by
  rw [succeeded, setSlot_parent, setParent_parent_self]

end Succeeded

variable {l r : BinaryTree α} {top y : α}

/-- A right child without a left child takes the place of the node. -/
theorem eraseDouble_spec (rep : rb.links.Represents (plug fs (.node node l (.node y .nil r))))
    (left : rb.links.child .left node = some top) :
    (eraseDouble rb node top y y).links.Represents (plug fs (.node y l r)) := by
  have nodup := (inorder_plug_perm fs _).nodup_iff.mp rep.nodup
  simp only [inorder_node, inorder_nil, nil_append, nodup_append, nodup_cons,
    mem_append, mem_cons] at nodup
  obtain ⟨ctx, slotNode, parentNode, leftHolds, rightHolds⟩ := holds_plug.mp rep.holds
  obtain ⟨isRight, parentY, -, belowY⟩ := rightHolds
  rw [left] at leftHolds
  have topMem : top ∈ inorder l := leftHolds.mem_of_eq_some
  have xMem : ∀ b, rb.links.child .right y = some b → b ∈ inorder r := by
    rintro b leads
    rw [leads] at belowY
    exact belowY.mem_of_eq_some
  have yTop : y ≠ top := by grind
  have nodeTop : node ≠ top := by grind
  have nodeY : node ≠ y := by grind
  have nodeCtx : node ∉ ctxNodes fs := by grind
  have yCtx : y ∉ ctxNodes fs := by grind
  have topCtx : top ∉ ctxNodes fs := by grind
  have xCtx : ∀ b, rb.links.child .right y = some b → b ∉ ctxNodes fs := by grind
  have xNode : rb.links.child .right y ≠ some node := fun leads => by grind
  have ctxNodup : (ctxNodes fs).Nodup := by grind
  -- the source's stores up to the link from above
  have frame : CtxFrame rb.links ((((rb.links.setParentOf (rb.links.child .right y)
      (some y)).setChild .left y (some top)).setParent top (some y)).setParent y (above fs)) fs :=
    (((CtxFrame.refl.setParentOf xCtx).setChild yCtx).setParent topCtx).setParent yCtx
  have stored : (eraseDouble rb node top y y).links =
      clearLinks (succeeded rb.links fs top y) node := by
    have kept : (((rb.links.setParentOf (rb.links.child .right y) (some y)).setChild .left y
        (some top)).setParent top (some y)).parent node = above fs := by
      rw [setParent_parent_of_ne nodeTop, setChild_parent, setParentOf_parent_of_ne xNode,
        parentNode]
    have replaced : ((((rb.links.setParentOf (rb.links.child .right y) (some y)).setChild .left y
        (some top)).setParent top (some y)).setParent y (above fs)).replace .left node (some y) =
        succeeded rb.links fs top y := by
      refine replace_eq_setSlot ?_ ?_ ((ctx.of_frame frame).once nodeCtx)
      · rw [setParent_parent_of_ne nodeY, kept]
      · rw [slot_setParent, slot_setParent, slot_setChild yCtx, slot_setParentOf, slotNode]
    simp only [eraseDouble, parentY, if_true, kept, replaced]
  have placed : (succeeded rb.links fs top y).Represents (plug fs (.node y l r)) := by
    refine ⟨holds_plug.mpr ⟨ctx.of_frame (frame.setSlot ctxNodup), ?_, ?_, ?_, ?_⟩, ?_⟩
    · exact setSlot_slot
    · exact succeeded_parent_self
    · rw [succeeded_left yCtx]
      refine leftHolds.reparent (by grind) ?_ ?_ ?_
      · exact fun b member => succeeded_child_of_ne (by grind) (by grind)
      · intro b member notTop
        have offX : rb.links.child .right y ≠ some b := fun leads => by grind
        rw [succeeded_parent_of_ne (by grind) (by grind), setParentOf_parent_of_ne offX]
      · rintro b ⟨⟩
        exact succeeded_parent_left (Ne.symm yTop)
    · rw [succeeded_right yCtx]
      refine belowY.reparent (by grind) ?_ ?_ ?_
      · exact fun b member => succeeded_child_of_ne (by grind) (by grind)
      · intro b member notX
        rw [succeeded_parent_of_ne (by grind) (by grind), setParentOf_parent_of_ne notX]
      · intro b leads
        rw [succeeded_parent_of_ne (by grind) (by grind), setParentOf_parent_self leads]
    · refine (inorder_plug_perm fs _).nodup_iff.mpr ?_
      simp only [inorder_node, nodup_append, nodup_cons, mem_append, mem_cons]
      grind
  rw [stored]
  refine placed.cleared fun member => ?_
  rw [mem_inorder_plug, inorder_node, mem_append] at member
  grind

/-- With the successor `y` further down, below `p`: the left link of `p` still leads to
`y`, whose parent is now the node's parent. -/
theorem eraseDouble_leaves_link {sub p : α} (rep : rb.links.Represents (plug fs (.node node l r)))
    (left : rb.links.child .left node = some top) (right : rb.links.child .right node = some sub)
    (isLeft : rb.links.child .left p = some y) (isUp : rb.links.parent y = some p) (apart : p ≠ y)
    (inP : p ∈ inorder r) (inY : y ∈ inorder r) :
    (eraseDouble rb node top sub y).links.child .left p = some y ∧
      (eraseDouble rb node top sub y).links.parent y = above fs := by
  have nodup := (inorder_plug_perm fs _).nodup_iff.mp rep.nodup
  simp only [inorder_node, nodup_append, nodup_cons, mem_append, mem_cons] at nodup
  obtain ⟨-, -, parentNode, leftHolds, rightHolds⟩ := holds_plug.mp rep.holds
  rw [left] at leftHolds
  rw [right] at rightHolds
  have topMem : top ∈ inorder l := leftHolds.mem_of_eq_some
  have subMem : sub ∈ inorder r := rightHolds.mem_of_eq_some
  have pNode : p ≠ node := by grind
  have yNode : y ≠ node := by grind
  have xNode : rb.links.child .right y ≠ some node := by
    intro leads
    have inTree : y ∈ inorder (plug fs (.node node l r)) :=
      mem_inorder_plug.mpr (.inl (by simp [inY]))
    have inCtx := mem_ctxNodes_of_above (parentNode.symm.trans (rep.parent_of_child inTree leads))
    grind
  have notAbove : above fs ≠ some p := fun isAbove => by
    have inCtx := mem_ctxNodes_of_above isAbove
    grind
  have notRight : ¬ rb.links.parent y = some node := by
    rw [isUp]
    exact fun same => pNode (some.inj same)
  -- the stores before the link from above
  have kept : (((((rb.links.setParentOf (rb.links.child .right y) (rb.links.parent y)).setChild
      .right y (some sub)).setParent sub (some y)).setChild .left y (some top)).setParent top
        (some y)).parent node = above fs := by
    rw [setParent_parent_of_ne (by grind), setChild_parent, setParent_parent_of_ne (by grind),
      setChild_parent, setParentOf_parent_of_ne xNode, parentNode]
  constructor
  · simp only [eraseDouble, if_neg notRight, clearLinks, clearChildren, kept]
    rw [setParent_child, setChild_child_of_ne pNode, setChild_child_of_ne pNode,
      replace_child_of_ne, setParent_child, setParent_child, setChild_child_of_ne apart,
      setParent_child, setChild_child_of_ne apart, setParentOf_child, isLeft]
    rw [setParent_parent_of_ne (Ne.symm yNode), kept]
    exact notAbove
  · simp only [eraseDouble, if_neg notRight, clearLinks, clearChildren, kept]
    rw [setParent_parent_of_ne yNode, setChild_parent, setChild_parent, replace_parent,
      setParent_parent_self]

/-! ## When an erase removes exactly the node -/

/-- After `rbtree_erase`, the links spell out a search tree whose order is that of `t`
without the node. -/
def Removes [Fintype α] (rb : Rb α) (t : BinaryTree α) (node : α) : Prop :=
  ∃ rb' t', rbtreeErase rb node = some rb' ∧ rb'.links.Represents t' ∧ SearchTree rb'.key t' ∧
    inorder t' = (inorder t).erase node

/-- The node has two children, and its successor is not the right one of them. -/
def InnerSuccessor (rb : Rb α) (node : α) : Prop :=
  (rb.links.child .left node).isSome ∧
    ((rb.links.child .right node).bind (rb.links.child .left)).isSome
deriving Decidable

section

variable [Fintype α] {t : BinaryTree α} {rb' : Rb α}

theorem removes_of_represents {t' : BinaryTree α} {before after : List α}
    (rep : rb.links.Represents t) (sorted : SearchTree rb.key t)
    (erased : rbtreeErase rb node = some rb') (represents : rb'.links.Represents t')
    (keys : rb'.key = rb.key) (old : inorder t = before ++ node :: after)
    (new : inorder t' = before ++ after) : Removes rb t node := by
  have gone : (inorder t).erase node = before ++ after := by
    have nodup := rep.nodup
    rw [old] at nodup ⊢
    have outside : node ∉ before := fun member =>
      (nodup_append.mp nodup).2.2 node member node mem_cons_self rfl
    rw [erase_append_right _ outside, erase_cons_head]
  refine ⟨rb', t', erased, represents, ?_, new.trans gone.symm⟩
  rw [searchTree_iff] at sorted ⊢
  rw [new, ← gone, keys]
  exact sorted.sublist erase_sublist

theorem Removes.of_single {s : Side} {far : BinaryTree α}
    (rep : rb.links.Represents (plug fs (branch s node .nil far)))
    (sorted : SearchTree rb.key (plug fs (branch s node .nil far)))
    (isChild : x = (rb.links.child .left node).or (rb.links.child .right node))
    (erased : rbtreeErase rb node = some (eraseSingle rb node x)) :
    Removes rb (plug fs (branch s node .nil far)) node := by
  obtain ⟨before, after, whole, rest, outside⟩ := rep.single_split
  have represents : (eraseSingle rb node x).links.Represents (plug fs far) := by
    rw [eraseSingle_spec.2, isChild]
    exact rep.unlink.cleared (rest ▸ outside)
  exact removes_of_represents rep sorted erased represents eraseSingle_spec.1 whole rest

/-- Without an inner successor, erase removes exactly the node. -/
theorem removes_of_not_inner (rep : rb.links.Represents t) (sorted : SearchTree rb.key t)
    (member : node ∈ inorder t) (outer : ¬ InnerSuccessor rb node) : Removes rb t node := by
  obtain ⟨fs, l, r, rfl⟩ := exists_plug_of_mem member
  obtain ⟨-, -, -, leftHolds, rightHolds⟩ := holds_plug.mp rep.holds
  cases left : rb.links.child .left node with
  | none =>
    rw [left] at leftHolds
    cases leftHolds.eq_nil
    have shape : plug fs (.node node .nil r) = plug fs (branch .left node .nil r) := rfl
    rw [shape] at rep sorted ⊢
    exact .of_single (x := rb.links.child .right node) rep sorted (by simp [left])
      (by simp [rbtreeErase, left])
  | some top =>
    cases right : rb.links.child .right node with
    | none =>
      rw [right] at rightHolds
      cases rightHolds.eq_nil
      have shape : plug fs (.node node l .nil) = plug fs (branch .right node .nil l) := rfl
      rw [shape] at rep sorted ⊢
      exact .of_single (x := some top) rep sorted (by simp [left])
        (by simp [rbtreeErase, left, right])
    | some y =>
      have bare : rb.links.child .left y = none := by
        simpa [InnerSuccessor, left, right] using outer
      rw [right] at rightHolds
      cases r with
      | nil => cases rightHolds
      | node b rl rr =>
        obtain ⟨same, -, below, -⟩ := rightHolds
        cases same
        rw [bare] at below
        cases below.eq_nil
        have erased : rbtreeErase rb node = some (eraseDouble rb node top y y) := by
          simp [rbtreeErase, left, right, walkLimit, Links.minimum, bare]
        have old : inorder (plug fs (.node node l (.node y .nil rr))) =
            (ctxBefore fs ++ inorder l) ++ node :: y :: (inorder rr ++ ctxAfter fs) := by
          rw [inorder_plug]
          simp
        have new : inorder (plug fs (.node y l rr)) =
            (ctxBefore fs ++ inorder l) ++ y :: (inorder rr ++ ctxAfter fs) := by
          rw [inorder_plug]
          simp
        exact removes_of_represents rep sorted erased (eraseDouble_spec rep left) rfl old new

/-- With an inner successor, what erase leaves is no tree of the other nodes. -/
theorem not_removes_of_inner (rep : rb.links.Represents t) (member : node ∈ inorder t)
    (inner : InnerSuccessor rb node) : ¬ Removes rb t node := by
  rintro ⟨rb', t', erased, represents, -, order⟩
  obtain ⟨hasLeft, hasInner⟩ := inner
  obtain ⟨top, left⟩ := isSome_iff_exists.mp hasLeft
  obtain ⟨c, hasC⟩ := isSome_iff_exists.mp hasInner
  obtain ⟨sub, right, deeper⟩ := bind_eq_some_iff.mp hasC
  obtain ⟨fs, l, r, rfl⟩ := exists_plug_of_mem member
  obtain ⟨-, -, -, -, rightHolds⟩ := holds_plug.mp rep.holds
  have nodup := (inorder_plug_perm fs _).nodup_iff.mp rep.nodup
  rw [right] at rightHolds
  cases r with
  | nil => cases rightHolds
  | node b rl rr =>
    cases rightHolds.1
    have short : (inorder (.node sub rl rr)).length < walkLimit α := by
      have all := length_lt_walkLimit rep.nodup
      rw [(inorder_plug_perm _ _).length_eq] at all
      simp only [inorder_node, length_append, length_cons] at all ⊢
      omega
    obtain ⟨y, p, found, isLeft, isUp, inP, inY⟩ := rightHolds.minimum_of_left deeper short
    have apart : p ≠ y := by
      rintro rfl
      rw [minimum_left found] at isLeft
      cases isLeft
    have inY' : y ∈ inorder (.node sub rl rr) := mem_append_left _ inY
    obtain ⟨stays, moved⟩ := eraseDouble_leaves_link rep left right isLeft isUp apart inP inY'
    have result : rbtreeErase rb node = some (eraseDouble rb node top sub y) := by
      simp [rbtreeErase, left, right, found]
    cases result.symm.trans erased
    simp only [inorder_node, nodup_append, nodup_cons, mem_append, mem_cons] at nodup
    have pNode : p ≠ node := by
      rw [inorder_node, mem_append] at inP
      grind
    have inTree : p ∈ inorder t' := by
      rw [order, mem_erase_of_ne pNode]
      exact mem_inorder_plug.mpr (.inl (mem_append_right _ (mem_cons_of_mem _ inP)))
    -- a tree would have `p` above `y`, but the node's parent is there
    have back := represents.parent_of_child inTree stays
    rw [moved] at back
    have inCtx := mem_ctxNodes_of_above back
    rw [inorder_node, mem_append] at inP
    grind

/-! ## Runs -/

/-- The nodes of the tree, from left to right. -/
def nodesOf (rb : Rb α) : List α := rb.links.list (walkLimit α) rb.links.root

omit [DecidableEq α] in
theorem nodesOf_eq (rep : rb.links.Represents t) : nodesOf rb = inorder t :=
  rep.holds.list (length_lt_walkLimit rep.nodup)

/-- Only nodes outside the tree are inserted, and only nodes in it without an inner
successor are erased. -/
def Proper (rb : Rb α) : Op α → Prop
  | .insert node _ => node ∉ nodesOf rb
  | .erase node => node ∈ nodesOf rb ∧ ¬ InnerSuccessor rb node

instance (rb : Rb α) : (op : Op α) → Decidable (Proper rb op)
  | .insert node _ => inferInstanceAs (Decidable (node ∉ nodesOf rb))
  | .erase node => inferInstanceAs (Decidable (node ∈ nodesOf rb ∧ _))

theorem searchTree_step {op : Op α} (isTree : ∃ t, rb.links.Represents t ∧ SearchTree rb.key t)
    (proper : Proper rb op) (returned : step rb op = some rb') :
    ∃ t, rb'.links.Represents t ∧ SearchTree rb'.key t := by
  obtain ⟨t, rep, sorted⟩ := isTree
  cases op with
  | insert node key =>
    have fresh : node ∉ inorder t := nodesOf_eq rep ▸ proper
    obtain ⟨t', -, -, represents, sorted', -⟩ := insert_searchTree rep sorted fresh returned
    exact ⟨t', represents, sorted'⟩
  | erase node =>
    have member : node ∈ inorder t := nodesOf_eq rep ▸ proper.1
    obtain ⟨last, t', erased, represents, sorted', -⟩ :=
      removes_of_not_inner rep sorted member proper.2
    cases erased.symm.trans returned
    exact ⟨t', represents, sorted'⟩

/-- **Red-black erase.** In every search tree, `rbtree_erase` of a node leaves a search
tree with exactly that node removed if and only if the node has not two children of
which the right one has a left child. And every tree built by insertions of nodes
outside it and erases of such nodes in it is a search tree. -/
theorem erase_removes_iff :
    (∀ (rb : Rb α) (t : BinaryTree α), rb.links.Represents t → SearchTree rb.key t →
      ∀ node ∈ inorder t, (Removes rb t node ↔ ¬ InnerSuccessor rb node)) ∧
    ∀ (nodes rb : Rb α) (ops : List (Op α)), MeetsPartial step Proper (rbtreeInit nodes) ops →
      runPartial step (rbtreeInit nodes) ops = some rb →
      ∃ t, rb.links.Represents t ∧ SearchTree rb.key t := by
  constructor
  · intro rb t rep sorted node member
    constructor
    · exact fun removes inner => not_removes_of_inner rep member inner removes
    · exact removes_of_not_inner rep sorted member
  · intro nodes rb ops proper ran
    refine MeetsPartial.invariant_of_some (P := fun rb => ∃ t, rb.links.Represents t ∧
      SearchTree rb.key t) (fun s op next isTree proper returned =>
        searchTree_step isTree proper returned) ?_ proper ran
    exact ⟨.nil, rbtreeInit_built.tree, trivial⟩

end

/-! ## Four nodes -/

/-- Four nodes: the root 0 with key 10, below it 1 with key 5 and 2 with key 20, and 3
with key 15 on the left of 2. -/
def fourNodes : List (Fin 4 × UInt64) := [(0, 10), (1, 5), (2, 20), (3, 15)]

/-- **Erasing a node with an inner successor makes a cycle.** The root's successor 3
becomes the root with 2 on its right, and 2 still has 3 on its left. -/
theorem erase_root_makes_cycle :
    ∃ rb, runPartial step (rbtreeInit (freeNodes 4)) (insertions fourNodes ++ [.erase 0]) =
        some rb ∧
      rb.links.root = some 3 ∧ rb.links.child .right 3 = some 2 ∧
      rb.links.child .left 2 = some 3 ∧ ¬ ∃ t, rb.links.Represents t := by
  refine Returns.of_map (f := fun rb => (rb.links.root, rb.links.child .right 3,
    rb.links.child .left 2, rb.links.parent 3)) (v := (some 3, some 2, some 3, none))
    (by decide +kernel) fun rb links => ?_
  simp only [Prod.mk.injEq] at links
  obtain ⟨root, right, left, parent⟩ := links
  refine ⟨root, right, left, ?_⟩
  rintro ⟨t, rep⟩
  have below : rb.links.Reach 2 := .child (.root root) right
  rw [rep.parent_of_child (rep.reach_iff.mp below) left] at parent
  cases parent

/-- After erasing the right child 2, whose right subtree is empty, the root 0 has no
inner successor, and erasing it removes exactly it. -/
theorem erase_root_after_right_child :
    ∃ rb t, runPartial step (rbtreeInit (freeNodes 4)) (insertions fourNodes ++ [.erase 2]) =
        some rb ∧
      rb.links.Represents t ∧ (0 : Fin 4) ∈ inorder t ∧ Removes rb t 0 := by
  have facts : (runPartial step (rbtreeInit (freeNodes 4)) (insertions fourNodes ++ [.erase 2])).map
      (fun rb => (decide ((0 : Fin 4) ∈ nodesOf rb), decide (InnerSuccessor rb 0))) =
        some (true, false) := by decide +kernel
  obtain ⟨rb, ran, facts⟩ := map_eq_some_iff.mp facts
  simp only [Prod.mk.injEq, decide_eq_true_eq, decide_eq_false_iff_not] at facts
  obtain ⟨t, rep, sorted⟩ := erase_removes_iff.2 (freeNodes 4) rb
    (insertions fourNodes ++ [.erase 2]) (by decide +kernel) ran
  have member : (0 : Fin 4) ∈ inorder t := nodesOf_eq rep ▸ facts.1
  exact ⟨rb, t, ran, rep, member, (erase_removes_iff.1 rb t rep sorted 0 member).mpr facts.2⟩

end FunsOS.Rbtree
