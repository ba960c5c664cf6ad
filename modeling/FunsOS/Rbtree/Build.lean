import FunsOS.Rbtree.Tree

/-!
# Trees built by insertion

A tree is a search tree when no key on the left of a node is larger and none on the
right is smaller (`SearchTree`); equal keys may lie on either side, since a rotation
moves them. That is the order of the keys from left to right (`searchTree_iff`),
which rotations keep.

`insertions_build_red_black` is the result about insertion: whatever nodes and keys
are inserted into an empty tree, in whatever order, the tree is a red-black search
tree of the inserted keys, and `rbtree_find` finds a key exactly if it was inserted.
-/

set_option autoImplicit false

namespace FunsOS.Rbtree

open Foundation List
open Function (update update_of_ne update_self)

universe u

variable {α : Type u}

/-! ## Search trees -/

/-- Keys on the left are not larger, keys on the right not smaller. -/
def SearchTree (key : α → UInt64) : BinaryTree α → Prop
  | .nil => True
  | .node a l r =>
    (∀ b ∈ inorder l, key b ≤ key a) ∧ (∀ b ∈ inorder r, key a ≤ key b) ∧
      SearchTree key l ∧ SearchTree key r

variable {key : UInt64} {t : BinaryTree α} {node : α} {entries : List (α × UInt64)}

/-- A search tree has its keys in order from left to right. -/
theorem searchTree_iff {key : α → UInt64} :
    SearchTree key t ↔ (inorder t).Pairwise fun a b => key a ≤ key b := by
  induction t with
  | nil => simp [SearchTree]
  | node a l r leftIH rightIH =>
    rw [SearchTree, leftIH, rightIH, inorder_node, pairwise_append, pairwise_cons]
    constructor
    · rintro ⟨smaller, larger, left, right⟩
      refine ⟨left, ⟨larger, right⟩, fun b inLeft c rest => ?_⟩
      rcases mem_cons.mp rest with rfl | inRight
      · exact smaller b inLeft
      · exact UInt64.le_trans (smaller b inLeft) (larger c inRight)
    · rintro ⟨left, ⟨larger, right⟩, across⟩
      exact ⟨fun b inLeft => across b inLeft a mem_cons_self, larger, left, right⟩

/-- What a lookup finds in a list of nodes: a node with the key, or that there is none. -/
def Finds (rb : Rb α) (key : UInt64) (nodes : List α) : Option α → Prop
  | some a => a ∈ nodes ∧ rb.key a = key
  | none => ∀ a ∈ nodes, rb.key a ≠ key

variable {rb : Rb α} {a : α}

theorem findFrom_spec {fuel : Nat} {p q : Option α} (holds : rb.links.Holds p q t)
    (sorted : SearchTree rb.key t) (enough : (inorder t).length < fuel) :
    ∃ found, findFrom rb key fuel p = some found ∧ Finds rb key (inorder t) found := by
  induction t generalizing p q fuel with
  | nil =>
    obtain ⟨fuel, rfl⟩ := Nat.exists_eq_succ_of_ne_zero (Nat.ne_zero_of_lt enough)
    exact ⟨none, by rw [holds]; rfl, fun a member => absurd member not_mem_nil⟩
  | node a l r leftIH rightIH =>
    obtain ⟨fuel, rfl⟩ := Nat.exists_eq_succ_of_ne_zero (Nat.ne_zero_of_lt enough)
    obtain ⟨rfl, -, left, right⟩ := holds
    obtain ⟨smaller, larger, sortedL, sortedR⟩ := sorted
    simp only [inorder_node, length_append, length_cons] at enough
    by_cases here : key = rb.key a
    · exact ⟨some a, by rw [findFrom, if_pos here], by simp, here.symm⟩
    by_cases less : key < rb.key a
    · -- the nodes from `a` on have larger keys
      obtain ⟨found, ran, finds⟩ := leftIH left sortedL (show (inorder l).length < fuel by omega)
      refine ⟨found, by rw [findFrom, if_neg here, if_pos less, ran], ?_⟩
      cases found with
      | some b => exact ⟨by simp [finds.1], finds.2⟩
      | none =>
        intro b member same
        rcases mem_append.mp member with inLeft | rest
        · exact finds b inLeft same
        · rcases mem_cons.mp rest with rfl | inRight
          · exact here same.symm
          · have above := larger b inRight
            rw [same] at above
            exact absurd less (UInt64.not_lt.mpr above)
    · -- the nodes up to `a` have smaller keys
      obtain ⟨found, ran, finds⟩ := rightIH right sortedR (show (inorder r).length < fuel by omega)
      refine ⟨found, by rw [findFrom, if_neg here, if_neg less, ran], ?_⟩
      cases found with
      | some b => exact ⟨by simp [finds.1], finds.2⟩
      | none =>
        intro b member same
        rcases mem_append.mp member with inLeft | rest
        · have under := smaller b inLeft
          rw [same] at under
          exact here (UInt64.le_antisymm under (UInt64.not_lt.mp less))
        · rcases mem_cons.mp rest with rfl | inRight
          · exact here same.symm
          · exact finds b inRight same

/-- The state holds the red-black search tree `t`. -/
structure RedBlackTree (rb : Rb α) (t : BinaryTree α) : Prop where
  /-- Child and parent links spell out the tree, without a cycle. -/
  tree : rb.links.Represents t
  sorted : SearchTree rb.key t
  rootBlack : ∀ root, rb.links.root = some root → rb.color root = .black
  noRedRed : NoRedRed rb.color t
  blackCounts : ∃ n, ∀ count ∈ blackCounts rb.color t, count = n

/-- What a run of insertions has built so far. -/
structure Built (rb : Rb α) (entries : List (α × UInt64)) (t : BinaryTree α) : Prop where
  tree : rb.links.Represents t
  sorted : SearchTree rb.key t
  balanced : ∃ m, Balanced rb.color t .black m
  content : ((inorder t).map fun a => (a, rb.key a)).Perm entries

theorem Built.redBlackTree (built : Built rb entries t) : RedBlackTree rb t := by
  obtain ⟨m, balanced⟩ := built.balanced
  refine ⟨built.tree, built.sorted, fun root top => ?_, balanced.noRedRed, m,
    balanced.blackCounts_eq⟩
  cases t with
  | nil =>
    have holds := built.tree.holds
    rw [top] at holds
    cases holds
  | node a l r =>
    cases top.symm.trans built.tree.holds.1
    exact balanced.root_color

theorem Built.mem_iff (built : Built rb entries t) : a ∈ inorder t ↔ a ∈ entries.map Prod.fst := by
  rw [← (built.content.map Prod.fst).mem_iff]
  simp

theorem rbtreeInit_built {nodes : Rb α} : Built (rbtreeInit nodes) [] .nil :=
  ⟨⟨rfl, nodup_nil⟩, trivial, ⟨0, .nil⟩, List.Perm.nil⟩

/-! ## Insertion keeps search trees -/

variable [DecidableEq α]

/-- The keys of the nodes of a tree do not change when the caller prepares another node. -/
theorem setKey_of_mem (fresh : node ∉ inorder t) (member : a ∈ inorder t) :
    (rb.setKey node key).key a = rb.key a := by
  refine update_of_ne ?_ _ _
  rintro rfl
  exact fresh member

variable [Fintype α]

/-- An insertion that returns leaves a search tree with the new node in the order. -/
theorem insert_searchTree {rb' : Rb α} (rep : rb.links.Represents t) (sorted : SearchTree rb.key t)
    (fresh : node ∉ inorder t) (returned : step rb (.insert node key) = some rb') :
    ∃ t' before after, rb'.links.Represents t' ∧ SearchTree rb'.key t' ∧
      inorder t = before ++ after ∧ inorder t' = before ++ node :: after ∧
      rb'.key = update rb.key node key := by
  have prepared : (rb.setKey node key).links.Represents t := rep
  obtain ⟨t', before, after, represents, old, new, keys, between⟩ :=
    rbtreeInsert_order prepared fresh returned
  refine ⟨t', before, after, represents, ?_, old, new, keys⟩
  have ordered : (inorder t).Pairwise fun a b =>
      (rb.setKey node key).key a ≤ (rb.setKey node key).key b := by
    refine (searchTree_iff.mp sorted).imp_of_mem fun {a b} inA inB le => ?_
    rw [setKey_of_mem fresh inA, setKey_of_mem fresh inB]
    exact le
  have here : (rb.setKey node key).key node = key := update_self _ _ _
  obtain ⟨smaller, larger⟩ := between ordered
  rw [old] at ordered
  obtain ⟨front, back, across⟩ := pairwise_append.mp ordered
  rw [searchTree_iff, new, keys, pairwise_append, pairwise_cons, here]
  refine ⟨front, ⟨fun b member => UInt64.le_of_lt (larger b member), back⟩,
    fun a inFront b rest => ?_⟩
  rcases mem_cons.mp rest with rfl | inBack
  · rw [here]
    exact smaller a inFront
  · exact across a inFront b inBack

/-! ## Runs of insertions -/

/-- One insertion of a new node. -/
theorem Built.insert (built : Built rb entries t) (fresh : node ∉ entries.map Prod.fst) :
    ∃ rb' t', step rb (.insert node key) = some rb' ∧ Built rb' ((node, key) :: entries) t' := by
  have outside : node ∉ inorder t := fun member => fresh (built.mem_iff.mp member)
  have prepared : (rb.setKey node key).links.Represents t := built.tree
  obtain ⟨m, balanced⟩ := built.balanced
  obtain ⟨rb', t', m', returned, represents, balanced'⟩ :=
    rbtreeInsert_balanced prepared outside balanced
  obtain ⟨same, before, after, isTree, sorted, old, new, keys⟩ :=
    insert_searchTree built.tree built.sorted outside returned
  cases represents.unique isTree
  refine ⟨rb', t', returned, represents, sorted, ⟨m', balanced'⟩, ?_⟩
  have others : ∀ as : List α, node ∉ as →
      (as.map fun a => (a, rb'.key a)) = as.map fun a => (a, rb.key a) := by
    intro as notIn
    refine map_congr_left fun a member => ?_
    rw [keys, update_of_ne]
    rintro rfl
    exact notIn member
  rw [old, mem_append, not_or] at outside
  have content := built.content
  rw [old, map_append] at content
  rw [new, map_append, map_cons, others before outside.1, others after outside.2, keys, update_self]
  exact perm_middle.trans (content.cons _)

/-- The calls that insert the given nodes with the given keys. -/
def insertions (entries : List (α × UInt64)) : List (Op α) :=
  entries.map fun entry => .insert entry.1 entry.2

/-- A run of insertions of new nodes. -/
theorem Built.run {before : List (α × UInt64)} (built : Built rb before t)
    (distinct : (before.map Prod.fst ++ entries.map Prod.fst).Nodup) :
    ∃ rb' t', runPartial step rb (insertions entries) = some rb' ∧
      Built rb' (entries.reverse ++ before) t' := by
  induction entries generalizing rb before t with
  | nil => exact ⟨rb, t, rfl, built⟩
  | cons entry entries ih =>
    have moved := perm_middle.nodup_iff.mp distinct
    have fresh : entry.1 ∉ before.map Prod.fst := fun member =>
      (nodup_cons.mp moved).1 (mem_append_left _ member)
    obtain ⟨next, t', stepped, built'⟩ := built.insert fresh
    obtain ⟨last, t'', ran, final⟩ := ih built' moved
    refine ⟨last, t'', ?_, by simpa using final⟩
    rw [insertions, map_cons, runPartial, stepped]
    exact ran

/-- **Red-black insertion.** Inserting different nodes with any keys into an empty tree
returns a red-black search tree whose keys, from left to right, are the inserted ones;
and `rbtree_find` returns a node with a key exactly if the key was inserted. -/
theorem insertions_build_red_black (nodes : Rb α) {entries : List (α × UInt64)}
    (distinct : (entries.map Prod.fst).Nodup) :
    ∃ rb t, runPartial step (rbtreeInit nodes) (insertions entries) = some rb ∧
      RedBlackTree rb t ∧ ((inorder t).map rb.key).Perm (entries.map Prod.snd) ∧
      ∀ key, ∃ found, rbtreeFind rb key = some found ∧
        (∀ node, found = some node → node ∈ inorder t ∧ rb.key node = key) ∧
        (found.isSome ↔ key ∈ entries.map Prod.snd) := by
  obtain ⟨rb, t, ran, built⟩ := rbtreeInit_built.run distinct
  rw [append_nil] at built
  have keys : ((inorder t).map rb.key).Perm (entries.map Prod.snd) := by
    have content := (built.content.trans entries.reverse_perm).map Prod.snd
    rw [map_map] at content
    exact content
  refine ⟨rb, t, ran, built.redBlackTree, keys, fun key => ?_⟩
  obtain ⟨found, looked, finds⟩ :=
    findFrom_spec built.tree.holds built.sorted (length_lt_walkLimit built.tree.nodup)
  refine ⟨found, looked, fun node isFound => ?_, ?_⟩
  · subst isFound
    exact finds
  · rw [← keys.mem_iff]
    cases found with
    | none =>
      refine ⟨fun found => absurd found (by simp), fun member => ?_⟩
      obtain ⟨a, inTree, same⟩ := mem_map.mp member
      exact absurd same (finds a inTree)
    | some a => exact ⟨fun _ => mem_map.mpr ⟨a, finds⟩, fun _ => rfl⟩

def freeNodes (n : Nat) : Rb (Fin n) :=
  ⟨⟨none, fun _ _ => none, fun _ => none⟩, fun _ => .red, fun _ => 0⟩

/-- Three nodes, two of them with the same key. -/
theorem insertions_with_equal_keys :
    ∃ rb t, runPartial step (rbtreeInit (freeNodes 3)) (insertions [(0, 7), (1, 7), (2, 3)]) =
        some rb ∧
      RedBlackTree rb t ∧ ((inorder t).map rb.key).Perm [7, 7, 3] ∧
      ∀ key, ∃ found, rbtreeFind rb key = some found ∧
        (∀ node, found = some node → node ∈ inorder t ∧ rb.key node = key) ∧
        (found.isSome ↔ key ∈ [7, 7, 3]) :=
  insertions_build_red_black (freeNodes 3) (by decide)

end FunsOS.Rbtree
