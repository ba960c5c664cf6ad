import Mathlib.Data.List.Count
import FunsOS.Ramfs.Atomic

/-!
# The node tree and the dentry tree

After mounting, the ramfs has a node and a dentry. `InStep` says that the nodes form a tree
with distinct sibling names and right link counts, and that the dentries form the same tree:
each dentry stands for one node, has its name, and its children stand for the children of that
node, in the same order.

An operation adds a leaf to both trees (`InStep.added`), takes one out of both
(`InStep.removed`), or does one after the other. A rename is such a removal and addition only
for a leaf: the new dentry of a directory starts without children. It adjusts no link count, so
that a directory may be renamed in place only. A name is compared in full and stored cut off at
`RAMFS_MAX_NAME` characters; `ramfs_create_op` makes a directory without counting its link if
the caller's mode has the directory bit. `Careful` excludes these cases, and every run of
careful successful calls keeps the two trees in step (`trees_stay_in_step`).
-/

set_option autoImplicit false

namespace FunsOS.Ramfs

open Foundation List Option
open Function (update update_of_ne update_self)

universe u v

variable {α : Type u} {xs : List α} {β : Type v} {image : α → Option β} {ys : List β} {c : β}

/-- In two lists of which the second is the image of the first, with the same names, a search
for a name finds corresponding elements. -/
theorem find?_paired {nameA : α → Name} {nameB : β → Name} {name : Name}
    (paired : xs.map image = ys.map some)
    (named : ∀ x ∈ xs, ∀ y, image x = some y → nameA x = nameB y)
    (found : ys.find? (fun y => nameB y == name) = some c) :
    ∃ x, xs.find? (fun x => nameA x == name) = some x ∧ image x = some c := by
  induction xs generalizing ys with
  | nil =>
    cases ys with
    | nil => simp at found
    | cons y ys => simp at paired
  | cons x xs ih =>
    cases ys with
    | nil => simp at paired
    | cons y ys =>
      obtain ⟨first, rest⟩ := List.cons.inj paired
      have same := named x mem_cons_self y first
      by_cases here : nameB y = name
      · rw [List.find?_cons_of_pos (by simpa using here)] at found
        refine ⟨x, List.find?_cons_of_pos (by simpa [same] using here), ?_⟩
        rw [first, some.inj found]
      · rw [List.find?_cons_of_neg (by simpa using here)] at found
        rw [List.find?_cons_of_neg (by simpa [same] using here)]
        exact ih rest (forall_mem_cons.mp named).2 found

/-- Taking out corresponding elements leaves corresponding lists. -/
theorem map_erase_paired [DecidableEq α] [DecidableEq β] {x : α}
    (paired : xs.map image = ys.map some) (of_x : image x = some c)
    (only : ∀ y ∈ xs, image y = some c → y = x) :
    (xs.erase x).map image = (ys.erase c).map some := by
  induction xs generalizing ys with
  | nil =>
    cases ys with
    | nil => rfl
    | cons y ys => simp at paired
  | cons z xs ih =>
    cases ys with
    | nil => simp at paired
    | cons y ys =>
      obtain ⟨first, rest⟩ := List.cons.inj paired
      by_cases here : z = x
      · subst here
        have same : y = c := some.inj (first.symm.trans of_x)
        subst same
        simpa using rest
      · have other : y ≠ c := by
          rintro rfl
          exact here (only z mem_cons_self first)
        rw [erase_cons_tail (by simpa using here),
          erase_cons_tail (by simpa using other), map_cons, map_cons, first,
          ih rest (forall_mem_cons.mp only).2]

namespace Fs

variable {N : Type u} {D : Type v} [DecidableEq N] [DecidableEq D] {q : N}

/-- The nodes form a tree with distinct sibling names and right link counts. -/
structure NodeTree (s : Fs N D) (root : N) : Prop where
  tree : s.nodes.IsTree root
  distinct : ∀ p, s.nodes.used p → ((s.nodes.children p).map fun c => (s.node c).name).Nodup
  nlinks : ∀ p, s.nodes.used p → (s.node p).isDir →
    (s.node p).nlinks = 2 + (s.nodes.children p).countP fun c => (s.node c).isDir
  files : ∀ p, s.nodes.used p → (s.node p).isDir = false → s.nodes.children p = []

/-- The dentries form a tree, and what they point at is an isomorphism to the nodes. -/
structure Mirrors (s : Fs N D) (root : N) (rootDentry : D) : Prop where
  tree : s.dentries.IsTree rootDentry
  root_node : s.nodeOf rootDentry = some root
  has_node : ∀ x, s.dentries.used x → ∃ n, s.nodeOf x = some n ∧ s.nodes.used n
  children : ∀ x n, s.dentries.used x → s.nodeOf x = some n →
    (s.dentries.children x).map s.nodeOf = (s.nodes.children n).map some
  name : ∀ x n, s.dentries.used x → x ≠ rootDentry → s.nodeOf x = some n →
    (s.dentry x).name = (s.node n).name
  injective : ∀ x y, s.dentries.used x → s.dentries.used y → s.nodeOf x = s.nodeOf y → x = y
  surjective : ∀ n, s.nodes.used n → ∃ x, s.dentries.used x ∧ s.nodeOf x = some n

/-- The node tree is well formed and the dentry tree is the same tree. -/
structure InStep (s : Fs N D) (root : N) (rootDentry : D) : Prop where
  nodes : s.NodeTree root
  dentries : s.Mirrors root rootDentry

omit [DecidableEq N] [DecidableEq D] in
theorem Mirrors.used_node {s : Fs N D} {root : N} {rootDentry : D}
    (mirrors : s.Mirrors root rootDentry) {x : D} {n : N} (used_x : s.dentries.used x)
    (of_x : s.nodeOf x = some n) : s.nodes.used n := by
  obtain ⟨m, of_x', used_m⟩ := mirrors.has_node x used_x
  rwa [some.inj (of_x.symm.trans of_x')]

/-! ## Adding a leaf to both trees -/

/-- A dentry in use that stands for a directory. -/
structure Directory (s : Fs N D) (dir : D) (d : N) : Prop where
  used_dir : s.dentries.used dir
  of_dir : s.nodeOf dir = some d
  used_d : s.nodes.used d
  is_dir : (s.node d).isDir

/-- The second state has a new node under a directory and a new dentry for it. -/
structure Added (s : Fs N D) (dir : D) (d n : N) (x : D) (s' : Fs N D) : Prop extends
    Directory s dir d where
  free_n : s.nodes.used n = false
  free_x : s.dentries.used x = false
  nodes : s'.nodes = (s.nodes.claim n).link d n
  dentries : s'.dentries = (s.dentries.claim x).link dir x
  node : ∀ p ≠ n, p ≠ d → s'.node p = s.node p
  parent : s'.node d = { s.node d with
    nlinks := (s.node d).nlinks + if (s'.node n).isDir then 1 else 0 }
  new_nlinks : (s'.node n).isDir → (s'.node n).nlinks = 2
  dentry : ∀ y ≠ x, s'.dentry y = s.dentry y
  new_node : s'.nodeOf x = some n
  new_name : (s'.dentry x).name = (s'.node n).name

namespace Added

variable {s s' : Fs N D} {root d n p : N} {rootDentry dir x y : D}

section

variable (added : s.Added dir d n x s')
include added

theorem live_ne (used_p : s.nodes.used p) : p ≠ n := by
  rintro rfl
  simp [added.free_n] at used_p

theorem live_dentry_ne (used_y : s.dentries.used y) : y ≠ x := by
  rintro rfl
  simp [added.free_x] at used_y

theorem used_node : s'.nodes.used q ↔ q = n ∨ s.nodes.used q := by
  rw [added.nodes, Forest.used_addLeaf]

theorem used_dentry : s'.dentries.used y ↔ y = x ∨ s.dentries.used y := by
  rw [added.dentries, Forest.used_addLeaf]

theorem node_children : s'.nodes.children q =
      if q = n then [] else if q = d then n :: s.nodes.children d else s.nodes.children q := by
  rw [added.nodes, Forest.children_addLeaf s.nodes (added.live_ne added.used_d)]

theorem dentry_children : s'.dentries.children y =
      if y = x then [] else if y = dir then x :: s.dentries.children dir
        else s.dentries.children y := by
  rw [added.dentries, Forest.children_addLeaf s.dentries (added.live_dentry_ne added.used_dir)]

theorem old_name (used_p : s.nodes.used p) : (s'.node p).name = (s.node p).name := by
  by_cases here : p = d
  · rw [here, added.parent]
  · rw [added.node p (added.live_ne used_p) here]

theorem old_isDir (used_p : s.nodes.used p) : (s'.node p).isDir = (s.node p).isDir := by
  unfold Node.isDir
  by_cases here : p = d
  · rw [here, added.parent]
  · rw [added.node p (added.live_ne used_p) here]

theorem old_nodeOf (used_y : s.dentries.used y) : s'.nodeOf y = s.nodeOf y := by
  simp only [nodeOf, added.dentry y (added.live_dentry_ne used_y)]

/-- A leaf whose name is not taken can be added to the node tree. -/
theorem nodeTree (nodes : s.NodeTree root)
    (new_name : ∀ c ∈ s.nodes.children d, (s.node c).name ≠ (s'.node n).name) :
    s'.NodeTree root := by
  have names : ∀ p, s.nodes.used p →
      ((s.nodes.children p).map fun c => (s'.node c).name) =
        (s.nodes.children p).map fun c => (s.node c).name := by
    intro p used_p
    exact map_congr_left fun c member => added.old_name (nodes.tree.used_child used_p member)
  have dirs : ∀ p, s.nodes.used p →
      ((s.nodes.children p).countP fun c => (s'.node c).isDir) =
        (s.nodes.children p).countP fun c => (s.node c).isDir := by
    intro p used_p
    refine countP_congr fun c member => ?_
    rw [added.old_isDir (nodes.tree.used_child used_p member)]
  refine ⟨?_, ?_, ?_, ?_⟩
  · rw [added.nodes]
    exact nodes.tree.addLeaf added.used_d added.free_n
  · intro p used_p
    rw [added.node_children]
    split_ifs with new here
    · simp
    · rw [map_cons, names d added.used_d, nodup_cons]
      refine ⟨fun taken => ?_, nodes.distinct d added.used_d⟩
      obtain ⟨c, member, same⟩ := mem_map.1 taken
      exact new_name c member same
    · have old := (added.used_node.1 used_p).resolve_left new
      rw [names p old]
      exact nodes.distinct p old
  · intro p used_p dir_p
    rw [added.node_children]
    split_ifs with new here
    · subst new
      simp [added.new_nlinks dir_p]
    · subst here
      rw [added.parent]
      dsimp only
      rw [nodes.nlinks p added.used_d added.is_dir, countP_cons, dirs p added.used_d]
      omega
    · have old := (added.used_node.1 used_p).resolve_left new
      rw [added.old_isDir old] at dir_p
      rw [dirs p old, added.node p new here]
      exact nodes.nlinks p old dir_p
  · intro p used_p no_dir
    rw [added.node_children]
    split_ifs with new here
    · rfl
    · rw [here, added.old_isDir added.used_d, added.is_dir] at no_dir
      cases no_dir
    · have old := (added.used_node.1 used_p).resolve_left new
      rw [added.old_isDir old] at no_dir
      exact nodes.files p old no_dir

theorem mirrors_children (mirrors : s.Mirrors root rootDentry)
    {m : N} (old : s.dentries.used y) (of_y : s.nodeOf y = some m) :
    (s'.dentries.children y).map s'.nodeOf = (s'.nodes.children m).map some := by
  have mapped : (s.dentries.children y).map s'.nodeOf = (s.nodes.children m).map some := by
    rw [← mirrors.children y m old of_y]
    exact map_congr_left fun w member => added.old_nodeOf (mirrors.tree.used_child old member)
  have same_dir : y = dir ↔ m = d := by
    constructor
    · rintro rfl
      exact some.inj (of_y.symm.trans added.of_dir)
    · rintro rfl
      exact mirrors.injective y dir old added.used_dir (of_y.trans added.of_dir.symm)
  rw [added.dentry_children, added.node_children, if_neg (added.live_dentry_ne old),
    if_neg (added.live_ne (mirrors.used_node old of_y))]
  by_cases here : y = dir
  · have at_d := same_dir.1 here
    subst here
    subst at_d
    rw [if_pos rfl, if_pos rfl, map_cons, map_cons, added.new_node, mapped]
  · rw [if_neg here, if_neg (mt same_dir.2 here), mapped]

theorem mirrors (mirrors : s.Mirrors root rootDentry) : s'.Mirrors root rootDentry := by
  have fresh : ∀ y, s.dentries.used y → s'.nodeOf y ≠ some n := by
    intro y old of_y
    rw [added.old_nodeOf old] at of_y
    exact added.live_ne (mirrors.used_node old of_y) rfl
  refine ⟨?_, ?_, ?_, ?_, ?_, ?_, ?_⟩
  · rw [added.dentries]
    exact mirrors.tree.addLeaf added.used_dir added.free_x
  · rw [added.old_nodeOf mirrors.tree.used_root]
    exact mirrors.root_node
  · intro y used_y
    rcases added.used_dentry.1 used_y with rfl | old
    · exact ⟨n, added.new_node, added.used_node.2 (.inl rfl)⟩
    · obtain ⟨m, of_y, used_m⟩ := mirrors.has_node y old
      exact ⟨m, (added.old_nodeOf old).trans of_y, added.used_node.2 (.inr used_m)⟩
  · intro y m used_y of_y
    rcases added.used_dentry.1 used_y with rfl | old
    · rw [added.new_node] at of_y
      rw [added.dentry_children, added.node_children, if_pos rfl, if_pos (some.inj of_y).symm]
      rfl
    · rw [added.old_nodeOf old] at of_y
      exact added.mirrors_children mirrors old of_y
  · intro y m used_y not_root of_y
    rcases added.used_dentry.1 used_y with rfl | old
    · rw [added.new_node] at of_y
      rw [← some.inj of_y]
      exact added.new_name
    · rw [added.old_nodeOf old] at of_y
      rw [added.dentry y (added.live_dentry_ne old), added.old_name (mirrors.used_node old of_y)]
      exact mirrors.name y m old not_root of_y
  · intro y z used_y used_z same
    rcases added.used_dentry.1 used_y with rfl | old_y <;>
      rcases added.used_dentry.1 used_z with rfl | old_z
    · rfl
    · exact absurd (same.symm.trans added.new_node) (fresh z old_z)
    · exact absurd (same.trans added.new_node) (fresh y old_y)
    · rw [added.old_nodeOf old_y, added.old_nodeOf old_z] at same
      exact mirrors.injective y z old_y old_z same
  · intro m used_m
    rcases added.used_node.1 used_m with rfl | old
    · exact ⟨x, added.used_dentry.2 (.inl rfl), added.new_node⟩
    · obtain ⟨y, used_y, of_y⟩ := mirrors.surjective m old
      exact ⟨y, added.used_dentry.2 (.inr used_y), (added.old_nodeOf used_y).trans of_y⟩

/-- **A leaf added to both trees keeps them in step,** if its name is not taken. -/
theorem inStep (before : s.InStep root rootDentry)
    (new_name : ∀ c ∈ s.nodes.children d, (s.node c).name ≠ (s'.node n).name) :
    s'.InStep root rootDentry :=
  ⟨added.nodeTree before.nodes new_name, added.mirrors before.dentries⟩

end

end Added

/-! ## Taking a leaf out of both trees -/

/-- The second state lacks a node of a directory and its dentry. -/
structure Removed (s : Fs N D) (dir : D) (d n : N) (x : D) (s' : Fs N D) : Prop extends
    Directory s dir d where
  member : n ∈ s.nodes.children d
  dentry_member : x ∈ s.dentries.children dir
  of_x : s.nodeOf x = some n
  leaf : s.nodes.children n = []
  nodes : s'.nodes = (s.nodes.unlinkFrom d n).discard n
  dentries : s'.dentries = (s.dentries.unlinkFrom dir x).discard x
  node : ∀ p ≠ d, s'.node p = s.node p
  parent : s'.node d = { s.node d with
    nlinks := (s.node d).nlinks - if (s.node n).isDir then 1 else 0 }
  dentry : s'.dentry = s.dentry

namespace Removed

variable {s s' : Fs N D} {root : N} {rootDentry dir x y : D} {d n p : N}

section

variable (removed : s.Removed dir d n x s')
include removed

theorem used_node : s'.nodes.used q ↔ q ≠ n ∧ s.nodes.used q := by
  rw [removed.nodes, Forest.used_removeLeaf]

theorem used_dentry : s'.dentries.used y ↔ y ≠ x ∧ s.dentries.used y := by
  rw [removed.dentries, Forest.used_removeLeaf]

theorem node_children :
    s'.nodes.children q = if q = d then (s.nodes.children d).erase n else s.nodes.children q := by
  rw [removed.nodes, Forest.children_removeLeaf]

theorem dentry_children : s'.dentries.children y =
      if y = dir then (s.dentries.children dir).erase x else s.dentries.children y := by
  rw [removed.dentries, Forest.children_removeLeaf]

theorem same_name : (s'.node p).name = (s.node p).name := by
  by_cases here : p = d
  · rw [here, removed.parent]
  · rw [removed.node p here]

theorem same_isDir : (s'.node p).isDir = (s.node p).isDir := by
  unfold Node.isDir
  by_cases here : p = d
  · rw [here, removed.parent]
  · rw [removed.node p here]

theorem same_nodeOf : s'.nodeOf = s.nodeOf := by
  funext y
  simp only [nodeOf, removed.dentry]

theorem nodeTree (nodes : s.NodeTree root) : s'.NodeTree root := by
  have sub : ∀ p, (s'.nodes.children p).Sublist (s.nodes.children p) := by
    intro p
    rw [removed.nodes]
    exact s.nodes.unlinkFrom_children_sublist d n p
  refine ⟨?_, ?_, ?_, ?_⟩
  · rw [removed.nodes]
    exact nodes.tree.removeLeaf removed.used_d removed.member removed.leaf
  · intro p used_p
    simp only [removed.same_name]
    exact (nodes.distinct p (removed.used_node.1 used_p).2).sublist ((sub p).map _)
  · intro p used_p dir_p
    have old := (removed.used_node.1 used_p).2
    rw [removed.same_isDir] at dir_p
    simp only [removed.same_isDir, removed.node_children]
    have count := nodes.nlinks p old dir_p
    split_ifs with here
    · subst here
      rw [removed.parent]
      dsimp only
      rw [count, countP_erase]
      by_cases is_dir : (s.node n).isDir
      · have positive : 0 < (s.nodes.children p).countP fun c => (s.node c).isDir :=
          countP_pos_iff.2 ⟨n, removed.member, is_dir⟩
        rw [if_pos is_dir, if_pos ⟨removed.member, is_dir⟩]
        omega
      · simp [is_dir]
    · rw [removed.node p here]
      exact count
  · intro p used_p no_dir
    rw [removed.same_isDir] at no_dir
    have empty := nodes.files p (removed.used_node.1 used_p).2 no_dir
    exact eq_nil_of_subset_nil (empty ▸ (sub p).subset)

theorem mirrors (mirrors : s.Mirrors root rootDentry) : s'.Mirrors root rootDentry := by
  have used_x := mirrors.tree.used_child removed.used_dir removed.dentry_member
  have leaf : s.dentries.children x = [] := by
    simpa [removed.leaf] using mirrors.children x n used_x removed.of_x
  have old_used : ∀ {y}, s'.dentries.used y → s.dentries.used y :=
    fun used_y => (removed.used_dentry.1 used_y).2
  refine ⟨?_, ?_, ?_, ?_, ?_, ?_, ?_⟩
  · rw [removed.dentries]
    exact mirrors.tree.removeLeaf removed.used_dir removed.dentry_member leaf
  · rw [removed.same_nodeOf]
    exact mirrors.root_node
  · intro y used_y
    obtain ⟨y_ne, old⟩ := removed.used_dentry.1 used_y
    obtain ⟨m, of_y, used_m⟩ := mirrors.has_node y old
    refine ⟨m, by rw [removed.same_nodeOf, of_y], removed.used_node.2 ⟨?_, used_m⟩⟩
    rintro rfl
    exact y_ne (mirrors.injective y x old used_x (of_y.trans removed.of_x.symm))
  · intro y m used_y of_y
    rw [removed.same_nodeOf] at of_y ⊢
    have old := old_used used_y
    have pairs := mirrors.children y m old of_y
    rw [removed.dentry_children, removed.node_children]
    by_cases here : y = dir
    · subst here
      have same : m = d := some.inj (of_y.symm.trans removed.of_dir)
      subst same
      rw [if_pos rfl, if_pos rfl]
      refine map_erase_paired pairs removed.of_x fun z member of_z => ?_
      exact mirrors.injective z x (mirrors.tree.used_child old member) used_x
        (of_z.trans removed.of_x.symm)
    · have other : m ≠ d := by
        rintro rfl
        exact here (mirrors.injective y dir old removed.used_dir (of_y.trans removed.of_dir.symm))
      rw [if_neg here, if_neg other, pairs]
  · intro y m used_y not_root of_y
    rw [removed.same_nodeOf] at of_y
    rw [removed.dentry, removed.same_name]
    exact mirrors.name y m (old_used used_y) not_root of_y
  · intro y z used_y used_z same
    rw [removed.same_nodeOf] at same
    exact mirrors.injective y z (old_used used_y) (old_used used_z) same
  · intro m used_m
    obtain ⟨m_ne, old⟩ := removed.used_node.1 used_m
    obtain ⟨y, used_y, of_y⟩ := mirrors.surjective m old
    refine ⟨y, removed.used_dentry.2 ⟨?_, used_y⟩, by rw [removed.same_nodeOf, of_y]⟩
    rintro rfl
    exact m_ne (some.inj (of_y.symm.trans removed.of_x))

/-- **A leaf taken out of both trees keeps them in step.** -/
theorem inStep (before : s.InStep root rootDentry) : s'.InStep root rootDentry :=
  ⟨removed.nodeTree before.nodes, removed.mirrors before.dentries⟩

end

end Removed

/-! ## The operations -/

section Operations

variable {s s' : Fs N D} {root : N} {rootDentry dir : D} {d n : N} {mem : Memory N D}
  {name : Name}

omit [DecidableEq N] in
/-- What `ramfs_build_dentry` does if it gets memory. -/
theorem buildDentry_eq_some (built : s.buildDentry mem dir n name = some s') :
    ∃ x, s.dentries.used x = false ∧ s' = { s with
      dentries := (s.dentries.claim x).link dir x
      dentry := update s.dentry x
        { name := copyName name, inode := some (s.inodeFor n) } } := by
  unfold buildDentry at built
  split at built
  · obtain ⟨x, claimed, rfl⟩ := map_eq_some_iff.1 built
    exact ⟨x, (kmalloc_eq_some.1 claimed).2, rfl⟩
  · cases built

/-- The new node is linked under the directory, and counted there if it is one itself. -/
def counted (new : Fs N D) (d n : N) : Fs N D :=
  (new.linkNode d n).setNlinks d ((new.node d).nlinks + if (new.node n).isDir then 1 else 0)

section

variable {new : Fs N D} (directory : s.Directory dir d) (only : OnlyNew s n new)
  (free : s.nodes.used n = false) (new_name : (new.node n).name = copyName name)
include directory only free new_name

theorem Added.of_build (new_nlinks : (new.node n).isDir → (new.node n).nlinks = 2)
    (built : (new.counted d n).buildDentry mem dir n name = some s') :
    ∃ x, s.Added dir d n x s' ∧ (s'.node n).name = copyName name := by
  obtain ⟨x, free_x, rfl⟩ := buildDentry_eq_some built
  have d_ne : d ≠ n := by
    rintro rfl
    simp [directory.used_d] at free
  have node_n : (new.counted d n).node n = new.node n := update_of_ne d_ne.symm _ _
  have free_x : s.dentries.used x = false := by
    rw [← only.dentries]
    exact free_x
  refine ⟨x, ?_, by rw [← new_name, node_n]⟩
  exact
    { directory with
      free_n := free
      free_x
      nodes := congrArg (fun nodes : Forest N => nodes.link d n) only.nodes
      dentries := congrArg (fun dentries : Forest D => (dentries.claim x).link dir x) only.dentries
      node := fun p p_ne p_ne' => (update_of_ne p_ne' _ _).trans (only.node p p_ne)
      parent := by
        rw [node_n]
        simp [counted, setNlinks, setNode, linkNode, only.node d d_ne]
      new_nlinks := by
        rw [node_n]
        exact new_nlinks
      dentry := fun y other => by
        rw [← only.dentry]
        exact update_of_ne other _ _
      new_node := by simp [nodeOf, inodeFor]
      new_name := by simp [node_n, new_name] }

theorem Added.of_attach (no_dir : (new.node n).isDir = false)
    (success : (new.attach mem dir d n name).1 = 0) :
    ∃ x, s.Added dir d n x (new.attach mem dir d n name).2 ∧
      ((new.attach mem dir d n name).2.node n).name = copyName name := by
  unfold attach at success ⊢
  dsimp only at success ⊢
  cases built : (new.linkNode d n).buildDentry mem dir n name with
  | none => simp [built] at success
  | some s' =>
    have same : new.counted d n = new.linkNode d n := by
      rw [counted, no_dir]
      exact setNlinks_self (new.linkNode d n)
    exact Added.of_build directory only free new_name (by simp [no_dir]) (same ▸ built)

theorem Added.of_attachDir (is_dir : (new.node n).isDir)
    (new_nlinks : (new.node n).nlinks = 2) (success : (new.attachDir mem dir d n name).1 = 0) :
    ∃ x, s.Added dir d n x (new.attachDir mem dir d n name).2 ∧
      ((new.attachDir mem dir d n name).2.node n).name = copyName name := by
  unfold attachDir at success ⊢
  dsimp only at success ⊢
  cases built : ((new.linkNode d n).setNlinks d
      (((new.linkNode d n).node d).nlinks + 1)).buildDentry mem dir n name with
  | none => simp [built] at success
  | some s' =>
    exact Added.of_build directory only free new_name (fun _ => new_nlinks)
      (by rw [counted, is_dir]; exact built)

end

omit [DecidableEq N] [DecidableEq D] in
theorem Mirrors.findDentry (mirrors : s.Mirrors root rootDentry) (used_dir : s.dentries.used dir)
    (of_dir : s.nodeOf dir = some d) (found : s.findChild d name = some n) :
    ∃ x, s.findDentry dir name = some x ∧ x ∈ s.dentries.children dir ∧ s.nodeOf x = some n := by
  obtain ⟨-, first, -⟩ := findChild_eq_some found
  have named : ∀ x ∈ s.dentries.children dir, ∀ m, s.nodeOf x = some m →
      (s.dentry x).name = (s.node m).name := fun x member m of_x =>
    mirrors.name x m (mirrors.tree.used_child used_dir member)
      (mirrors.tree.ne_root used_dir member) of_x
  obtain ⟨x, first_x, of_x⟩ := find?_paired (mirrors.children dir d used_dir of_dir) named first
  exact ⟨x, first_x, mem_of_find?_eq_some first_x, of_x⟩

theorem Removed.of_remove (inStep : s.InStep root rootDentry) (directory : s.Directory dir d)
    (found : s.findChild d name = some n) (leaf : s.nodes.children n = []) :
    ∃ x, s.Removed dir d n x ((s.withoutNode d n).removeVfsDentry dir name) ∧
      s.findDentry dir name = some x := by
  obtain ⟨x, first, member_x, of_x⟩ :=
    inStep.dentries.findDentry directory.used_dir directory.of_dir found
  have member := (findChild_eq_some found).2.2.1
  have parent_n := inStep.nodes.tree.parent_child directory.used_d member
  refine ⟨x, ?_, first⟩
  have still : (s.withoutNode d n).findDentry dir name = some x := first
  simp only [removeVfsDentry, still]
  exact
    { directory with
      member, dentry_member := member_x, of_x, leaf
      nodes := congrArg (fun nodes : Forest N => nodes.discard n) (Forest.unlink_of_parent parent_n)
      node := fun p other => update_of_ne other _ _
      dentries := rfl
      parent := update_self _ _ _
      dentry := rfl }

/-- A rename of a file, or of an empty directory in place, removes a leaf from both trees and
adds it again. -/
theorem Added.of_rename (inStep : s.InStep root rootDentry) {oldDir newDir : D} {od nd : N}
    {oldName newName : Name} (old : s.Directory oldDir od) (new : s.Directory newDir nd)
    (found : s.findChild od oldName = some n) (leaf : s.nodes.children n = [])
    (in_place : (s.node n).isDir → oldDir = newDir)
    (built : (s.movedAway oldDir nd n oldName newName).buildDentry mem newDir n newName = some s') :
    ∃ x y, s.Removed oldDir od n x ((s.withoutNode od n).removeVfsDentry oldDir oldName) ∧
      ((s.withoutNode od n).removeVfsDentry oldDir oldName).Added newDir nd n y s' ∧
      (s'.node n).name = copyName newName := by
  obtain ⟨x, removed, first⟩ := Removed.of_remove inStep old found leaf
  obtain ⟨y, free_y, rfl⟩ := buildDentry_eq_some built
  generalize (s.withoutNode od n).removeVfsDentry oldDir oldName = m at removed ⊢
  have od_ne : od ≠ n := by
    rintro rfl
    have member := removed.member
    simp [leaf] at member
  have same_dir : (s.node n).isDir → od = nd := by
    intro is_dir
    have of_new := new.of_dir
    rw [← in_place is_dir, old.of_dir] at of_new
    exact some.inj of_new
  have nd_ne : nd ≠ n := by
    rintro rfl
    exact od_ne (same_dir new.is_dir)
  have newDir_ne : newDir ≠ x := by
    rintro rfl
    exact nd_ne (some.inj (new.of_dir.symm.trans removed.of_x))
  have parent_n := inStep.nodes.tree.parent_child old.used_d removed.member
  have used_n := inStep.nodes.tree.used_child old.used_d removed.member
  have still : (s.moveNode n nd newName).findDentry oldDir oldName = some x := first
  have away : s.movedAway oldDir nd n oldName newName = { s.moveNode n nd newName with
      dentries := (s.dentries.unlinkFrom oldDir x).discard x } := by
    simp only [movedAway, removeVfsDentry, still]
    rfl
  have renamed : (s.moveNode n nd newName).node =
      update s.node n { s.node n with name := copyName newName } := rfl
  have moved : (s.moveNode n nd newName).nodes = (s.nodes.unlinkFrom od n).link nd n :=
    congrArg (fun nodes : Forest N => nodes.link nd n) (Forest.unlink_of_parent parent_n)
  rw [away] at free_y ⊢
  refine ⟨x, y, removed, ?_, by simp [renamed]⟩
  have unchanged : (s.node n).isDir = false → m.node = s.node := by
    intro no_dir
    funext p
    by_cases here : p = od
    · rw [here, removed.parent, no_dir]
      rfl
    · exact removed.node p here
  have kind : ((update s.node n { s.node n with name := copyName newName }) n).isDir =
      (s.node n).isDir := by
    rw [update_self]
    rfl
  refine
    { used_dir := removed.used_dentry.2 ⟨newDir_ne, new.used_dir⟩
      of_dir := by rw [removed.same_nodeOf, new.of_dir]
      used_d := removed.used_node.2 ⟨nd_ne, new.used_d⟩
      is_dir := by rw [removed.same_isDir, new.is_dir]
      free_n := by rw [removed.nodes, Forest.discard_used_self]
      free_x := by rw [removed.dentries]; exact free_y
      nodes := by
        rw [removed.nodes]
        exact moved.trans (Forest.IsTree.move_eq used_n leaf od_ne)
      dentries := by rw [removed.dentries]
      node := ?_
      parent := ?_
      new_nlinks := ?_
      dentry := fun z other => by
        rw [removed.dentry]
        exact update_of_ne other _ _
      new_node := by simp [nodeOf, inodeFor]
      new_name := by simp [renamed] }
  · intro p p_ne p_ne'
    rw [renamed, update_of_ne p_ne]
    cases is_dir : (s.node n).isDir with
    | false => rw [unchanged is_dir]
    | true => exact (removed.node p fun here => p_ne' (here.trans (same_dir is_dir))).symm
  · rw [renamed, update_of_ne nd_ne, kind]
    cases is_dir : (s.node n).isDir with
    | false =>
      rw [unchanged is_dir]
      rfl
    | true =>
      have here := same_dir is_dir
      subst here
      have links := inStep.nodes.nlinks od old.used_d old.is_dir
      have back : (s.node od).nlinks - 1 + 1 = (s.node od).nlinks := by omega
      rw [removed.parent, is_dir]
      simp only [if_true, back]
  · rw [renamed, update_self]
    intro is_dir
    have links := inStep.nodes.nlinks n used_n is_dir
    simpa [leaf] using links

end Operations

/-! ## Careful calls -/

variable (s : Fs N D)

/-- The argument is a directory of the dentry tree. -/
def OnDirectory (dirArg : Option D) : Prop :=
  ∀ dir ∈ dirArg, s.dentries.used dir ∧ ∀ d ∈ s.nodeOf dir, (s.node d).isDir
deriving Decidable

/-- No child of the directory, except the given one, has the name as it will be stored. -/
def NewName (dirArg : Option D) (nameArg : Option Name) (exempt : Option N) : Prop :=
  ∀ dir ∈ dirArg, ∀ d ∈ s.nodeOf dir, ∀ name ∈ nameArg, ∀ c ∈ s.nodes.children d,
    some c ≠ exempt → (s.node c).name ≠ copyName name

def childNamed (dirArg : Option D) (nameArg : Option Name) : Option N :=
  (dirArg.bind s.nodeOf).bind fun d => nameArg.bind (s.findChild d)

/-- Operations are on directories. A name is new as it will be stored. A file is created without
the directory bit. What is renamed is a file, or an empty directory that stays where it is. -/
def Careful : Op D → Prop
  | .create dir name mode => s.OnDirectory dir ∧ s.NewName dir name none ∧ mode &&& fileModeDir = 0
  | .mkdir dir name _ => s.OnDirectory dir ∧ s.NewName dir name none
  | .symlink dir name _ => s.OnDirectory dir ∧ s.NewName dir name none
  | .unlink dir _ => s.OnDirectory dir
  | .rmdir dir _ => s.OnDirectory dir
  | .rename oldDir oldName newDir newName =>
    s.OnDirectory oldDir ∧ s.OnDirectory newDir ∧
      ∀ n ∈ s.childNamed oldDir oldName, s.NewName newDir newName (some n) ∧
        ((s.node n).isDir → oldDir = newDir ∧ s.nodes.children n = [])

instance NewName.decidable (s : Fs N D) (dirArg : Option D) (nameArg : Option Name)
    (exempt : Option N) : Decidable (s.NewName dirArg nameArg exempt) := by
  delta NewName
  infer_instance

instance Careful.decidable (s : Fs N D) : ∀ op : Op D, Decidable (s.Careful op)
  | .create _ _ _ => inferInstanceAs (Decidable (_ ∧ _ ∧ _))
  | .mkdir _ _ _ | .symlink _ _ _ => inferInstanceAs (Decidable (_ ∧ _))
  | .unlink dir _ | .rmdir dir _ => inferInstanceAs (Decidable (s.OnDirectory dir))
  | .rename oldDir oldName _ _ =>
    inferInstanceAs (Decidable (_ ∧ _ ∧ ∀ n ∈ s.childNamed oldDir oldName, _ ∧ (_ → _)))

def CarefulSuccess (call : Call N D) : Prop :=
  (s.perform call.1 call.2).1 = 0 ∧ s.Careful call.2
deriving Decidable

section Step

variable {s s' : Fs N D} {root n d : N} {rootDentry dir : D} {mem : Memory N D} {dirArg : Option D}
  {mode : UInt32} {nameArg : Option Name} {name : Name}

omit [DecidableEq N] [DecidableEq D] in
theorem OnDirectory.directory (on : s.OnDirectory dirArg) (inStep : s.InStep root rootDentry)
    (dir_eq : dirArg = some dir) (of_dir : s.nodeOf dir = some d) : s.Directory dir d where
  used_dir := (on dir dir_eq).1
  of_dir
  used_d := inStep.dentries.used_node (on dir dir_eq).1 of_dir
  is_dir := (on dir dir_eq).2 d of_dir

omit [DecidableEq D] in
theorem newNode_fields (made : s.newNode mem name mode = some (n, s')) :
    s'.node n = s.newFields name mode := by
  simp only [newNode, map_eq_some_iff, Prod.mk.injEq] at made
  obtain ⟨b, -, rfl, rfl⟩ := made
  exact update_self _ _ _

theorem or_and_distrib {a b c : UInt32} : (a ||| b) &&& c = (a &&& c) ||| (b &&& c) := by
  apply UInt32.toBitVec_inj.1
  ext i inside
  simp [Bool.and_or_distrib_right]

theorem or_and_self (a c : UInt32) : (a ||| c) &&& c = c := by
  apply UInt32.toBitVec_inj.1
  ext i inside
  simp [Bool.and_or_distrib_right]

/-- The regular-file bit does not make a directory. -/
theorem regular_isDir (mode : UInt32) :
    (mode ||| fileModeReg) &&& fileModeDir = mode &&& fileModeDir := by
  rw [or_and_distrib, show fileModeReg &&& fileModeDir = 0 by decide, UInt32.or_zero]

section

variable (inStep : s.InStep root rootDentry) (on : s.OnDirectory dirArg)
  (new_name : s.NewName dirArg nameArg none)
include inStep on new_name

omit on in
/-- The names of the tree stay distinct when the new node has the name the call is given. -/
theorem InStep.grow (adds : s.Adds dirArg nameArg dir d name)
    (grown : ∃ x, s.Added dir d n x s' ∧ (s'.node n).name = copyName name) :
    s'.InStep root rootDentry := by
  obtain ⟨x, added, stored⟩ := grown
  refine added.inStep inStep fun c member => ?_
  rw [stored]
  exact new_name dir adds.dir_eq d adds.node name adds.name_eq c member (by simp)

theorem InStep.create (no_dir : mode &&& fileModeDir = 0)
    (success : (s.createOp mem dirArg nameArg mode).1 = 0) :
    (s.createOp mem dirArg nameArg mode).2.InStep root rootDentry := by
  rw [createOp] at success ⊢
  rcases s.addOp_cases mem dirArg nameArg (mode ||| fileModeReg) attach with
    same | ⟨dir, d, name, n, new, adds, -, made, run⟩
  · simp [same] at success
  obtain ⟨free, only⟩ := OnlyNew.of_newNode made
  have fields := newNode_fields made
  have file : (new.node n).isDir = false := by
    simp [fields, newFields, Node.isDir, regular_isDir, no_dir]
  rw [run] at success ⊢
  exact inStep.grow new_name adds (Added.of_attach (on.directory inStep adds.dir_eq adds.node) only
    free (by rw [fields]; rfl) file success)

theorem InStep.mkdir (success : (s.mkdirOp mem dirArg nameArg mode).1 = 0) :
    (s.mkdirOp mem dirArg nameArg mode).2.InStep root rootDentry := by
  rw [mkdirOp] at success ⊢
  rcases s.addOp_cases mem dirArg nameArg ((mode &&& ~~~fileModeReg) ||| fileModeDir) attachDir with
    same | ⟨dir, d, name, n, new, adds, -, made, run⟩
  · simp [same] at success
  obtain ⟨free, only⟩ := OnlyNew.of_newNode made
  have fields := newNode_fields made
  have directory_bit : (((mode &&& ~~~fileModeReg) ||| fileModeDir) &&& fileModeDir != 0) := by
    rw [or_and_self]
    decide
  rw [run] at success ⊢
  exact inStep.grow new_name adds (Added.of_attachDir (on.directory inStep adds.dir_eq adds.node)
    only free (by rw [fields]; rfl) (by rw [fields]; exact directory_bit)
    (by rw [fields]; exact if_pos directory_bit) success)

theorem InStep.symlink {targetArg : Option Name}
    (success : (s.symlinkOp mem dirArg nameArg targetArg).1 = 0) :
    (s.symlinkOp mem dirArg nameArg targetArg).2.InStep root rootDentry := by
  rcases s.symlinkOp_cases mem dirArg nameArg targetArg with
    same | ⟨dir, d, name, n, new, target, adds, made, run | ⟨buffer, run⟩⟩
  · simp [same] at success
  · simp [run] at success
  obtain ⟨free, only⟩ := OnlyNew.of_newNode made
  have fields := newNode_fields made
  have file : ((new.withTarget n target buffer).node n).isDir = false := by
    simp [withTarget, withSize, setNode, fields, newFields, Node.isDir]
    decide
  have named : ((new.withTarget n target buffer).node n).name = copyName name := by
    simp [withTarget, withSize, setNode, fields, newFields]
  rw [run] at success ⊢
  exact inStep.grow new_name adds (Added.of_attach (on.directory inStep adds.dir_eq adds.node)
    (only.filled.filled) free named file success)

end

section

variable (inStep : s.InStep root rootDentry)
include inStep

/-- A file has no children, and only an empty directory is removed. -/
theorem InStep.remove {directory : Bool}
    (on : s.OnDirectory dirArg) (success : (s.removeOp dirArg nameArg directory).1 = 0) :
    (s.removeOp dirArg nameArg directory).2.InStep root rootDentry := by
  rcases s.removeOp_cases dirArg nameArg directory with
    same | ⟨dir, d, name, c, dir_eq, -, of_dir, found, kind, empty, run⟩
  · simp [same] at success
  have isDirectory := on.directory inStep dir_eq of_dir
  have used_c := inStep.nodes.tree.used_child isDirectory.used_d (findChild_eq_some found).2.2.1
  have leaf : s.nodes.children c = [] := by
    cases directory with
    | false => exact inStep.nodes.files c used_c kind
    | true => exact empty rfl
  obtain ⟨x, removed, -⟩ := Removed.of_remove inStep isDirectory found leaf
  rw [run]
  exact removed.inStep inStep

theorem InStep.rename {oldDirArg newDirArg : Option D} {oldNameArg newNameArg : Option Name}
    (careful : s.Careful (.rename oldDirArg oldNameArg newDirArg newNameArg))
    (success : (s.renameOp mem oldDirArg oldNameArg newDirArg newNameArg).1 = 0) :
    (s.renameOp mem oldDirArg oldNameArg newDirArg newNameArg).2.InStep root rootDentry := by
  obtain ⟨on_old, on_new, moves⟩ := careful
  rcases s.renameOp_cases mem oldDirArg oldNameArg newDirArg newNameArg with
    same | ⟨oldDir, newDir, od, nd, n, oldName, newName, renames⟩
  · simp [same] at success
  have named : s.childNamed oldDirArg oldNameArg = some n := by
    simp [childNamed, renames.oldDir_eq, renames.oldName_eq, renames.oldNode, renames.found]
  obtain ⟨new_name, in_place⟩ := moves n named
  have old := on_old.directory inStep renames.oldDir_eq renames.oldNode
  have new := on_new.directory inStep renames.newDir_eq renames.newNode
  have used_n := inStep.nodes.tree.used_child old.used_d (findChild_eq_some renames.found).2.2.1
  have leaf : s.nodes.children n = [] := by
    cases is_dir : (s.node n).isDir with
    | false => exact inStep.nodes.files n used_n is_dir
    | true => exact (in_place is_dir).2
  have same_dir : (s.node n).isDir → oldDir = newDir := by
    intro is_dir
    have same := (in_place is_dir).1
    rw [renames.oldDir_eq, renames.newDir_eq] at same
    exact some.inj same
  rw [s.renameOp_of_renames mem _ _ renames] at success ⊢
  cases built : (s.movedAway oldDir nd n oldName newName).buildDentry mem newDir n newName with
  | none => simp [built] at success
  | some after =>
    obtain ⟨x, y, removed, added, stored⟩ :=
      Added.of_rename inStep old new renames.found leaf same_dir built
    refine added.inStep (removed.inStep inStep) fun c member => ?_
    rw [stored, removed.same_name]
    -- the children left under the new parent are old ones other than the renamed node
    have live := (removed.inStep inStep).nodes.tree.used_child added.used_d member
    have other := (removed.used_node.1 live).1
    have old_member : c ∈ s.nodes.children nd := by
      rw [removed.nodes] at member
      exact (s.nodes.unlinkFrom_children_sublist od n nd).subset member
    exact new_name newDir renames.newDir_eq nd renames.newNode newName renames.newName_eq c
      old_member fun same => other (some.inj same)

/-- **A careful call that succeeds keeps the trees in step.** -/
theorem InStep.step {call : Call N D} (careful : s.CarefulSuccess call) :
    (s.step call).InStep root rootDentry := by
  obtain ⟨mem, op⟩ := call
  obtain ⟨success, careful⟩ := careful
  cases op with
  | create dir name mode => exact inStep.create careful.1 careful.2.1 careful.2.2 success
  | mkdir dir name mode => exact inStep.mkdir careful.1 careful.2 success
  | symlink dir name target => exact inStep.symlink careful.1 careful.2 success
  | unlink | rmdir => exact inStep.remove careful success
  | rename oldDir oldName newDir newName => exact inStep.rename careful success

end

end Step

/-! ## Runs -/

theorem mounted_isTree [DecidableEq α] {before : Forest α} {root : α} : Forest.IsTree
      { used := fun n => decide (n = root), parent := update before.parent root (some root)
        children := update before.children root [] : Forest α } root := by
  refine ⟨mounted_linked, by simp, ?_, ?_⟩
  · intro p used_p
    simp [of_decide_eq_true used_p]
  · intro x used_x
    rw [of_decide_eq_true used_x]
    exact Relation.ReflTransGen.refl

/-- The trees after mounting: one node and one dentry. -/
theorem mounted_inStep {before : Fs N D} {root : N} {rootDentry : D} :
    (mounted before root rootDentry).InStep root rootDentry := by
  have only : ∀ {n : N}, (mounted before root rootDentry).nodes.used n → n = root :=
    fun used_n => of_decide_eq_true used_n
  have only_dentry : ∀ {x : D}, (mounted before root rootDentry).dentries.used x →
      x = rootDentry := fun used_x => of_decide_eq_true used_x
  have of_root : (mounted before root rootDentry).nodeOf rootDentry = some root := by
    simp [nodeOf, mounted]
  refine ⟨⟨mounted_isTree, ?_, ?_, ?_⟩, ⟨mounted_isTree, of_root, ?_, ?_, ?_, ?_, ?_⟩⟩
  · intro p used_p
    simp [only used_p, mounted]
  · intro p used_p _
    simp [only used_p, mounted]
  · intro p used_p _
    simp [only used_p, mounted]
  · intro x used_x
    exact ⟨root, only_dentry used_x ▸ of_root, by simp [mounted]⟩
  · intro x n used_x of_x
    rw [only_dentry used_x] at of_x ⊢
    rw [← some.inj (of_root.symm.trans of_x)]
    simp [mounted]
  · intro x n used_x not_root
    exact absurd (only_dentry used_x) not_root
  · intro x y used_x used_y _
    rw [only_dentry used_x, only_dentry used_y]
  · intro n used_n
    exact ⟨rootDentry, by simp [mounted], only used_n ▸ of_root⟩

end Fs

/-- **The trees stay in step.** In every run of careful successful calls from mounting on, the
nodes form a tree with distinct sibling names and right link counts, and the dentries form the
same tree. -/
theorem trees_stay_in_step {N : Type u} {D : Type v} [DecidableEq N] [DecidableEq D]
    (before : Fs N D) (root : N) (rootDentry : D) (calls : List (Fs.Call N D))
    (careful : Meets Fs.step Fs.CarefulSuccess (before.mounted root rootDentry) calls) :
    (calls.foldl Fs.step (before.mounted root rootDentry)).InStep root rootDentry :=
  careful.invariant (P := fun s => s.InStep root rootDentry)
    (fun _ _ inStep careful => inStep.step careful) Fs.mounted_inStep

/-- Memory for a call: every request gets block `k`. -/
def block (k : Nat) : Memory Nat Nat where
  node := some k
  data := some fun _ => 0
  inode := true
  dentry := some k

/-- A directory `a` with a file `b`, which is moved to the root as `c`, and `a` renamed to `d`. -/
def moveFileOut : List (Fs.Call Nat Nat) :=
  [(block 1, .mkdir (some 0) (some [97]) 0), (block 2, .create (some 1) (some [98]) 0),
    (block 3, .rename (some 1) (some [98]) (some 0) (some [99])),
    (block 4, .rename (some 0) (some [97]) (some 0) (some [100]))]

theorem moveFileOut_in_step : (moveFileOut.foldl Fs.step emptyFs).InStep 0 0 :=
  trees_stay_in_step blankFs 0 0 moveFileOut (by decide +kernel)

/-- A directory `a` with a file `b`, and `a` renamed to `c`. -/
def renameFullDirectory : List (Fs.Call Nat Nat) :=
  [(block 1, .mkdir (some 0) (some [97]) 0), (block 2, .create (some 1) (some [98]) 0),
    (block 3, .rename (some 0) (some [97]) (some 0) (some [99]))]

/-- All three calls succeed. The new dentry of the directory has no child, while its node has the
file. -/
theorem renamed_directory_is_empty :
    let s := renameFullDirectory.foldl Fs.step emptyFs
    Meets Fs.step (fun s call => (s.perform call.1 call.2).1 = 0) emptyFs renameFullDirectory ∧
      s.findChild 1 [98] = some 2 ∧ s.lookupOp (some 0) (some [99]) = some 3 ∧
      s.lookupOp (some 3) (some [98]) = none ∧ ¬ s.InStep 0 0 := by
  refine ⟨by decide +kernel, by decide +kernel, by decide +kernel, by decide +kernel, ?_⟩
  intro inStep
  have children := inStep.dentries.children 3 1 (by decide +kernel) (by decide +kernel)
  exact absurd children (by decide +kernel)

end FunsOS.Ramfs
