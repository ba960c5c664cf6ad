import Mathlib.Data.List.Find
import FunsOS.Ramfs.Tree

/-!
# Failed ramfs operations

An operation that fails takes back the edits it has made. What its callers can see of a state
is the name and the node of every entry of every directory, and the dentry that a walk of a
child list or a lookup finds. `Unchanged` says that a later state shows the same.

`ramfs_create_op`, `ramfs_mkdir_op` and `ramfs_symlink_op` take back a node that gets no dentry;
the removals check before they change anything. `ramfs_rename_op` has already freed the old
dentry when `ramfs_build_dentry` fails. It puts the node back, in front of the list and under
its old name, and leaves it without a dentry. This is the only way in which a failed operation
changes what its callers see (`fails_atomically_iff`).
-/

set_option autoImplicit false

namespace FunsOS.Ramfs

open Foundation Function List Option

universe u v

/-! ## Searching a list for a name -/

section Find

variable {α : Type u} [DecidableEq α] {x : α}

/-- Taking an element out does not change a search that passes over it. -/
theorem find?_erase_of_not (test : α → Bool) (passed : test x = false) :
    ∀ list : List α, (list.erase x).find? test = list.find? test
  | [] => rfl
  | y :: list => by
    by_cases same : y = x
    · subst same
      simp [passed]
    · rw [erase_cons_tail (by simpa using same), find?_cons, find?_cons,
        find?_erase_of_not test passed list]

/-- Moving the first element of a name to the front does not change what a name denotes. -/
theorem find?_front {nameOf : α → Name} {list : List α} {old : Name}
    (found : list.find? (fun c => nameOf c == old) = some x) (name : Name) :
    (x :: list.erase x).find? (fun c => nameOf c == name) =
      list.find? (fun c => nameOf c == name) := by
  have named : nameOf x = old := by simpa using find?_some found
  by_cases same : old = name
  · subst same
    rw [found, find?_cons_of_pos (by simpa using named)]
  · have passed : (nameOf x == name) = false := by
      rw [named]
      simpa using same
    rw [find?_cons_of_neg (by simp [passed]), find?_erase_of_not (fun c => nameOf c == name) passed]

end Find

namespace Fs

variable {N α : Type u} {D : Type v} {count : Nat}

/-! ## Well-formed states -/

/-- No child list of a block in use has a dangling, misplaced or repeated entry, and the names
of the nodes fit into their fields. -/
structure WellLinked (s : Fs N D) : Prop where
  nodes : s.nodes.Linked
  dentries : s.dentries.Linked
  name_fits : ∀ n, s.nodes.used n → (s.node n).name.length ≤ ramfsMaxName

/-- The lists are well linked, and the names of the dentries fit into their fields as well. -/
structure Sound (s : Fs N D) : Prop extends s.WellLinked where
  dentry_name_fits : ∀ d, s.dentries.used d → (s.dentry d).name.length ≤ ramfsMaxName

/-- A directory that is passed to an operation is in use, and so is its node. -/
def LiveDir (s : Fs N D) (dir : Option D) : Prop :=
  ∀ d ∈ dir, s.dentries.used d ∧ ∀ n ∈ s.nodeOf d, s.nodes.used n

/-- The directories passed to a call are live. -/
def LiveDirs (s : Fs N D) : Op D → Prop
  | .create dir _ _ => s.LiveDir dir
  | .mkdir dir _ _ => s.LiveDir dir
  | .symlink dir _ _ => s.LiveDir dir
  | .unlink dir _ => s.LiveDir dir
  | .rmdir dir _ => s.LiveDir dir
  | .rename oldDir _ newDir _ => s.LiveDir oldDir ∧ s.LiveDir newDir

/-! ### Every operation keeps a state well formed -/

theorem kmalloc_eq_some {used : α → Bool} {block : Option α} {b : α} :
    kmalloc used block = some b ↔ block = some b ∧ used b = false := by
  simp [kmalloc, filter_eq_some_iff]

theorem copyName_fits {name : Name} : (copyName name).length ≤ ramfsMaxName := length_take_le _ _

namespace Sound

variable [DecidableEq N] {s s' : Fs N D} {n d : N} {fields : Node} {parent dir : D}
  (sound : s.Sound)
include sound

theorem fits_update {p : N} (fits : fields.name.length ≤ ramfsMaxName)
    (used_p : p ≠ n → s.nodes.used p) :
    (update s.node n fields p).name.length ≤ ramfsMaxName := by
  by_cases here : p = n
  · rwa [here, update_self]
  · rw [update_of_ne here]
    exact sound.name_fits p (used_p here)

theorem claimed (free : s.nodes.used n = false) (fits : fields.name.length ≤ ramfsMaxName) :
    (s.claimNode n fields).Sound :=
  ⟨⟨sound.nodes.claimed free, sound.dentries, fun _ used_p => sound.fits_update fits fun other =>
    (s.nodes.claim_used_of_ne n other).symm.trans used_p⟩, sound.dentry_name_fits⟩

theorem filled (fits : fields.name.length ≤ ramfsMaxName) : (s.setNode n fields).Sound :=
  ⟨⟨sound.nodes, sound.dentries, fun _ used_p => sound.fits_update fits fun _ => used_p⟩,
    sound.dentry_name_fits⟩

theorem counted (used_d : s.nodes.used d) : (s.setNlinks d count).Sound :=
  sound.filled (sound.name_fits d used_d)

theorem sized (used_n : s.nodes.used n) (target : Name) : (s.withSize n target).Sound :=
  sound.filled (sound.name_fits n used_n)

theorem linked (used_n : s.nodes.used n) (top : s.nodes.Top n) : (s.linkNode d n).Sound :=
  ⟨⟨sound.nodes.linked_link used_n top, sound.dentries, sound.name_fits⟩, sound.dentry_name_fits⟩

theorem unlinked : (s.unlinkFromParent n).Sound := by
  refine ⟨⟨sound.nodes.unlinked, sound.dentries, fun p used_p => sound.name_fits p ?_⟩,
    sound.dentry_name_fits⟩
  simpa [unlinkFromParent] using used_p

theorem freed (top : s.nodes.Top n) : (s.kfreeNode n).Sound := by
  refine ⟨⟨sound.nodes.discarded top, sound.dentries, fun p used_p => sound.name_fits p ?_⟩,
    sound.dentry_name_fits⟩
  by_cases here : p = n
  · simp [kfreeNode, here] at used_p
  · exact (s.nodes.discard_used_of_ne n here).symm.trans used_p

section

variable (used_d : s.nodes.used d) (member : n ∈ s.nodes.children d)
include used_d member

theorem unlinked_top : (s.unlinkFromParent n).nodes.Top n := by
  simp only [unlinkFromParent, Forest.unlink_of_parent (sound.nodes.parent_child used_d member)]
  exact sound.nodes.top_unlinkFrom used_d member

theorem removed : ((s.unlinkFromParent n).kfreeNode n).Sound :=
  sound.unlinked.freed (sound.unlinked_top used_d member)

/-- A linked node can be moved under another. -/
theorem moved {dir : N} {name : Name} : (s.moveNode n dir name).Sound := by
  refine (sound.unlinked.filled copyName_fits).linked ?_ (sound.unlinked_top used_d member)
  simpa [setNode, unlinkFromParent] using sound.nodes.used_child used_d member

end

variable {mem : Memory N D} {name : Name}

/-- A new node is in use, in no list, and leaves the others in use. -/
theorem made {mode : UInt32} (made : s.newNode mem name mode = some (n, s'))
    (used_d : s.nodes.used d) :
    s'.Sound ∧ s'.nodes.used d ∧ s'.nodes.used n ∧ s'.nodes.Top n := by
  simp only [newNode, map_eq_some_iff, Prod.mk.injEq] at made
  obtain ⟨b, claimed, rfl, rfl⟩ := made
  have free := (kmalloc_eq_some.1 claimed).2
  have other : d ≠ b := by
    rintro rfl
    simp [used_d] at free
  exact ⟨sound.claimed free copyName_fits,
    (s.nodes.claim_used_of_ne b other).trans used_d, s.nodes.claim_used_self b,
    Forest.Linked.top_claim (sound.nodes.top_of_not_used free)⟩

variable [DecidableEq D]

omit [DecidableEq N] in
theorem built (build : s.buildDentry mem parent n name = some s') : s'.Sound := by
  unfold buildDentry at build
  split at build
  · obtain ⟨x, claimed, rfl⟩ := map_eq_some_iff.1 build
    have free := (kmalloc_eq_some.1 claimed).2
    refine ⟨⟨sound.nodes, (sound.dentries.claimed free).linked_link (s.dentries.claim_used_self x)
      (Forest.Linked.top_claim (sound.dentries.top_of_not_used free)), sound.name_fits⟩, ?_⟩
    intro d used_d
    dsimp only
    by_cases here : d = x
    · rw [here, update_self]
      exact copyName_fits
    · rw [update_of_ne here]
      exact sound.dentry_name_fits d ((s.dentries.claim_used_of_ne x here).symm.trans used_d)
  · cases build

omit [DecidableEq N] in
theorem dentry_removed (used_parent : s.dentries.used parent) :
    (s.removeVfsDentry parent name).Sound := by
  unfold removeVfsDentry
  split
  · exact sound
  · next x found =>
      refine ⟨⟨sound.nodes, sound.dentries.unlinkedFrom.discarded
        (sound.dentries.top_unlinkFrom used_parent (mem_of_find?_eq_some found)),
        sound.name_fits⟩, fun d used_d => sound.dentry_name_fits d ?_⟩
      by_cases here : d = x
      · simp [here] at used_d
      · exact ((s.dentries.unlinkFrom parent x).discard_used_of_ne x here).symm.trans used_d

section

variable (used_d : s.nodes.used d) (used_n : s.nodes.used n) (top : s.nodes.Top n)
include used_d used_n top

theorem attached : (s.attach mem dir d n name).2.Sound := by
  have linked : (s.linkNode d n).Sound := sound.linked used_n top
  unfold attach
  dsimp only
  split
  · exact linked.removed used_d (by simp [linkNode])
  · next build => exact linked.built build

theorem attached_dir : (s.attachDir mem dir d n name).2.Sound := by
  have linked : (s.linkNode d n).Sound := sound.linked used_n top
  unfold attachDir
  dsimp only
  split
  · exact ((linked.counted used_d).counted used_d).removed used_d
      (by simp [linkNode, setNlinks, setNode])
  · next build => exact (linked.counted used_d).built build

end

end Sound

/-! ## What callers see -/

/-- The second state has the nodes of the first with their contents, the same names in every
directory, each denoting the same node, and lookup finds the same dentries. -/
structure Unchanged (s s' : Fs N D) : Prop where
  used : ∀ n, s.nodes.used n → s'.nodes.used n
  node : ∀ n, s.nodes.used n → s'.node n = s.node n
  names : ∀ p, s.nodes.used p → ∀ name, s'.findChild p name = s.findChild p name
  entries : ∀ d, s.dentries.used d → ∀ name, s'.findDentry d name = s.findDentry d name
  lookup : ∀ d, s.LiveDir (some d) → ∀ name, s'.lookupOp (some d) name = s.lookupOp (some d) name
  found : ∀ d, s.dentries.used d → s'.dentries.used d ∧ s'.dentry d = s.dentry d

theorem Unchanged.refl {s : Fs N D} : Unchanged s s :=
  ⟨fun _ used => used, fun _ _ => rfl, fun _ _ _ => rfl, fun _ _ _ => rfl, fun _ _ _ => rfl,
    fun _ used => ⟨used, rfl⟩⟩

variable {s s' : Fs N D} {n : N} {mem : Memory N D} {name : Name} {oldDirArg newDirArg : Option D}
  {oldNameArg newNameArg : Option Name}

/-- A state with the same dentries shows the same if its nodes do. -/
theorem Unchanged.of_nodes (dentries : s'.dentries = s.dentries) (dentry : s'.dentry = s.dentry)
    (used : ∀ n, s.nodes.used n → s'.nodes.used n)
    (node : ∀ n, s.nodes.used n → s'.node n = s.node n)
    (names : ∀ p, s.nodes.used p → ∀ name, s'.findChild p name = s.findChild p name) :
    Unchanged s s' := by
  refine ⟨used, node, names, ?_, ?_, ?_⟩
  · intro d _ name
    simp only [findDentry, dentries, dentry]
  · intro d live name
    cases name with
    | none => rfl
    | some name =>
      have same_node : s'.nodeOf d = s.nodeOf d := by simp only [nodeOf, dentry]
      simp only [lookupOp, findDentry, dentries, dentry, same_node]
      cases of_d : s.nodeOf d with
      | none => rfl
      | some n => simp only [node n ((live d rfl).2 n of_d)]
  · intro d used_d
    rw [dentries, dentry]
    exact ⟨used_d, rfl⟩

/-- Changes to a block that was not in use are not seen. -/
theorem Unchanged.of_fresh (linked : s.WellLinked) (free : s.nodes.used n = false)
    (dentries : s'.dentries = s.dentries) (dentry : s'.dentry = s.dentry)
    (used : ∀ p ≠ n, s'.nodes.used p = s.nodes.used p)
    (node : ∀ p ≠ n, s'.node p = s.node p)
    (children : ∀ p ≠ n, s'.nodes.children p = s.nodes.children p) : Unchanged s s' := by
  have other : ∀ {p : N}, s.nodes.used p → p ≠ n := by
    rintro p used_p rfl
    simp [used_p] at free
  refine .of_nodes dentries dentry (fun p used_p => (used p (other used_p)).trans used_p)
    (fun p used_p => node p (other used_p)) ?_
  intro p used_p name
  simp only [findChild, node p (other used_p), children p (other used_p)]
  split
  · refine find?_congr fun c member => ?_
    rw [node c (other (linked.nodes.used_child used_p member))]
  · rfl

/-! ## New nodes -/

theorem findChild_eq_some {d c : N} (found : s.findChild d name = some c) :
    (s.node d).isDir ∧ (s.nodes.children d).find? (fun c => (s.node c).name == name) = some c ∧
      c ∈ s.nodes.children d ∧ (s.node c).name = name := by
  unfold findChild at found
  split at found
  · next is_dir =>
      exact ⟨is_dir, found, mem_of_find?_eq_some found, by simpa using find?_some found⟩
  · cases found

variable [DecidableEq N]

/-- Counting a link and taking it off again restores the state. -/
theorem setNlinks_back {d : N} (before : (s.node d).nlinks = count) {between : Nat} :
    (s.setNlinks d between).setNlinks d count = s := by
  subst before
  simp [setNlinks, setNode]

/-- The second state differs from the first by a node that was claimed and perhaps filled in. -/
structure OnlyNew (s : Fs N D) (n : N) (s' : Fs N D) : Prop where
  nodes : s'.nodes = s.nodes.claim n
  node : ∀ p ≠ n, s'.node p = s.node p
  dentries : s'.dentries = s.dentries
  dentry : s'.dentry = s.dentry

namespace OnlyNew

theorem of_newNode {mode : UInt32} (made : s.newNode mem name mode = some (n, s')) :
    s.nodes.used n = false ∧ OnlyNew s n s' := by
  simp only [newNode, map_eq_some_iff, Prod.mk.injEq] at made
  obtain ⟨b, claimed, rfl, rfl⟩ := made
  refine ⟨(kmalloc_eq_some.1 claimed).2, ⟨rfl, ?_, rfl, rfl⟩⟩
  intro p other
  exact update_of_ne other _ _

variable (new : OnlyNew s n s')
include new

theorem filled {fields : Node} : OnlyNew s n (s'.setNode n fields) :=
  ⟨new.nodes, fun p other => (update_of_ne other _ _).trans (new.node p other),
    new.dentries, new.dentry⟩

variable (linked : s.WellLinked) (free : s.nodes.used n = false)
include linked free

/-- A new node that is freed again leaves no trace. -/
theorem freed : Unchanged s (s'.kfreeNode n) := by
  refine .of_fresh linked free new.dentries new.dentry ?_ new.node ?_
  · intro p other
    simp [kfreeNode, new.nodes, Forest.discard_used_of_ne _ _ other,
      Forest.claim_used_of_ne _ _ other]
  · intro p other
    simp [kfreeNode, new.nodes, Forest.claim_children_of_ne _ _ other]

theorem taken_back {d : N} : Unchanged s (((s'.linkNode d n).unlinkFromParent n).kfreeNode n) := by
  refine .of_fresh linked free new.dentries new.dentry ?_ new.node ?_
  · intro p other
    simp [kfreeNode, unlinkFromParent, linkNode, new.nodes, Forest.discard_used_of_ne _ _ other,
      Forest.claim_used_of_ne _ _ other]
  · intro p other
    simp [kfreeNode, unlinkFromParent, linkNode, new.nodes, Forest.unlink_link_children,
      Forest.claim_children_of_ne _ _ other]

variable [DecidableEq D] {dir : D} {d : N}

theorem attach_fails (failed : (s'.attach mem dir d n name).1 = -1) :
    Unchanged s (s'.attach mem dir d n name).2 := by
  unfold attach at failed ⊢
  dsimp only at failed ⊢
  split
  · exact new.taken_back linked free
  · next built =>
      simp [built] at failed

theorem attachDir_fails (failed : (s'.attachDir mem dir d n name).1 = -1) :
    Unchanged s (s'.attachDir mem dir d n name).2 := by
  unfold attachDir at failed ⊢
  dsimp only at failed ⊢
  split
  · have counted : (((s'.linkNode d n).setNlinks d (((s'.linkNode d n).node d).nlinks + 1)).node
        d).nlinks - 1 = ((s'.linkNode d n).node d).nlinks := by
      simp [setNlinks, setNode]
    rw [counted, setNlinks_back rfl]
    exact new.taken_back linked free
  · next built =>
      simp [built] at failed

end OnlyNew

section

variable (s n) (dir : N) (name)

@[simp] theorem moveNode_dentries : (s.moveNode n dir name).dentries = s.dentries := rfl

@[simp] theorem moveNode_dentry : (s.moveNode n dir name).dentry = s.dentry := rfl

@[simp] theorem moveNode_used : (s.moveNode n dir name).nodes.used = s.nodes.used := by
  simp [moveNode, linkNode, setNode, unlinkFromParent]

end

variable [DecidableEq D] {directory : Bool} {before : Fs N D} {rootDentry x : D} {root : N}

/-! ## Each operation -/

section Operations

variable {dir : Option D} {name : Option Name} {mode : UInt32}

theorem removeOp_fails (failed : (s.removeOp dir name directory).1 = -1) :
    Unchanged s (s.removeOp dir name directory).2 := by
  rcases s.removeOp_cases dir name directory with
    same | ⟨_, _, _, _, -, -, -, -, -, -, run⟩
  · rw [same]
    exact .refl
  · simp [run] at failed

omit [DecidableEq D] in
/-- An operation that adds a name leaves no trace when the way it finishes does not. -/
theorem addOp_fails {finish : Fs N D → Memory N D → D → N → N → Name → Int × Fs N D}
    (fails : ∀ {s' n dir d name}, OnlyNew s n s' → s.nodes.used n = false →
      (finish s' mem dir d n name).1 = -1 → Unchanged s (finish s' mem dir d n name).2)
    (failed : (s.addOp mem mode finish dir name).1 = -1) :
    Unchanged s (s.addOp mem mode finish dir name).2 := by
  rcases s.addOp_cases mem dir name mode finish with same | ⟨_, _, _, _, _, -, -, made, run⟩
  · rw [same]
    exact .refl
  · obtain ⟨free, new⟩ := OnlyNew.of_newNode made
    rw [run] at failed ⊢
    exact fails new free failed

theorem symlinkOp_fails (linked : s.WellLinked) {target : Option Name}
    (failed : (s.symlinkOp mem dir name target).1 = -1) :
    Unchanged s (s.symlinkOp mem dir name target).2 := by
  rcases s.symlinkOp_cases mem dir name target with
    same | ⟨_, _, _, _, _, _, -, made, run | ⟨buffer, run⟩⟩
  · rw [same]
    exact .refl
  · obtain ⟨free, new⟩ := OnlyNew.of_newNode made
    rw [run]
    exact new.filled.freed linked free
  · obtain ⟨free, new⟩ := OnlyNew.of_newNode made
    rw [run] at failed ⊢
    exact (new.filled.filled).attach_fails linked free failed

end Operations

/-! ## Renaming -/

section Rename

variable {oldDir newDir : D} {od nd : N} {oldName newName : Name} (s)

omit [DecidableEq N] in
theorem removeVfsDentry_nodes (parent : D) (name : Name) :
    (s.removeVfsDentry parent name).nodes = s.nodes ∧
      (s.removeVfsDentry parent name).node = s.node := by
  unfold removeVfsDentry
  split <;> exact ⟨rfl, rfl⟩

theorem movedAway_back (oldDir : D) (nd : N) (newName : Name)
    (parent_n : s.nodes.parent n = some od) (named : (s.node n).name = oldName)
    (fits : oldName.length ≤ ramfsMaxName) :
    ((s.movedAway oldDir nd n oldName newName).moveNode n od oldName).node = s.node ∧
      ((s.movedAway oldDir nd n oldName newName).moveNode n od oldName).nodes.children =
        update s.nodes.children od (n :: (s.nodes.children od).erase n) := by
  obtain ⟨nodes, node⟩ := (s.moveNode n nd newName).removeVfsDentry_nodes oldDir oldName
  constructor
  · have copied : copyName (s.node n).name = (s.node n).name := by
      rw [named]
      exact take_of_length_le fits
    simp only [movedAway, moveNode, setNode, linkNode, unlinkFromParent] at node ⊢
    rw [node]
    simp [← named, copied]
  · simp only [movedAway, moveNode, setNode, linkNode, unlinkFromParent] at nodes ⊢
    rw [nodes]
    funext p
    by_cases here : p = od
    · subst here
      rw [Forest.link_children_self, Forest.unlink_link_children, update_self,
        Forest.unlink_of_parent parent_n, Forest.unlinkFrom_children_self]
    · rw [Forest.link_children_of_ne _ _ _ here, Forest.unlink_link_children,
        update_of_ne here, Forest.unlink_of_parent parent_n,
        Forest.unlinkFrom_children_of_ne _ _ _ here]

variable {s}

theorem rename_taken_back (linked : s.WellLinked) (used_od : s.nodes.used od)
    (found : s.findChild od oldName = some n) (no_dentry : s.findDentry oldDir oldName = none) :
    Unchanged s ((s.movedAway oldDir nd n oldName newName).moveNode n od oldName) := by
  obtain ⟨is_dir, first, member, named⟩ := findChild_eq_some found
  have fits : oldName.length ≤ ramfsMaxName := by
    rw [← named]
    exact linked.name_fits n (linked.nodes.used_child used_od member)
  obtain ⟨node, children⟩ := s.movedAway_back oldDir nd newName
    (linked.nodes.parent_child used_od member) named fits
  have kept : s.movedAway oldDir nd n oldName newName = s.moveNode n nd newName := by
    have none_left : (s.moveNode n nd newName).findDentry oldDir oldName = none := no_dentry
    simp [movedAway, removeVfsDentry, none_left]
  refine .of_nodes (by simp [kept]) (by simp [kept]) (by simp [kept]) (by simp [node]) ?_
  intro p used_p name
  simp only [findChild, node, children]
  by_cases here : p = od
  · subst here
    rw [update_self, find?_front first]
  · rw [update_of_ne here]

theorem rename_loses (linked : s.WellLinked) (used_oldDir : s.dentries.used oldDir)
    (dentry : s.findDentry oldDir oldName = some x) :
    ((s.movedAway oldDir nd n oldName newName).moveNode n od oldName).findDentry oldDir oldName ≠
      some x := by
  have still : (s.moveNode n nd newName).findDentry oldDir oldName = some x := dentry
  intro found
  have member := mem_of_find?_eq_some found
  simp only [movedAway, removeVfsDentry, still, moveNode_dentries, Forest.discard_children,
    Forest.unlinkFrom_children_self] at member
  exact (linked.dentries.nodup used_oldDir).not_mem_erase member

end Rename

/-! ## All operations -/

/-- The call is a rename that gets to its edits, finds an old dentry and gets no memory for the
new one. `kmalloc` may return the block of the old dentry, which has been freed by then. -/
def LosesDentry (s : Fs N D) (mem : Memory N D) : Op D → Prop
  | .rename oldDirArg oldNameArg newDirArg newNameArg =>
    ∃ oldDir newDir od nd n oldName newName x,
      s.Renames oldDirArg oldNameArg newDirArg newNameArg oldDir newDir od nd n oldName newName ∧
      s.findDentry oldDir oldName = some x ∧
      (mem.inode = false ∨ kmalloc (s.dentries.discard x).used mem.dentry = none)
  | _ => False

omit [DecidableEq N] in
theorem buildDentry_eq_none {parent : D} :
    s.buildDentry mem parent n name = none ↔
      mem.inode = false ∨ kmalloc s.dentries.used mem.dentry = none := by
  unfold buildDentry
  cases mem.inode <;> simp

theorem movedAway_used {oldDir : D} {nd : N} {oldName newName : Name}
    (dentry : s.findDentry oldDir oldName = some x) :
    (s.movedAway oldDir nd n oldName newName).dentries.used = (s.dentries.discard x).used := by
  have still : (s.moveNode n nd newName).findDentry oldDir oldName = some x := dentry
  simp only [movedAway, removeVfsDentry, still]
  rfl

theorem renameOp_loses (linked : s.WellLinked) (live : s.LiveDir oldDirArg)
    (loses : s.LosesDentry mem (.rename oldDirArg oldNameArg newDirArg newNameArg)) :
    (s.renameOp mem oldDirArg oldNameArg newDirArg newNameArg).1 = -1 ∧
      ¬ Unchanged s (s.renameOp mem oldDirArg oldNameArg newDirArg newNameArg).2 := by
  obtain ⟨oldDir, newDir, od, nd, n, oldName, newName, x, renames, dentry, failed⟩ := loses
  have not_built : (s.movedAway oldDir nd n oldName newName).buildDentry mem newDir n newName =
      none := by
    rw [buildDentry_eq_none, movedAway_used dentry]
    exact failed
  have used_oldDir := (live oldDir renames.oldDir_eq).1
  rw [s.renameOp_of_renames mem _ _ renames, not_built]
  refine ⟨rfl, fun unchanged => ?_⟩
  exact rename_loses linked used_oldDir dentry
    ((unchanged.entries oldDir used_oldDir oldName).trans dentry)

/-- A failed rename that does not lose the dentry leaves no trace. -/
theorem renameOp_fails (linked : s.WellLinked) (live : s.LiveDir oldDirArg)
    (keeps : ¬ s.LosesDentry mem (.rename oldDirArg oldNameArg newDirArg newNameArg))
    (failed : (s.renameOp mem oldDirArg oldNameArg newDirArg newNameArg).1 = -1) :
    Unchanged s (s.renameOp mem oldDirArg oldNameArg newDirArg newNameArg).2 := by
  rcases s.renameOp_cases mem oldDirArg oldNameArg newDirArg newNameArg with
    same | ⟨oldDir, newDir, od, nd, n, oldName, newName, renames⟩
  · rw [same]
    exact .refl
  rw [s.renameOp_of_renames mem _ _ renames] at failed ⊢
  cases built : (s.movedAway oldDir nd n oldName newName).buildDentry mem newDir n newName with
  | some after => simp [built] at failed
  | none =>
    have used_od := (live oldDir renames.oldDir_eq).2 od renames.oldNode
    refine rename_taken_back linked used_od renames.found ?_
    cases dentry : s.findDentry oldDir oldName with
    | none => rfl
    | some x =>
      rw [buildDentry_eq_none, movedAway_used dentry] at built
      exact absurd ⟨oldDir, newDir, od, nd, n, oldName, newName, x, renames, dentry, built⟩ keeps

/-! ## Runs -/

/-- A call with what `kmalloc` returns to it. -/
abbrev Call (N : Type u) (D : Type v) := Memory N D × Op D

/-- The state after a call. -/
def step (s : Fs N D) (call : Call N D) : Fs N D := (s.perform call.1 call.2).2

section Step

theorem Sound.removed_op (sound : s.Sound) {dir : Option D} (live : s.LiveDir dir)
    {name : Option Name} : (s.removeOp dir name directory).2.Sound := by
  rcases s.removeOp_cases dir name directory with
    same | ⟨d, p, name, c, rfl, rfl, of_dir, found, -, -, run⟩
  · rw [same]
    exact sound
  · obtain ⟨used_dir, used_node⟩ := live d rfl
    have used_p := used_node p of_dir
    have member := (findChild_eq_some found).2.2.1
    rw [run]
    exact ((sound.counted used_p).removed used_p member).dentry_removed used_dir

theorem Sound.renamed (sound : s.Sound) {oldDirArg newDirArg : Option D}
    (oldLive : s.LiveDir oldDirArg) (newLive : s.LiveDir newDirArg) :
    (s.renameOp mem oldDirArg oldNameArg newDirArg newNameArg).2.Sound := by
  rcases s.renameOp_cases mem oldDirArg oldNameArg newDirArg newNameArg with
    same | ⟨oldDir, newDir, od, nd, n, oldName, newName, renames⟩
  · rw [same]
    exact sound
  obtain ⟨used_oldDir, used_od⟩ := oldLive oldDir renames.oldDir_eq
  have used_nd := (newLive newDir renames.newDir_eq).2 nd renames.newNode
  have member := (findChild_eq_some renames.found).2.2.1
  have away : (s.movedAway oldDir nd n oldName newName).Sound :=
    (sound.moved (used_od od renames.oldNode) member).dentry_removed used_oldDir
  rw [s.renameOp_of_renames mem _ _ renames]
  split
  · have nodes := ((s.moveNode n nd newName).removeVfsDentry_nodes oldDir oldName).1
    refine away.moved (d := nd) ?_ ?_
    · rw [movedAway, nodes]
      simpa using used_nd
    · rw [movedAway, nodes]
      simp [moveNode, linkNode]
  · next build => exact away.built build

omit [DecidableEq D] in
theorem Sound.added_op (sound : s.Sound) {dir : Option D} (live : s.LiveDir dir)
    {name : Option Name} {mode : UInt32}
    {finish : Fs N D → Memory N D → D → N → N → Name → Int × Fs N D}
    (keeps : ∀ {s' : Fs N D} {n dir d name}, s'.Sound → s'.nodes.used d → s'.nodes.used n →
      s'.nodes.Top n → (finish s' mem dir d n name).2.Sound) :
    (s.addOp mem mode finish dir name).2.Sound := by
  rcases s.addOp_cases mem dir name mode finish with
    same | ⟨dir, d, name, n, s', adds, -, made, run⟩
  · rw [same]
    exact sound
  · obtain ⟨sound', used_d, used_n, top⟩ := sound.made made ((live dir adds.dir_eq).2 d adds.node)
    rw [run]
    exact keeps sound' used_d used_n top

/-- **Every call on live directories keeps a state well formed,** whether it fails or not. -/
theorem Sound.step (sound : s.Sound) {call : Call N D} (live : s.LiveDirs call.2) :
    (s.step call).Sound := by
  obtain ⟨mem, op⟩ := call
  cases op with
  | create dir name mode => exact sound.added_op live fun sound' => sound'.attached
  | mkdir dir name mode => exact sound.added_op live fun sound' => sound'.attached_dir
  | symlink dir name target =>
    show (s.symlinkOp mem dir name target).2.Sound
    rcases s.symlinkOp_cases mem dir name target with
      same | ⟨dir, d, name, n, s', target, adds, made, ran⟩
    · rw [same]
      exact sound
    obtain ⟨sound', used_d, used_n, top⟩ := sound.made made ((live dir adds.dir_eq).2 d adds.node)
    have sized := sound'.sized used_n target
    rcases ran with run | ⟨buffer, run⟩
    · rw [run]
      exact sized.freed top
    · have filled : (s'.withTarget n target buffer).Sound := sized.filled (sized.name_fits n used_n)
      rw [run]
      exact filled.attached used_d used_n top
  | unlink | rmdir => exact sound.removed_op live
  | rename oldDir oldName newDir newName => exact sound.renamed live.1 live.2

theorem mounted_linked [DecidableEq α] {before : Forest α} {root : α} : Forest.Linked
      { used := fun n => decide (n = root), parent := update before.parent root (some root)
        children := update before.children root [] : Forest α } := by
  have only : ∀ {p x : α}, decide (p = root) → x ∉ update before.children root [] p := by
    intro p x used_p
    simp [of_decide_eq_true used_p]
  refine ⟨fun used_p member => absurd member (only used_p),
    fun used_p member => absurd member (only used_p), fun used_p => ?_⟩
  simp [of_decide_eq_true used_p]

theorem mounted_sound : (mounted before root rootDentry).Sound := by
  refine ⟨⟨mounted_linked, mounted_linked, ?_⟩, ?_⟩
  · intro n used_n
    have same : n = root := by simpa [mounted] using used_n
    simp [mounted, same, ramfsMaxName]
  · intro d used_d
    have same : d = rootDentry := by simpa [mounted] using used_d
    simp [mounted, same, ramfsMaxName]

/-- **Every state reached from mounting by calls on live directories is well formed.** -/
theorem run_sound {calls : List (Call N D)}
    (live : Meets step (fun s call => s.LiveDirs call.2) (mounted before root rootDentry) calls) :
    (calls.foldl step (mounted before root rootDentry)).Sound :=
  live.invariant (P := Sound) (fun _ _ sound live => sound.step live) mounted_sound

end Step

end Fs

/-- **Failing without a trace.** An operation that returns an error shows its callers the state
from before the call, unless it is a rename that has freed the old dentry and gets no memory for
the new one. -/
theorem fails_atomically_iff {N : Type u} {D : Type v} [DecidableEq N] [DecidableEq D]
    (s : Fs N D) (linked : s.WellLinked) (mem : Memory N D) (op : Op D) (live : s.LiveDirs op) :
    ((s.perform mem op).1 = -1 → Fs.Unchanged s (s.perform mem op).2) ↔ ¬ s.LosesDentry mem op := by
  cases op with
  | create dir name mode =>
    exact ⟨fun _ => id, fun _ => Fs.addOp_fails fun new free => new.attach_fails linked free⟩
  | mkdir dir name mode =>
    exact ⟨fun _ => id, fun _ => Fs.addOp_fails fun new free => new.attachDir_fails linked free⟩
  | symlink dir name target => exact ⟨fun _ => id, fun _ => Fs.symlinkOp_fails linked⟩
  | unlink | rmdir => exact ⟨fun _ => id, fun _ => Fs.removeOp_fails⟩
  | rename oldDir oldName newDir newName =>
    constructor
    · intro atomic loses
      obtain ⟨failed, changed⟩ := Fs.renameOp_loses linked live.1 loses
      exact changed (atomic failed)
    · exact Fs.renameOp_fails linked live.1

/-- Memory in which nothing has been written. -/
def blankFs : Fs Nat Nat where
  nodes := { used := fun _ => false, parent := fun _ => none, children := fun _ => [] }
  node := fun _ =>
    { mode := 0, data := none, size := 0, capacity := 0, ino := 0, nlinks := 0, name := [] }
  dentries := { used := fun _ => false, parent := fun _ => none, children := fun _ => [] }
  dentry := fun _ => { name := [], inode := none }
  nextIno := 1

/-- The file system right after mounting. -/
def emptyFs : Fs Nat Nat := blankFs.mounted 0 0

/-- `mkdir` of `a` in the root, with memory for the node and none for the inode. -/
theorem mkdir_without_inode_unchanged :
    (emptyFs.perform ⟨some 1, none, false, none⟩ (.mkdir (some 0) (some [97]) 0)).1 = -1 ∧
      Fs.Unchanged emptyFs
        (emptyFs.perform ⟨some 1, none, false, none⟩ (.mkdir (some 0) (some [97]) 0)).2 := by
  have failed : (emptyFs.perform ⟨some 1, none, false, none⟩
      (.mkdir (some 0) (some [97]) 0)).1 = -1 := by
    decide +kernel
  refine ⟨failed, (fails_atomically_iff emptyFs Fs.mounted_sound.toWellLinked _ _ ?_).2 id failed⟩
  intro d same
  cases same
  refine ⟨rfl, fun n of_root => ?_⟩
  cases of_root
  rfl

/-- It leaves the file system well formed. -/
theorem mkdir_without_inode_sound :
    ([(⟨some 1, none, false, none⟩, .mkdir (some 0) (some [97]) 0)].foldl Fs.step emptyFs).Sound := by
  refine Fs.run_sound ⟨?_, trivial⟩
  rintro d ⟨⟩
  refine ⟨rfl, ?_⟩
  rintro n ⟨⟩
  rfl

/-- The file `a` renamed to `b`, with no memory for the new inode: the call fails, the node `a` is
in the root as before, and lookup does not find it any more. -/
theorem failed_rename_hides_the_file :
    let s := (emptyFs.perform ⟨some 1, none, true, some 1⟩ (.create (some 0) (some [97]) 0)).2
    let failed := s.perform ⟨none, none, false, none⟩
      (.rename (some 0) (some [97]) (some 0) (some [98]))
    failed.1 = -1 ∧ failed.2.findChild 0 [97] = s.findChild 0 [97] ∧
      s.lookupOp (some 0) (some [97]) = some 1 ∧
      failed.2.lookupOp (some 0) (some [97]) = none ∧ ¬ Fs.Unchanged s failed.2 := by
  refine ⟨by decide +kernel, by decide +kernel, by decide +kernel, by decide +kernel, ?_⟩
  intro unchanged
  exact absurd (unchanged.entries 0 (by decide +kernel) [97]) (by decide +kernel)

end FunsOS.Ramfs
