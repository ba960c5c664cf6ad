import FunsOS.Foundation.ChildLists
import FunsOS.Ramfs.File

/-!
# Directories of the ramfs

The ramfs of `fs/ramfs.c` keeps every directory twice: as a node with a list of child nodes,
and as a VFS dentry with a list of child dentries, each with an inode that points at its node.
Path lookup walks the dentries, the checks of the operations walk the nodes. Every operation
edits both structures, with calls of `kmalloc` between the edits.

A child list is a pointer to its first element and a link to the next sibling in each. A block
is in one list at a time, so the lists are modelled as lists of addresses (`Forest`). A C
string is the list of its bytes before the terminator. `nlinks` is a number without a bound. The
counter of the code has 32 bits: it wraps once `2^32` directories have been made in a directory
and renamed to another one, which takes no link off.
-/

set_option autoImplicit false

namespace FunsOS.Ramfs

open Foundation Option
open Function (update)

universe u v

/-- A C string. -/
abbrev Name := List UInt8

def fileModeRead : UInt32 := 0x01

def fileModeWrite : UInt32 := 0x02

def fileModeReg : UInt32 := 0x10

def fileModeLnk : UInt32 := 0x20

def ramfsMaxName : Nat := 255

/-- The fields of `ramfs_node_t` other than its links. -/
structure Node extends FileNode where
  ino : UInt32
  nlinks : Nat
  name : Name

/-- `mode & FILE_MODE_DIR`. -/
def Node.isDir (node : Node) : Bool := node.mode &&& fileModeDir != 0

/-- The fields of `inode_t` that the ramfs fills in from a node. -/
structure Inode (N : Type u) where
  ino : UInt32
  mode : UInt32
  size : Nat
  nlinks : Nat
  privateData : Option N

/-- The fields of `dentry_t` other than its links. -/
structure Dentry (N : Type u) where
  name : Name
  inode : Option (Inode N)

/-- The nodes, the dentries and `ramfs_next_ino`. -/
structure Fs (N : Type u) (D : Type v) where
  nodes : Forest N
  node : N → Node
  dentries : Forest D
  dentry : D → Dentry N
  nextIno : UInt32

/-- What the calls of `kmalloc` of one operation return, each `NULL` or a block. The contents
of a node and a dentry are zeroed at once; a buffer keeps what was in the block. -/
structure Memory (N : Type u) (D : Type v) where
  node : Option N
  data : Option (Nat → UInt8)
  inode : Bool
  dentry : Option D

/-- `kmalloc` returns `NULL` or a block that is not in use. -/
def kmalloc {α : Type u} (used : α → Bool) (block : Option α) : Option α :=
  block.filter fun b => !used b

/-- `strncpy` of at most `RAMFS_MAX_NAME` characters into the name of a node or a dentry. -/
def copyName (name : Name) : Name := name.take ramfsMaxName

def dot : Name := [46]

def dotDot : Name := [46, 46]

namespace Fs

variable {N : Type u} {D : Type v} [DecidableEq N] [DecidableEq D]

/-! ## Helpers -/

variable (s : Fs N D)

/-- `dir->inode->private_data`, `NULL` if one of the pointers is. -/
def nodeOf (dir : D) : Option N := (s.dentry dir).inode.bind Inode.privateData

/-- `ramfs_find_child`. -/
def findChild (dir : N) (name : Name) : Option N :=
  if (s.node dir).isDir then
    (s.nodes.children dir).find? fun c => (s.node c).name == name
  else none

/-- `ramfs_unlink_from_parent`. -/
def unlinkFromParent (n : N) : Fs N D := { s with nodes := s.nodes.unlink n }

def kfreeNode (n : N) : Fs N D := { s with nodes := s.nodes.discard n }

/-- Sets the parent of a node and puts it in front of the children of that parent. -/
def linkNode (dir n : N) : Fs N D := { s with nodes := s.nodes.link dir n }

def setNode (n : N) (fields : Node) : Fs N D :=
  { s with node := update s.node n fields }

def setNlinks (n : N) (count : Nat) : Fs N D :=
  s.setNode n { s.node n with nlinks := count }

/-- The fields that `ramfs_new_node` gives a node. -/
def newFields (name : Name) (mode : UInt32) : Node where
  mode
  data := none
  size := 0
  capacity := 0
  ino := s.nextIno
  nlinks := if mode &&& fileModeDir != 0 then 2 else 1
  name := copyName name

/-- A node block claimed from the heap, with its fields and an inode number. -/
def claimNode (n : N) (fields : Node) : Fs N D :=
  { s with
    nodes := s.nodes.claim n
    node := update s.node n fields
    nextIno := s.nextIno + 1 }

variable (mem : Memory N D)

/-- `ramfs_new_node`; `none` is `NULL`. -/
def newNode (name : Name) (mode : UInt32) : Option (N × Fs N D) :=
  (kmalloc s.nodes.used mem.node).map fun n => (n, s.claimNode n (s.newFields name mode))

/-- The inode that `ramfs_build_dentry` makes for a node. -/
def inodeFor (n : N) : Inode N where
  ino := (s.node n).ino
  mode := (s.node n).mode
  size := (s.node n).size
  nlinks := (s.node n).nlinks
  privateData := some n

/-- `ramfs_build_dentry`; `none` is `NULL`, with nothing changed. -/
def buildDentry (parent : D) (n : N) (name : Name) : Option (Fs N D) :=
  if mem.inode then
    (kmalloc s.dentries.used mem.dentry).map fun d =>
      { s with
        dentries := (s.dentries.claim d).link parent d
        dentry := update s.dentry d
          { name := copyName name, inode := some (s.inodeFor n) } }
  else none

def findDentry (parent : D) (name : Name) : Option D :=
  (s.dentries.children parent).find? fun c => (s.dentry c).name == name

/-- `ramfs_remove_vfs_dentry`. -/
def removeVfsDentry (parent : D) (name : Name) : Fs N D :=
  match s.findDentry parent name with
  | none => s
  | some c => { s with dentries := (s.dentries.unlinkFrom parent c).discard c }

/-! ## Operations

Each returns the code of the C function and the state after it. A pointer argument may be
`NULL`. -/

/-- `ramfs_lookup_op`. -/
def lookupOp (dir : Option D) (name : Option Name) : Option D :=
  match dir, name with
  | some dir, some name =>
    match s.nodeOf dir with
    | none => none
    | some d =>
      if (s.node d).isDir then
        if name = dot then some dir
        else if name = dotDot then s.dentries.parent dir
        else s.findDentry dir name
      else none
  | _, _ => none

/-- The end of `ramfs_create_op` and `ramfs_symlink_op`: a new node is linked, and unlinked
and freed again if it gets no dentry. -/
def attach (dir : D) (d n : N) (name : Name) : Int × Fs N D :=
  let s := s.linkNode d n
  match s.buildDentry mem dir n name with
  | none => (-1, (s.unlinkFromParent n).kfreeNode n)
  | some s => (0, s)

/-- The end of `ramfs_mkdir_op`: as `attach`, with the link that the new directory has to its
parent counted, and taken off again if there is no dentry. -/
def attachDir (dir : D) (d n : N) (name : Name) : Int × Fs N D :=
  let s := s.linkNode d n
  let s := s.setNlinks d ((s.node d).nlinks + 1)
  match s.buildDentry mem dir n name with
  | none =>
    let s := s.setNlinks d ((s.node d).nlinks - 1)
    (-1, (s.unlinkFromParent n).kfreeNode n)
  | some s => (0, s)

/-- The checks of `ramfs_create_op` and `ramfs_mkdir_op`, which finish a new node in different
ways. -/
def addOp (mode : UInt32) (finish : Fs N D → Memory N D → D → N → N → Name → Int × Fs N D)
    (dir : Option D) (name : Option Name) : Int × Fs N D :=
  match dir, name with
  | some dir, some name =>
    match s.nodeOf dir with
    | none => (-1, s)
    | some d =>
      if (s.node d).isDir then
        if (s.findChild d name).isSome then (-1, s)
        else
          match s.newNode mem name mode with
          | none => (-1, s)
          | some (n, s) => finish s mem dir d n name
      else (-1, s)
  | _, _ => (-1, s)

/-- `ramfs_create_op`. -/
def createOp (dir : Option D) (name : Option Name) (mode : UInt32) : Int × Fs N D :=
  s.addOp mem (mode ||| fileModeReg) attach dir name

/-- `ramfs_mkdir_op`. -/
def mkdirOp (dir : Option D) (name : Option Name) (mode : UInt32) : Int × Fs N D :=
  s.addOp mem ((mode &&& ~~~fileModeReg) ||| fileModeDir) attachDir dir name

/-- `ramfs_symlink_op`. It does not check that the parent is a directory. -/
def symlinkOp (dir : Option D) (name target : Option Name) : Int × Fs N D :=
  match dir, name, target with
  | some dir, some name, some target =>
    match s.nodeOf dir with
    | none => (-1, s)
    | some d =>
      if (s.findChild d name).isSome then (-1, s)
      else
        match s.newNode mem name (fileModeLnk ||| fileModeRead) with
        | none => (-1, s)
        | some (n, s) =>
          let s := s.setNode n { s.node n with
            size := target.length, capacity := target.length + 1 }
          match mem.data with
          | none => (-1, s.kfreeNode n)
          | some buffer =>
            (s.setNode n { s.node n with
              data := some (storeBytes buffer 0 (target ++ [0])) }).attach mem dir d n name
  | _, _, _ => (-1, s)

/-- `ramfs_remove_node`. -/
def removeNode (parent n : N) : Int × Fs N D :=
  if (s.node n).isDir then
    if s.nodes.children n ≠ [] then (-1, s)
    else
      let s := if (s.node parent).nlinks > 0 then
          s.setNlinks parent ((s.node parent).nlinks - 1) else s
      (0, (s.unlinkFromParent n).kfreeNode n)
  else (0, (s.unlinkFromParent n).kfreeNode n)

/-- The common body of `ramfs_unlink_op` and `ramfs_rmdir_op`, which differ in the kind of node
they remove. -/
def removeOp (dir : Option D) (name : Option Name) (directory : Bool) : Int × Fs N D :=
  match dir, name with
  | some dir, some name =>
    match s.nodeOf dir with
    | none => (-1, s)
    | some d =>
      match s.findChild d name with
      | none => (-1, s)
      | some c =>
        if (s.node c).isDir = directory then
          let (ret, s) := s.removeNode d c
          (ret, if ret = 0 then s.removeVfsDentry dir name else s)
        else (-1, s)
  | _, _ => (-1, s)

/-- `ramfs_unlink_op`. -/
def unlinkOp (dir : Option D) (name : Option Name) : Int × Fs N D :=
  s.removeOp dir name false

/-- `ramfs_rmdir_op`. -/
def rmdirOp (dir : Option D) (name : Option Name) : Int × Fs N D :=
  s.removeOp dir name true

/-- Takes a node out of its list, renames it and puts it under another parent. -/
def moveNode (n dir : N) (name : Name) : Fs N D :=
  ((s.unlinkFromParent n).setNode n { s.node n with name := copyName name }).linkNode dir n

/-- `ramfs_rename_op`. -/
def renameOp (oldDir : Option D) (oldName : Option Name) (newDir : Option D)
    (newName : Option Name) : Int × Fs N D :=
  match oldDir, oldName, newDir, newName with
  | some oldDir, some oldName, some newDir, some newName =>
    match s.nodeOf oldDir, s.nodeOf newDir with
    | some od, some nd =>
      match s.findChild od oldName with
      | none => (-1, s)
      | some n =>
        if (s.findChild nd newName).isSome then (-1, s)
        else
          let s := (s.moveNode n nd newName).removeVfsDentry oldDir oldName
          match s.buildDentry mem newDir n newName with
          | none => (-1, s.moveNode n od oldName)
          | some s => (0, s)
    | _, _ => (-1, s)
  | _, _, _, _ => (-1, s)

/-! ## Mounting -/

/-- The state after `vfs_init` and `ramfs_mount` at `/`: the root node and the root dentry,
which are their own parents. Everything else in memory is as it was `before`. -/
def mounted (before : Fs N D) (root : N) (rootDentry : D) : Fs N D where
  nodes :=
    { used := fun n => n = root
      parent := update before.nodes.parent root (some root)
      children := update before.nodes.children root [] }
  node := update before.node root
    { mode := fileModeDir ||| fileModeRead ||| fileModeWrite, data := none, size := 0
      capacity := 0, ino := 1, nlinks := 2, name := [47] }
  dentries :=
    { used := fun d => d = rootDentry
      parent := update before.dentries.parent rootDentry (some rootDentry)
      children := update before.dentries.children rootDentry [] }
  dentry := update before.dentry rootDentry
    { name := [47]
      inode := some { ino := 1, mode := fileModeDir ||| fileModeRead ||| fileModeWrite, size := 0
                      nlinks := 1, privateData := some root } }
  nextIno := 2

end Fs

/-! ## What an operation can do

An operation changes nothing, or it has found its directories and gets to its edits. -/

namespace Fs

variable {N : Type u} {D : Type v} [DecidableEq N] [DecidableEq D] {d : N}

/-- The arguments of an operation that adds a name: a directory with its node. -/
structure Adds (s : Fs N D) (dirArg : Option D) (nameArg : Option Name) (dir : D) (d : N)
    (name : Name) : Prop where
  dir_eq : dirArg = some dir
  name_eq : nameArg = some name
  node : s.nodeOf dir = some d

section Cases

variable (s : Fs N D) (mem : Memory N D) (dirArg : Option D) (nameArg : Option Name)

omit [DecidableEq D] in
theorem addOp_cases (mode : UInt32)
    (finish : Fs N D → Memory N D → D → N → N → Name → Int × Fs N D) :
    s.addOp mem mode finish dirArg nameArg = (-1, s) ∨
      ∃ dir d name n s', s.Adds dirArg nameArg dir d name ∧ (s.node d).isDir ∧
        s.newNode mem name mode = some (n, s') ∧
        s.addOp mem mode finish dirArg nameArg = finish s' mem dir d n name := by
  unfold addOp
  split
  · next dir name =>
      cases of_dir : s.nodeOf dir with
      | none => exact .inl rfl
      | some d =>
        dsimp only
        split_ifs with is_dir
        · exact .inl rfl
        · cases made : s.newNode mem name mode with
          | none => exact .inl rfl
          | some pair =>
            exact .inr ⟨dir, d, name, pair.1, pair.2, ⟨rfl, rfl, of_dir⟩, is_dir, made, rfl⟩
        · exact .inl rfl
  · exact .inl rfl

def withSize (n : N) (target : Name) : Fs N D :=
  s.setNode n { s.node n with size := target.length, capacity := target.length + 1 }

/-- A node filled in as a symbolic link. -/
def withTarget (n : N) (target : Name) (buffer : Nat → UInt8) : Fs N D :=
  let s := s.withSize n target
  s.setNode n { s.node n with data := some (storeBytes buffer 0 (target ++ [0])) }

theorem symlinkOp_cases (targetArg : Option Name) :
    s.symlinkOp mem dirArg nameArg targetArg = (-1, s) ∨
      ∃ dir d name n s' target, s.Adds dirArg nameArg dir d name ∧
        s.newNode mem name (fileModeLnk ||| fileModeRead) = some (n, s') ∧
        (s.symlinkOp mem dirArg nameArg targetArg = (-1, (s'.withSize n target).kfreeNode n) ∨
          ∃ buffer, s.symlinkOp mem dirArg nameArg targetArg =
            (s'.withTarget n target buffer).attach mem dir d n name) := by
  unfold symlinkOp
  split
  · next dir name target =>
      cases of_dir : s.nodeOf dir with
      | none => exact .inl rfl
      | some d =>
        dsimp only
        split_ifs
        · exact .inl rfl
        · cases made : s.newNode mem name (fileModeLnk ||| fileModeRead) with
          | none => exact .inl rfl
          | some pair =>
            refine .inr ⟨dir, d, name, pair.1, pair.2, target, ⟨rfl, rfl, of_dir⟩, made, ?_⟩
            cases mem.data with
            | none => exact .inl rfl
            | some buffer => exact .inr ⟨buffer, rfl⟩
  · exact .inl rfl

/-- The state after `ramfs_remove_node` has removed a node. -/
def withoutNode (d c : N) : Fs N D :=
  ((s.setNlinks d ((s.node d).nlinks - if (s.node c).isDir then 1 else 0)).unlinkFromParent
    c).kfreeNode c

omit [DecidableEq D] in
theorem setNlinks_self : s.setNlinks d (s.node d).nlinks = s := by
  simp [setNlinks, setNode]

omit [DecidableEq D] in
/-- What `ramfs_remove_node` does to a file or an empty directory. -/
theorem removeNode_eq {c : N} (empty : (s.node c).isDir → s.nodes.children c = []) :
    s.removeNode d c = (0, s.withoutNode d c) := by
  unfold removeNode withoutNode
  by_cases is_dir : (s.node c).isDir
  · by_cases positive : (s.node d).nlinks > 0
    · simp [is_dir, empty is_dir, positive]
    · have zero : (s.node d).nlinks - 1 = (s.node d).nlinks := by omega
      simp [is_dir, empty is_dir, positive, zero, setNlinks_self]
  · simp [is_dir, setNlinks_self]

theorem removeOp_cases (directory : Bool) :
    s.removeOp dirArg nameArg directory = (-1, s) ∨
      ∃ dir d name c, dirArg = some dir ∧ nameArg = some name ∧ s.nodeOf dir = some d ∧
        s.findChild d name = some c ∧ (s.node c).isDir = directory ∧
        (directory → s.nodes.children c = []) ∧
        s.removeOp dirArg nameArg directory =
          (0, (s.withoutNode d c).removeVfsDentry dir name) := by
  unfold removeOp
  split
  · next dir name =>
      cases of_dir : s.nodeOf dir with
      | none => exact .inl rfl
      | some d =>
        dsimp only
        cases found : s.findChild d name with
        | none => exact .inl rfl
        | some c =>
          dsimp only
          by_cases kind : (s.node c).isDir = directory
          · rw [if_pos kind]
            by_cases full : (s.node c).isDir ∧ s.nodes.children c ≠ []
            · exact .inl (by simp [removeNode, full.1, full.2])
            · have empty : (s.node c).isDir → s.nodes.children c = [] :=
                fun is_dir => not_not.1 fun some_child => full ⟨is_dir, some_child⟩
              refine .inr ⟨dir, d, name, c, rfl, rfl, of_dir, found, kind, ?_, ?_⟩
              · exact fun dir_kind => empty (kind.trans dir_kind)
              · simp [s.removeNode_eq empty]
          · exact .inl (if_neg kind)
  · exact .inl rfl

/-- The arguments of a rename that gets to its edits. -/
structure Renames (s : Fs N D) (oldDirArg : Option D) (oldNameArg : Option Name)
    (newDirArg : Option D) (newNameArg : Option Name) (oldDir newDir : D) (od nd n : N)
    (oldName newName : Name) : Prop where
  oldDir_eq : oldDirArg = some oldDir
  oldName_eq : oldNameArg = some oldName
  newDir_eq : newDirArg = some newDir
  newName_eq : newNameArg = some newName
  oldNode : s.nodeOf oldDir = some od
  newNode : s.nodeOf newDir = some nd
  found : s.findChild od oldName = some n
  no_child : s.findChild nd newName = none

/-- The state in which a rename builds the new dentry. -/
def movedAway (oldDir : D) (nd n : N) (oldName newName : Name) : Fs N D :=
  (s.moveNode n nd newName).removeVfsDentry oldDir oldName

theorem renameOp_of_renames {newDirArg : Option D} {newNameArg : Option Name}
    {oldDir newDir : D} {od nd n : N} {oldName newName : Name}
    (renames : s.Renames dirArg nameArg newDirArg newNameArg oldDir newDir od nd n oldName newName) :
    s.renameOp mem dirArg nameArg newDirArg newNameArg =
      match (s.movedAway oldDir nd n oldName newName).buildDentry mem newDir n newName with
      | none => (-1, (s.movedAway oldDir nd n oldName newName).moveNode n od oldName)
      | some s => (0, s) := by
  obtain ⟨rfl, rfl, rfl, rfl, old_node, new_node, found, no_child⟩ := renames
  simp [renameOp, old_node, new_node, found, no_child, movedAway]

theorem renameOp_cases (newDirArg : Option D) (newNameArg : Option Name) :
    s.renameOp mem dirArg nameArg newDirArg newNameArg = (-1, s) ∨
      ∃ oldDir newDir od nd n oldName newName,
        s.Renames dirArg nameArg newDirArg newNameArg oldDir newDir od nd n oldName newName := by
  unfold renameOp
  split
  · next oldDir oldName newDir newName =>
      split
      · next od nd old_node new_node =>
          cases found : s.findChild od oldName with
          | none => exact .inl rfl
          | some n =>
            by_cases taken : (s.findChild nd newName).isSome
            · exact .inl (if_pos taken)
            · exact .inr ⟨oldDir, newDir, od, nd, n, oldName, newName, rfl, rfl, rfl, rfl,
                old_node, new_node, found, not_isSome_iff_eq_none.1 taken⟩
      · exact .inl rfl
  · exact .inl rfl

end Cases

end Fs

/-! ## Calls -/

/-- One of the operations with its arguments. -/
inductive Op (D : Type v) where
  | create (dir : Option D) (name : Option Name) (mode : UInt32)
  | mkdir (dir : Option D) (name : Option Name) (mode : UInt32)
  | symlink (dir : Option D) (name target : Option Name)
  | unlink (dir : Option D) (name : Option Name)
  | rmdir (dir : Option D) (name : Option Name)
  | rename (oldDir : Option D) (oldName : Option Name) (newDir : Option D) (newName : Option Name)

/-- An operation on a state, with what `kmalloc` returns to it. -/
def Fs.perform {N : Type u} {D : Type v} [DecidableEq N] [DecidableEq D] (s : Fs N D)
    (mem : Memory N D) : Op D → Int × Fs N D
  | .create dir name mode => s.createOp mem dir name mode
  | .mkdir dir name mode => s.mkdirOp mem dir name mode
  | .symlink dir name target => s.symlinkOp mem dir name target
  | .unlink dir name => s.unlinkOp dir name
  | .rmdir dir name => s.rmdirOp dir name
  | .rename oldDir oldName newDir newName => s.renameOp mem oldDir oldName newDir newName

end FunsOS.Ramfs
