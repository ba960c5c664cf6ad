import FunsOS.Fundb.Disk

/-!
# Tables across closing and opening

`fundb_close` writes the marked tables, and `fundb_load_tables` goes through the directory
with `while (vfs_readdir(dir, &entry) == 0)`. But `vfs_readdir` returns 1 with an entry and
0 at the end of the directory. So with an entry in the directory the loop is left before
its first round, and without one it never ends: `fundb_open` loads no table, whatever the
files hold, and only a database without tables is the same afterwards
(`reopened_same_iff`).
-/

set_option autoImplicit false

namespace FunsOS.Fundb

open Foundation List Session Database

/-- What a client sees of a table: its name, its columns as they lie in memory, its rows. -/
structure TableView where
  name : List UInt8
  columns : List (List UInt8)
  rows : List (List Cell)
  deriving DecidableEq

namespace Database

def view (db : Database) (t : Nat) : TableView where
  name := nameText 63 (db.tables t).name
  columns := (range (db.tables t).colCount).map fun j => columnBytes ((db.tables t).columns j)
  rows := db.rows t

def views (db : Database) : List TableView := (range db.tableCount).map db.view

theorem length_views (db : Database) : db.views.length = db.tableCount := by simp [views]

end Database

/-- The codes of `vfs_readdir`. -/
def vfsReaddir : ReaddirCodes := ⟨1, 0⟩

variable {entries : List (List UInt8)} {s : Session}

/-- The loop of `fundb_load_tables` loads nothing, and ends only if there is an entry. -/
theorem loadLoop_vfsReaddir (load : Database → List UInt8 → Option Database) (db : Database) :
    loadLoop vfsReaddir load entries db = if entries = [] then none else some db := by
  cases entries with
  | nil => rfl
  | cons entry entries => simp [loadLoop, vfsReaddir]

/-- Without tables there is nothing to write. -/
theorem close_of_no_tables (none : s.db.tableCount = 0) : s.close = some s := by
  rw [close, none]
  rfl

section

variable (heap : Nat → Nat → Nat → Chars) (memory : Nat → Nat → WalEntry)

theorem reopen_vfsReaddir (s : Session) : s.reopen vfsReaddir entries heap memory =
    if entries = [] then none else some { s with db := openedDatabase memory } := by
  rw [Session.reopen, loadLoop_vfsReaddir]
  split <;> rfl

/-- What closing and opening again leaves, from any session. -/
theorem reopen_keeps_iff (fpu : FloatUnit) (s : Session) :
    Returns (s.step fpu vfsReaddir (.reopen entries heap memory))
        (fun next => next.db.views.Perm s.db.views) ↔
      s.db.tableCount = 0 ∧ entries ≠ [] := by
  constructor
  · rintro ⟨next, stepped, same⟩
    obtain ⟨closed, -, opened⟩ := Option.bind_eq_some_iff.mp stepped
    rw [reopen_vfsReaddir] at opened
    by_cases empty : entries = []
    · rw [if_pos empty] at opened
      cases opened
    · rw [if_neg empty] at opened
      obtain rfl := Option.some.inj opened
      refine ⟨?_, empty⟩
      rw [← length_views, ← same.length_eq]
      rfl
  · rintro ⟨noTables, entry⟩
    rw [Session.step, close_of_no_tables noTables, Option.bind_some, reopen_vfsReaddir,
      if_neg entry]
    refine .of_some ?_
    have before : s.db.views = [] := List.length_eq_zero_iff.mp (s.db.length_views.trans noTables)
    rw [before]
    exact .refl _

end

/-- **Tables are lost.** After every run of the operations, whatever the directory held at
its start, closing and opening again gives the tables there were exactly if there were none
and the directory has an entry. -/
theorem reopened_same_iff (fpu : FloatUnit) (path : List UInt8) (files : Files)
    (memory memory' : Nat → Nat → WalEntry) (ops : List Op) (entries : List (List UInt8))
    (heap : Nat → Nat → Nat → Chars) :
    Returns (runPartial (step fpu vfsReaddir) (opened path files memory) ops) (fun s =>
        Returns (s.step fpu vfsReaddir (.reopen entries heap memory')) fun next =>
          next.db.views.Perm s.db.views) ↔
      Returns (runPartial (step fpu vfsReaddir) (opened path files memory) ops) fun s =>
        s.db.tableCount = 0 ∧ entries ≠ [] := by
  simp only [reopen_keeps_iff]

/-! ## A run -/

/-- Database `d` on an empty disk. -/
def emptyDisk : Session :=
  opened [100] (fun _ => none) fun _ _ => ⟨.insert, chars [], 0, [], false⟩

/-- Table `t` with a column `a` and one row. -/
def keepOne : List Op :=
  [.create [116] (some fun _ => ⟨chars [97], fundbTypeInt, 4, 0, 0, 0, 0⟩) 1,
    .insert [116] [⟨fundbTypeInt, 4, some [7, 0, 0, 0]⟩]]

/-- `t.tbl`. -/
def keptEntry : List UInt8 := [116, 46, 116, 98, 108]

/-- A table with a row, and its file in the directory; after opening again there is none. -/
theorem kept_table_is_lost :
    Returns (runPartial (step noFloats vfsReaddir) emptyDisk keepOne) fun s =>
      s.db.views.map (fun view => (view.name, view.rows)) =
          [([116], [[⟨fundbTypeInt, 4, some [7, 0, 0, 0]⟩]])] ∧
        Returns s.close fun closed =>
          (closed.files (dirPath [100] ++ 47 :: keptEntry)).isSome ∧
            Returns (closed.reopen vfsReaddir [keptEntry] (fun _ _ _ _ => 0)
              fun _ => emptyDisk.db.wal) fun next => next.db.views = [] := by
  have rows : (runPartial (step noFloats vfsReaddir) emptyDisk keepOne).map
      (fun s => s.db.views.map fun view => (view.name, view.rows)) =
        some [([116], [[⟨fundbTypeInt, 4, some [7, 0, 0, 0]⟩]])] := by decide +kernel
  have saved : ((runPartial (step noFloats vfsReaddir) emptyDisk keepOne).bind close).map
      (fun closed => (closed.files (dirPath [100] ++ 47 :: keptEntry)).isSome) = some true := by
    decide +kernel
  obtain ⟨s, ran, isRows⟩ := Option.map_eq_some_iff.mp rows
  rw [ran, Option.bind_some] at saved
  obtain ⟨closed, isClosed, isFile⟩ := Option.map_eq_some_iff.mp saved
  refine ⟨s, ran, isRows, closed, isClosed, isFile, ?_⟩
  rw [reopen_vfsReaddir]
  exact .of_some rfl

end FunsOS.Fundb
