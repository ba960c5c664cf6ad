import FunsOS.Fundb.File
import FunsOS.Fundb.Rows

/-!
# FunDB and its files

`fundb_open`, `fundb_load_tables`, `fundb_close` and the file part of `fundb_create_table`.
Every table has a file `/var/db/<database>/<table>.tbl`. Creating a table writes its file,
the other operations only mark the table, and closing writes the marked tables. Opening
goes through the directory and reads a table from every entry that ends in `.tbl`.

The file system is a map from paths to bytes: a write goes over the front of what the file
held. The order of a directory is not known. `vfs_readdir` returns a code with every entry
and another one at the end; the loop of `fundb_load_tables` goes on while the code is 0,
so the codes are parameters here. A path that does not fit its `char[256]` has no result,
nor has a loop that goes on behind the end of the directory.
-/

set_option autoImplicit false

namespace FunsOS.Fundb

open Foundation

/-! ## Paths -/

abbrev Files := List UInt8 → Option (List UInt8)

/-- `FUNDB_DB_PATH`, `/var/db/`. -/
def fundbDbPath : List UInt8 := [47, 118, 97, 114, 47, 100, 98, 47]

/-- `.tbl`. -/
def tblSuffix : List UInt8 := [46, 116, 98, 108]

/-- The name of a database: its path, cut at 255 characters, up to the first dot. -/
def dbName (path : List UInt8) : List UInt8 := (path.take 255).takeWhile (· != 46)

/-- The characters of a name up to its NUL, at most `limit`. -/
def nameText (limit : Nat) (name : Chars) : List UInt8 :=
  ((List.range limit).map name).takeWhile (· != 0)

/-- The directory `fundb_load_tables` opens. -/
def dirPath (path : List UInt8) : List UInt8 := fundbDbPath ++ (dbName path).take 200

/-- The path `fundb_write_table` and `fundb_read_table` build in a `char[256]`. -/
def tablePath (path : List UInt8) (name : Chars) : Option (List UInt8) :=
  let file := fundbDbPath ++ dbName path ++ 47 :: (nameText 58 name ++ tblSuffix)
  if file.length < 256 then some file else none

/-- Writing a file from its start: what it held behind the written bytes stays. -/
def writeFile (files : Files) (file bytes : List UInt8) : Files :=
  Function.update files file (some (bytes ++ ((files file).getD []).drop bytes.length))

/-! ## Writing -/

/-- An open database and the files. -/
structure Session where
  path : List UInt8
  db : Database
  files : Files

/-- The part of a table that its file holds. -/
def Database.tableData (db : Database) (t : Nat) : TableData where
  colCount := (db.tables t).colCount
  rowCount := (db.tables t).rowCount
  columns := (db.tables t).columns
  cells := fun i j => (db.rowAt ((db.tables t).rows i)).getD j nullCell

namespace Session

variable (s : Session)

/-- `fundb_write_table`. -/
def writeTable (t : Nat) : Option Session :=
  (tablePath s.path (s.db.tables t).name).map fun file =>
    { s with
      db := s.db.setTable t { s.db.tables t with dirty := false }
      files := writeFile s.files file (fundbWriteTable (s.db.tableData t)) }

/-- `fundb_create_table` with its write to the disk. -/
def createTable (name : List UInt8) (columns : Option (Nat → Column)) (colCount : Nat) :
    Option Session :=
  let created := fundbCreateTable s.db (chars name) columns colCount
  if created.2 = fundbOk then writeTable { s with db := created.1 } s.db.tableCount
  else some { s with db := created.1 }

/-- One slot of the loop of `fundb_close`. -/
def closeSlot (t : Nat) : Option Session :=
  if (s.db.tables t).dirty then s.writeTable t else some s

/-- `fundb_close`: the tables that are marked are written. -/
def close : Option Session := runPartial closeSlot s (List.range s.db.tableCount)

end Session

/-! ## Reading -/

/-- A column and a table after `memset`. -/
def zeroColumn : Column := ⟨fun _ => 0, 0, 0, 0, 0, 0, 0⟩

def zeroTable : Table where
  name := fun _ => 0
  columns := fun _ => zeroColumn
  colCount := 0
  rows := fun _ => 0
  rowCount := 0
  nextAutoId := 0
  dirty := false

def zeroData : TableData := ⟨0, 0, fun _ => zeroColumn, fun _ _ => nullCell⟩

/-- The database in `fundb_open` before its tables are loaded; `memory` is what the log
buffers hold. -/
def openedDatabase (memory : Nat → Nat → WalEntry) : Database where
  tables := fun _ => zeroTable
  tableCount := 0
  wal := memory 0
  walCount := 0
  walCapacity := 64
  inTransaction := false
  rowStore := fun _ => none
  nextRow := 0
  bufferMemory := memory
  buffers := 1

def tableEntry (entry : List UInt8) : Bool :=
  entry.head? != some 46 && 5 ≤ entry.length && entry.drop (entry.length - 4) == tblSuffix

/-- The largest id in a column, over the rows. -/
def maxId (data : TableData) (j : Nat) : Nat :=
  (List.range data.rowCount).foldl
    (fun best i =>
      match (data.cells i j).value with
      | some value =>
        if (data.cells i j).type = fundbTypeInt ∧ best < wordOfBytes value then wordOfBytes value
        else best
      | none => best) 0

/-- The next id of a loaded table, from its first column that is generated or a key. -/
def loadedAutoId (data : TableData) : Nat :=
  match (List.range data.colCount).find? fun j =>
    (data.columns j).autoIncrement != 0 || (data.columns j).primaryKey != 0 with
  | some j => (maxId data j + 1) % 2 ^ 32
  | none => 1

/-- Putting what was read into the next slot; at most `FUNDB_MAX_ROWS` rows are there. -/
def Database.addTable (db : Database) (name : Chars) (data : TableData) : Database :=
  let count := min data.rowCount fundbMaxRows
  { db with
    tables := Function.update db.tables db.tableCount
      { name
        columns := data.columns
        colCount := data.colCount
        rows := fun i => if i < count then db.nextRow + i else 0
        rowCount := data.rowCount
        nextAutoId := loadedAutoId data
        dirty := false }
    tableCount := db.tableCount + 1
    rowStore := fun ref =>
      if db.nextRow ≤ ref ∧ ref < db.nextRow + count then
        some ((List.range data.colCount).map (data.cells (ref - db.nextRow)))
      else db.rowStore ref
    nextRow := db.nextRow + count }

/-- The body of the loop of `fundb_load_tables` for a table entry. The file is found again
by the name of the table. A file that cannot be opened leaves a slot that is not counted. -/
def loadTable (path : List UInt8) (files : Files) (heap : Nat → Nat → Nat → Chars)
    (db : Database) (entry : List UInt8) : Option Database := do
  let name := chars ((entry.take (entry.length - 4)).take 63)
  let file ← tablePath path name
  match files file with
  | none => some (db.setTable db.tableCount { zeroTable with name })
  | some bytes =>
    let read ← (fundbReadTable (heap db.tableCount) zeroData).run bytes
    some (db.addTable name read.1)

/-- What `vfs_readdir` returns with an entry and at the end of the directory. -/
structure ReaddirCodes where
  withEntry : Int
  atEnd : Int

/-- The loop of `fundb_load_tables` over the entries that are left. -/
def loadLoop (codes : ReaddirCodes) (load : Database → List UInt8 → Option Database) :
    List (List UInt8) → Database → Option Database
  | [], db => if codes.atEnd = 0 then none else some db
  | entry :: entries, db =>
    if codes.withEntry = 0 then
      if tableEntry entry then
        if fundbMaxTables ≤ db.tableCount then some db
        else (load db entry).bind (loadLoop codes load entries)
      else loadLoop codes load entries db
    else some db

/-- `fundb_open` of the same path, with the entries of the directory in some order. -/
def Session.reopen (codes : ReaddirCodes) (s : Session) (entries : List (List UInt8))
    (heap : Nat → Nat → Nat → Chars) (memory : Nat → Nat → WalEntry) : Option Session :=
  (loadLoop codes (loadTable s.path s.files heap) entries (openedDatabase memory)).map
    fun db => { s with db }

/-! ## Sessions -/

/-- The operations of a client, and closing and opening again. -/
inductive Op where
  | create (name : List UInt8) (columns : Option (Nat → Column)) (colCount : Nat)
  | insert (name : List UInt8) (row : List Cell)
  | update (name whereText : List UInt8) (row : Option (List Cell))
  | delete (name whereText : List UInt8)
  | drop (name : List UInt8)
  | reopen (entries : List (List UInt8)) (heap : Nat → Nat → Nat → Chars)
      (memory : Nat → Nat → WalEntry)

/-- One operation, outside of transactions. -/
def Session.step (fpu : FloatUnit) (codes : ReaddirCodes) (s : Session) : Op → Option Session
  | .create name columns colCount => s.createTable name columns colCount
  | .insert name row => some { s with db := (fundbInsert s.db (chars name) row).1 }
  | .update name whereText row =>
    some { s with db := (fundbUpdate s.db (chars name) (evaluateWhere fpu whereText) row).1 }
  | .delete name whereText =>
    some { s with db := (fundbDelete s.db (chars name) (evaluateWhere fpu whereText)).1 }
  | .drop name => some { s with db := (fundbDropTable s.db (chars name)).1 }
  | .reopen entries heap memory =>
    s.close.bind fun closed => closed.reopen codes entries heap memory

/-- A session on a directory without tables. -/
def Session.opened (path : List UInt8) (files : Files) (memory : Nat → Nat → WalEntry) : Session :=
  ⟨path, openedDatabase memory, files⟩

/-!
## FunDB backups

`fundb_backup` writes every table to a file of a directory, with the same bytes as its own
file. `fundb_restore` goes through the directory: it makes the tables that are not there,
and inserts the rows of each file with `fundb_insert`, one by one.

The rows of a file are read with the column count of the table they go to, from behind the
header of the file. Making the table may write to the very file that is open; the reads
then go on in what it holds now. Inserts write no file, so here all rows are read before
the first one is inserted. The column array on the stack and the value buffers hold what
their memory held where the file ends early; a column count above `FUNDB_MAX_COLUMNS` runs
over the array and has no result.
-/

def backupFile (dir name : List UInt8) : List UInt8 :=
  let front := dir.take 255
  (if front.getLast?.any (· != 47) then front ++ [47] else front) ++ name

/-! ## Writing -/

/-- The body of the loop of `fundb_backup`. -/
def backupTable (db : Database) (dir : List UInt8) (files : Files) (t : Nat) : Files :=
  writeFile files (backupFile dir (nameText 58 (db.tables t).name ++ tblSuffix))
    (fundbBackupTable (db.tableData t))

/-- `fundb_backup`. -/
def Session.backup (s : Session) (dir : List UInt8) : Session :=
  { s with files := (List.range s.db.tableCount).foldl (backupTable s.db dir) s.files }

/-! ## Reading -/

/-- The counts and columns at the front of a file. -/
structure Header where
  colCount : Nat
  rowCount : Nat
  columns : Nat → Column

/-- The reads of a header into the variables of `fundb_restore`. -/
def readHeader (stack : Nat → Column) : Reader Header := do
  let colCount ← readWord 0
  let rowCount ← readWord 0
  if fundbMaxColumns < colCount then failure
  else
    let columns ← readColumns { zeroData with columns := stack } colCount
    return ⟨colCount, rowCount, columns⟩

/-- What the memory holds that `fundb_restore` reads a file into. -/
structure Scratch where
  stack : Nat → Column
  heap : Nat → Nat → Chars

namespace Session

/-- The name of the table an entry of the directory is for. -/
def entryName (entry : List UInt8) : List UInt8 := (entry.take (entry.length - 4)).take 63

/-- The table of a file is there or made. -/
def restoreTable (s : Session) (name : List UInt8) (header : Header) : Option Session :=
  if (findTable s.db (chars name)).isSome then some s
  else s.createTable name (some header.columns) header.colCount

/-- The rows of a file for table `t`, from behind the `position` bytes of the header. -/
def restoredRows (s : Session) (file : List UInt8) (position : Nat) (heap : Nat → Nat → Chars)
    (t rowCount : Nat) : Option (List (List Cell)) :=
  ((readRows heap (s.db.tables t).colCount rowCount).run
    (((s.files file).getD []).drop position)).map (·.1)

/-- What `fundb_restore` does with a file up to its inserts: the session with the table, and
the rows to insert. -/
def restoreRead (dir : List UInt8) (memory : List UInt8 → Scratch) (s : Session)
    (entry : List UInt8) : Option (Session × List (List Cell)) :=
  let file := backupFile dir (entry.take 255)
  match s.files file with
  | none => some (s, [])
  | some bytes => do
      let header ← (readHeader (memory entry).stack).run bytes
      let made ← s.restoreTable (entryName entry) header.1
      match findTable made.db (chars (entryName entry)) with
      | none => some (made, [])
      | some t =>
        let rows ← made.restoredRows file (bytes.length - header.2.length) (memory entry).heap t
          header.1.rowCount
        some (made, rows)

/-- `fundb_insert` of a row of the file. -/
def insertRow (name : List UInt8) (db : Database) (row : List Cell) : Database :=
  (fundbInsert db (chars name) row).1

/-- The body of the loop of `fundb_restore`. -/
def restoreEntry (dir : List UInt8) (memory : List UInt8 → Scratch) (s : Session)
    (entry : List UInt8) : Option Session :=
  if tableEntry entry then
    (s.restoreRead dir memory entry).map fun read =>
      { read.1 with db := read.2.foldl (insertRow (entryName entry)) read.1.db }
  else some s

/-- `fundb_restore`, with the entries of the directory in some order. -/
def restore (codes : ReaddirCodes) (s : Session) (dir : List UInt8)
    (memory : List UInt8 → Scratch) (entries : List (List UInt8)) : Option Session :=
  if entries ≠ [] ∧ codes.withEntry ≠ 0 then some s
  else if codes.atEnd = 0 then none
  else runPartial (restoreEntry dir memory) s entries

end Session

end FunsOS.Fundb
