import Mathlib.Tactic.NormNum

/-!
# The FunDB engine: tables, rows and the write-ahead log

A model of `kernel/fundb.c`. A table is a fixed array of row slots with a row
count. A slot holds the three array pointers of a `fundb_row_t`; the arrays of
one row are allocated and freed together, so the model keeps one reference for
them and a row store that says what a reference currently points to. A freed
reference points to nothing, and two slots may hold the same reference: moving
rows down one position copies slots and leaves the last one behind.

The log is an array of entries that is reused from one transaction to the next,
`wal_clear` only resets the count. A table name is copied into an entry without
its terminating NUL, over the bytes the entry already holds, and a fresh log
buffer holds whatever its memory held before.

Names are byte sequences read by offset. A where clause enters only through the
rows it selects, so it is any predicate on a table and a row. Index trees and
the files behind the tables do not occur: no operation below reads them.
-/

set_option autoImplicit false

namespace FunsOS.Fundb

open Function (update)

/-! ## Constants -/

def fundbMaxTables : Nat := 32
def fundbMaxColumns : Nat := 32
def fundbMaxRows : Nat := 1024

def fundbTypeInt : Nat := 1
def fundbTypeNull : Nat := 7

def fundbOk : Int := 0
def fundbError : Int := -1
def fundbNoTable : Int := -2
def fundbDupKey : Int := -4
def fundbNoRow : Int := -10

theorem fundbError_ne_ok : fundbError ≠ fundbOk := by decide

theorem fundbNoTable_ne_ok : fundbNoTable ≠ fundbOk := by decide

theorem fundbDupKey_ne_ok : fundbDupKey ≠ fundbOk := by decide

/-! ## Names -/

/-- The bytes behind a `char *` or inside a `char[64]`, by offset. -/
abbrev Chars := Nat → UInt8

/-- The bytes of a string, NUL from its end on. -/
def chars (text : List UInt8) : Chars := fun i => text.getD i 0

/-- How many characters `for (i = 0; i < 63 && src[i]; i++)` copies, from
position `i` with `left` positions to go. -/
def copyCount (src : Chars) : Nat → Nat → Nat
  | 0, i => i
  | left + 1, i => if src i = 0 then i else copyCount src left (i + 1)

/-- Copying a name into a `char[64]`: the characters, and a NUL at offset 63
only. The bytes between the end of the name and offset 63 stay. -/
def copyName (dst src : Chars) : Chars := fun i =>
  if i = 63 then 0 else if i < copyCount src 63 0 then src i else dst i

/-- The comparison loop of `find_table` from position `j`, with `left` positions
to go. -/
def namesAgree (first second : Chars) : Nat → Nat → Bool
  | 0, _ => true
  | left + 1, j =>
    if first j = 0 ∧ second j = 0 then true
    else if first j ≠ second j then false
    else namesAgree first second left (j + 1)

/-- Two names match when they agree up to their end or on 63 characters. -/
def namesMatch (first second : Chars) : Bool := namesAgree first second 63 0

/-! ## Rows and tables -/

/-- One cell of a row: its entry in `types`, `sizes` and `values`. A NULL value
pointer is `none`. -/
structure Cell where
  type : Nat
  size : Nat
  value : Option (List UInt8)
  deriving DecidableEq, Repr

/-- A cell as `fundb_row_init` leaves it. -/
def nullCell : Cell := ⟨fundbTypeNull, 0, none⟩

/-- What a copy of a cell holds: the value only when it has a positive size. -/
def Cell.copy (cell : Cell) : Cell :=
  { cell with value := if 0 < cell.size then cell.value.map (·.take cell.size) else none }

/-- `fundb_row_init` and `fundb_row_copy` into fresh arrays of `colCount` cells. -/
def fundbRowCopy (src : List Cell) (colCount : Nat) : List Cell :=
  (List.range colCount).map fun i => (src.getD i nullCell).copy

structure Column where
  name : Chars
  type : Nat
  size : Nat
  notNull : Nat
  primaryKey : Nat
  autoIncrement : Nat
  defaultValue : Nat

/-- A reference to the arrays of one row. -/
abbrev RowRef := Nat

structure Table where
  name : Chars
  columns : Nat → Column
  colCount : Nat
  rows : Nat → RowRef
  rowCount : Nat
  nextAutoId : Nat
  dirty : Bool

/-- Closing the gap at a slot: `rows[k] = rows[k + 1]` up to the last row, which
stays behind in its slot, and one row fewer. -/
def Table.removeRow (table : Table) (index : Nat) : Table :=
  { table with
    rows := fun k =>
      if index ≤ k ∧ k < table.rowCount - 1 then table.rows (k + 1) else table.rows k
    rowCount := table.rowCount - 1 }

inductive WalOperation where
  | insert
  | update
  | delete
  deriving DecidableEq, Repr

structure WalEntry where
  operation : WalOperation
  table : Chars
  rowIndex : Nat
  oldData : List Cell
  committed : Bool

structure Database where
  tables : Nat → Table
  tableCount : Nat
  wal : Nat → WalEntry
  walCount : Nat
  walCapacity : Nat
  inTransaction : Bool
  /-- What a row reference points to; `none` when it was freed or never given out. -/
  rowStore : RowRef → Option (List Cell)
  /-- The reference the next row gets. -/
  nextRow : RowRef
  /-- What the memory of the successive log buffers holds when they are allocated. -/
  bufferMemory : Nat → Nat → WalEntry
  /-- How many log buffers were allocated so far. -/
  buffers : Nat

variable (db : Database)

namespace Database

def setTable (t : Nat) (table : Table) : Database :=
  { db with tables := update db.tables t table }

/-- `fundb_row_free` on a slot: its arrays are gone, the slot keeps pointing at
them. -/
def freeRow (ref : RowRef) : Database :=
  { db with rowStore := update db.rowStore ref none }

/-- The rows of a table as a reader sees them, in order; `none` stands for a row
whose arrays were freed. -/
def tableRows (t : Nat) : List (Option (List Cell)) :=
  (List.range (db.tables t).rowCount).map fun i => db.rowStore ((db.tables t).rows i)

end Database

/-! ## Tables by name -/

/-- `find_table`: the first table whose name matches. -/
def findTable (name : Chars) : Option Nat :=
  (List.range db.tableCount).find? fun t => namesMatch name (db.tables t).name

/-- `fundb_create_table`. The name and the columns go over what the slot held. -/
def fundbCreateTable (name : Chars) (columns : Option (Nat → Column)) (colCount : Nat) :
    Database × Int :=
  if fundbMaxTables ≤ db.tableCount then (db, fundbError)
  else if (findTable db name).isSome then (db, fundbDupKey)
  else
    let slot := db.tables db.tableCount
    let defined := match columns with
      | some given =>
        if 0 < colCount then
          { slot with
            columns := fun i =>
              if i < colCount ∧ i < fundbMaxColumns then given i else slot.columns i
            colCount }
        else slot
      | none => slot
    let table := { defined with
      name := copyName slot.name name, rowCount := 0, nextAutoId := 1, dirty := true }
    ({ db.setTable db.tableCount table with tableCount := db.tableCount + 1 }, fundbOk)

/-- `fundb_drop_table`: the rows are freed and the later tables move down. -/
def fundbDropTable (name : Chars) : Database × Int :=
  match findTable db name with
  | none => (db, fundbNoTable)
  | some t =>
    let freed := (List.range (db.tables t).rowCount).foldl
      (fun acc i => acc.freeRow ((db.tables t).rows i)) db
    ({ freed with
      tables := fun k => if t ≤ k ∧ k < db.tableCount - 1 then db.tables (k + 1) else db.tables k
      tableCount := db.tableCount - 1 }, fundbOk)

def fundbAlterTable (name : Chars) (columns : Nat → Column) (colCount : Nat) : Database × Int :=
  match findTable db name with
  | none => (db, fundbNoTable)
  | some t =>
    let table := db.tables t
    (db.setTable t { table with
      columns := fun i =>
        if i < colCount ∧ i < fundbMaxColumns then columns i else table.columns i
      colCount
      dirty := true }, fundbOk)

/-! ## The log -/

/-- The extension of a full log: twice the capacity, the entries in use copied,
the other entries whatever the new buffer holds. -/
def walExtend : Database :=
  if db.walCapacity ≤ db.walCount then
    { db with
      wal := fun k => if k < db.walCount then db.wal k else db.bufferMemory db.buffers k
      walCapacity := db.walCapacity * 2
      buffers := db.buffers + 1 }
  else db

/-- `wal_append`. Old data is copied when there is some; otherwise the entry keeps
the old data it held. -/
@[simps -fullyApplied tables tableCount walCount inTransaction rowStore nextRow]
def walAppend (operation : WalOperation) (name : Chars) (rowIndex : Nat)
    (oldData : Option (List Cell)) (colCount : Nat) : Database :=
  let db := walExtend db
  let entry := db.wal db.walCount
  let entry' : WalEntry :=
    { operation
      table := copyName entry.table name
      rowIndex
      oldData := match oldData with
        | some cells => fundbRowCopy cells colCount
        | none => entry.oldData
      committed := false }
  { db with wal := update db.wal db.walCount entry', walCount := db.walCount + 1 }

def walClear : Database := { db with walCount := 0 }

/-! ## Insert, update, delete -/

/-- The four bytes of a `uint32_t`, least significant first. -/
def uint32Bytes (n : Nat) : List UInt8 :=
  [UInt8.ofNat n, UInt8.ofNat (n / 256), UInt8.ofNat (n / 65536), UInt8.ofNat (n / 16777216)]

def fillAutoColumn (table : Table) (acc : List Cell × Nat) (i : Nat) : List Cell × Nat :=
  if (table.columns i).autoIncrement ≠ 0 ∧ (acc.1.getD i nullCell).type = fundbTypeNull then
    (acc.1.set i ⟨fundbTypeInt, 4, some (uint32Bytes acc.2)⟩, (acc.2 + 1) % 2 ^ 32)
  else acc

/-- The auto-increment loop: the row with its generated ids, and the next id. -/
def fillAutoColumns (table : Table) (row : List Cell) : List Cell × Nat :=
  (List.range table.colCount).foldl (fillAutoColumn table) (row, table.nextAutoId)

def storeRow (t : Nat) (row : List Cell) : Database :=
  let table := db.tables t
  let filled := fillAutoColumns table row
  { db.setTable t { table with
      rows := update table.rows table.rowCount db.nextRow
      rowCount := table.rowCount + 1
      nextAutoId := filled.2
      dirty := true } with
    rowStore := update db.rowStore db.nextRow (some (fundbRowCopy filled.1 table.colCount))
    nextRow := db.nextRow + 1 }

def fundbInsert (name : Chars) (row : List Cell) : Database × Int :=
  match findTable db name with
  | none => (db, fundbNoTable)
  | some t =>
    if fundbMaxRows ≤ (db.tables t).rowCount then (db, fundbError)
    else
      let logged :=
        if db.inTransaction then walAppend db .insert name (db.tables t).rowCount none 0
        else db
      (storeRow logged t row, fundbOk)

abbrev WhereClause := Table → List Cell → Bool

/-- Whether the clause selects the row in slot `i` of table `t`. -/
def selects (t : Nat) (clause : WhereClause) (i : Nat) : Bool :=
  clause (db.tables t) ((db.rowStore ((db.tables t).rows i)).getD [])

/-- The cells of a stored row after an update: the given cells that are not
`FUNDB_TYPE_NULL` replace the stored ones. -/
def updateCells (colCount : Nat) (row stored : List Cell) : List Cell :=
  stored.mapIdx fun j cell =>
    if j < colCount ∧ (row.getD j nullCell).type ≠ fundbTypeNull then (row.getD j nullCell).copy
    else cell

/-- One slot of the loop of `fundb_update`. -/
def updateSlot (t : Nat) (name : Chars) (clause : WhereClause) (row : List Cell)
    (acc : Database × Nat) (i : Nat) : Database × Nat :=
  let db := acc.1
  if selects db t clause i then
    let table := db.tables t
    let logged :=
      if db.inTransaction then
        walAppend db .update name i (some ((db.rowStore (table.rows i)).getD [])) table.colCount
      else db
    ({ logged with
      rowStore := update logged.rowStore (table.rows i)
        ((logged.rowStore (table.rows i)).map (updateCells table.colCount row)) }, acc.2 + 1)
  else acc

/-- `fundb_update`. A NULL row pointer is `none`. -/
def fundbUpdate (name : Chars) (clause : WhereClause) (row : Option (List Cell)) : Database × Int :=
  match findTable db name with
  | none => (db, fundbNoTable)
  | some t =>
    match row with
    | none => (db, fundbError)
    | some cells =>
      let result := (List.range (db.tables t).rowCount).foldl
        (updateSlot t name clause cells) (db, 0)
      (result.1.setTable t { result.1.tables t with dirty := true },
        if 0 < result.2 then fundbOk else fundbNoRow)

/-- One slot of the loop of `fundb_delete`. -/
def deleteSlot (t : Nat) (name : Chars) (clause : WhereClause) (acc : Database × Nat)
    (i : Nat) : Database × Nat :=
  let db := acc.1
  if selects db t clause i then
    let table := db.tables t
    let logged :=
      if db.inTransaction then
        walAppend db .delete name i (some ((db.rowStore (table.rows i)).getD [])) table.colCount
      else db
    ((logged.freeRow (table.rows i)).setTable t (table.removeRow i), acc.2 + 1)
  else acc

/-- `fundb_delete`: the slots from the last to the first. -/
def fundbDelete (name : Chars) (clause : WhereClause) : Database × Int :=
  match findTable db name with
  | none => (db, fundbNoTable)
  | some t =>
    let result := (List.range (db.tables t).rowCount).reverse.foldl
      (deleteSlot t name clause) (db, 0)
    (if 0 < result.2 then result.1.setTable t { result.1.tables t with dirty := true }
      else result.1, fundbOk)

/-! ## Transactions -/

def fundbBegin : Database := walClear { db with inTransaction := true }

/-- `fundb_commit`: every entry in use is marked, every dirty table that could be
written is clean, and the log is cleared. -/
def fundbCommit (written : Nat → Bool) : Database :=
  walClear { db with
    wal := fun k => if k < db.walCount then { db.wal k with committed := true } else db.wal k
    tables := fun t =>
      if t < db.tableCount ∧ (db.tables t).dirty ∧ written t then
        { db.tables t with dirty := false }
      else db.tables t
    inTransaction := false }

/-- One entry of the loop of `fundb_rollback`. Undoing an update frees the arrays
of the row before it copies the old cells into them, so the row stays freed;
undoing a delete only counts one row more. -/
def undoEntry (entry : WalEntry) : Database :=
  match findTable db entry.table with
  | none => db
  | some t =>
    let table := db.tables t
    match entry.operation with
    | .insert =>
      if entry.rowIndex < table.rowCount then
        (db.freeRow (table.rows entry.rowIndex)).setTable t (table.removeRow entry.rowIndex)
      else db
    | .update =>
      if entry.rowIndex < table.rowCount then db.freeRow (table.rows entry.rowIndex) else db
    | .delete => db.setTable t { table with rowCount := table.rowCount + 1 }

/-- The entries in use, oldest first. -/
def Database.log : List WalEntry := (List.range db.walCount).map db.wal

/-- `fundb_rollback`: the entries from the newest to the oldest. -/
def fundbRollback : Database :=
  walClear { db.log.reverse.foldl undoEntry db with inTransaction := false }

end FunsOS.Fundb
