import FunsOS.Foundation.Runs
import FunsOS.Foundation.ByteReader
import FunsOS.Fundb.Store

/-!
# The table files of FunDB

`fundb_write_table` writes a table as two counts, the column array as it lies in memory,
and for every cell its type, its size and, when there is one, its value. The reader
decides from the size alone whether a value follows, the writer also looks at the value
pointer. For tables whose cells have a value exactly when they have a positive size the
two agree, and `table_file_round_trip` says that the reader gets back what was written and
stops where the writer stopped. `fundb_backup` writes the same bytes with its own loops.

The reader fills a table that is already there: a file that ends early leaves the rest of
each field as it was, and a fresh value buffer holds whatever its memory held. Memory for
the rows is assumed to be there, as everywhere in this model of FunDB. A column count
above `FUNDB_MAX_COLUMNS` makes the reader run over the column array and the fields
behind it; that read has no result here.
-/

set_option autoImplicit false

namespace FunsOS.Fundb

open Foundation List Reads

/-! ## What a file holds -/

/-- The part of a `fundb_table_t` that its file holds, the rows by their cells. -/
structure TableData where
  colCount : Nat
  rowCount : Nat
  columns : Nat → Column
  cells : Nat → Nat → Cell

/-- `sizeof(fundb_column_t)`: a `char[64]` and six `uint32_t`. -/
def columnSize : Nat := 88

/-- The six `uint32_t` of a column. -/
def columnFields (column : Column) : List UInt8 :=
  uint32Bytes column.type ++ uint32Bytes column.size ++ uint32Bytes column.notNull ++
    uint32Bytes column.primaryKey ++ uint32Bytes column.autoIncrement ++
    uint32Bytes column.defaultValue

/-- A `fundb_column_t` as it lies in memory. -/
def columnBytes (column : Column) : List UInt8 :=
  (range 64).map column.name ++ columnFields column

def columnOfBytes (bytes : List UInt8) : Column where
  name := fun i => if i < 64 then bytes.getD i 0 else 0
  type := wordOfBytes (bytes.drop 64)
  size := wordOfBytes (bytes.drop 68)
  notNull := wordOfBytes (bytes.drop 72)
  primaryKey := wordOfBytes (bytes.drop 76)
  autoIncrement := wordOfBytes (bytes.drop 80)
  defaultValue := wordOfBytes (bytes.drop 84)

/-! ## Writing -/

/-- What the loops write for one cell. -/
def cellBytes (cell : Cell) : List UInt8 :=
  uint32Bytes cell.type ++ uint32Bytes cell.size ++
    match cell.value with
    | some value => if 0 < cell.size then value.take cell.size else []
    | none => []

/-- The byte stream of `fundb_write_table`. -/
def fundbWriteTable (table : TableData) : List UInt8 :=
  uint32Bytes table.colCount ++ uint32Bytes table.rowCount ++
    (range table.colCount).flatMap (fun j => columnBytes (table.columns j)) ++
    (range table.rowCount).flatMap fun i =>
      (range table.colCount).flatMap fun j => cellBytes (table.cells i j)

/-- The byte stream `fundb_backup` writes for one table. -/
def fundbBackupTable (table : TableData) : List UInt8 :=
  uint32Bytes table.colCount ++ uint32Bytes table.rowCount ++
    (range table.colCount).flatMap (fun j => columnBytes (table.columns j)) ++
    (range table.rowCount).flatMap fun r =>
      (range table.colCount).flatMap fun c => cellBytes (table.cells r c)

/-! ## Reading -/

/-- `vfs_read` of a `uint32_t` over its old value. -/
def readWord (old : Nat) : Reader Nat := wordOfBytes <$> fill 4 (uint32Bytes old)

/-- `vfs_read` of the value of a cell of positive size, into memory that held `memory`. -/
def readValue (memory : Chars) (type size : Nat) : Reader Cell :=
  (fun value => ⟨type, size, some value⟩) <$> fill size ((range size).map memory)

/-- One cell of the loops of `fundb_read_table`, after `fundb_row_init`. -/
def readCell (memory : Chars) : Reader Cell := do
  let type ← readWord fundbTypeNull
  let size ← readWord 0
  if 0 < size then readValue memory type size else return ⟨type, size, none⟩

/-- `vfs_read` of the column array over the columns of the table. -/
def readColumns (table : TableData) (colCount : Nat) : Reader (Nat → Column) :=
  (fun block i =>
    if i < colCount then columnOfBytes ((block.drop (columnSize * i)).take columnSize)
    else table.columns i) <$>
  fill (columnSize * colCount) ((range colCount).flatMap fun j => columnBytes (table.columns j))

/-- The row loop of `fundb_read_table`; it stops at `FUNDB_MAX_ROWS`. -/
def readRows (heap : Nat → Nat → Chars) (colCount rowCount : Nat) : Reader (List (List Cell)) :=
  readMany (fun i => readMany (fun j => readCell (heap i j)) colCount 0)
    (min rowCount fundbMaxRows) 0

/-- `fundb_read_table`; the value buffer of row `i`, column `j` comes from memory that
held `heap i j`. -/
def fundbReadTable (heap : Nat → Nat → Chars) (table : TableData) : Reader TableData := do
  let colCount ← readWord table.colCount
  let rowCount ← readWord table.rowCount
  if fundbMaxColumns < colCount then failure
  else
    let columns ← readColumns table colCount
    let rows ← readRows heap colCount rowCount
    return {
      colCount
      rowCount
      columns
      cells := fun i j =>
        if i < rows.length then (rows.getD i []).getD j nullCell else table.cells i j }

/-! ## Tables that can be read back -/

/-- The fields of a column fit their `uint32_t`. -/
structure Column.InRange (column : Column) : Prop where
  type : column.type < 2 ^ 32
  size : column.size < 2 ^ 32
  notNull : column.notNull < 2 ^ 32
  primaryKey : column.primaryKey < 2 ^ 32
  autoIncrement : column.autoIncrement < 2 ^ 32
  defaultValue : column.defaultValue < 2 ^ 32

/-- A cell that holds `size > 0` bytes of data or is NULL with size 0. -/
structure Cell.Intact (cell : Cell) : Prop where
  type : cell.type < 2 ^ 32
  size : cell.size < 2 ^ 32
  value : (0 < cell.size ∧ ∃ bytes, cell.value = some bytes ∧ bytes.length = cell.size) ∨
    (cell.size = 0 ∧ cell.value = none)

/-- A table within the limits of the engine, all of whose cells are intact. -/
structure TableData.Intact (table : TableData) : Prop where
  colCount : table.colCount ≤ fundbMaxColumns
  rowCount : table.rowCount ≤ fundbMaxRows
  columns : ∀ j < table.colCount, (table.columns j).InRange
  cells : ∀ i < table.rowCount, ∀ j < table.colCount, (table.cells i j).Intact

/-- The same column definition: the same 64 bytes of name and the same fields. -/
structure Column.Same (first second : Column) : Prop where
  name : ∀ i < 64, first.name i = second.name i
  type : first.type = second.type
  size : first.size = second.size
  notNull : first.notNull = second.notNull
  primaryKey : first.primaryKey = second.primaryKey
  autoIncrement : first.autoIncrement = second.autoIncrement
  defaultValue : first.defaultValue = second.defaultValue

/-- The same counts, column definitions and cells. -/
structure TableData.Same (first second : TableData) : Prop where
  colCount : first.colCount = second.colCount
  rowCount : first.rowCount = second.rowCount
  columns : ∀ j < first.colCount, (first.columns j).Same (second.columns j)
  cells : ∀ i < first.rowCount, ∀ j < first.colCount, first.cells i j = second.cells i j

/-! ## Words and columns -/

theorem uint32Bytes_length (n : Nat) : (uint32Bytes n).length = 4 := rfl

variable {n : Nat} {column : Column}

theorem wordOfBytes_uint32Bytes (small : n < 2 ^ 32) : wordOfBytes (uint32Bytes n) = n := by
  simp only [uint32Bytes, wordOfBytes, getD_cons_zero, getD_cons_succ, UInt8.toNat_ofNat']
  omega

theorem Reads.word (small : n < 2 ^ 32) (old : Nat) : Reads (readWord old) (uint32Bytes n) n := by
  have read := (fill (uint32Bytes_length n) (uint32Bytes_length old)).map wordOfBytes
  rwa [wordOfBytes_uint32Bytes small] at read

theorem columnBytes_length (column : Column) : (columnBytes column).length = columnSize := by
  simp [columnBytes, columnFields, uint32Bytes_length, columnSize]

theorem columnBytes_drop : (columnBytes column).drop (64 + n) = (columnFields column).drop n := by
  have name : ((range 64).map column.name).length = 64 := by simp
  rw [columnBytes, ← drop_drop, drop_left' name]

/-- A column is read from its own bytes. -/
theorem columnOfBytes_columnBytes (range : column.InRange) :
    column.Same (columnOfBytes (columnBytes column)) := by
  have field : ∀ n, wordOfBytes ((columnBytes column).drop (64 + n)) =
      wordOfBytes ((columnFields column).drop n) := by
    intro n
    rw [columnBytes_drop]
  constructor
  case name =>
    intro i inside
    have named : (columnBytes column).getD i 0 = column.name i := by
      rw [columnBytes, getD_eq_getElem?_getD, List.getElem?_append_left (by simpa using inside)]
      simp [inside]
    show column.name i = if i < 64 then (columnBytes column).getD i 0 else 0
    rw [if_pos inside, named]
  case type => exact ((field 0).trans (wordOfBytes_uint32Bytes range.type)).symm
  case size => exact ((field 4).trans (wordOfBytes_uint32Bytes range.size)).symm
  case notNull => exact ((field 8).trans (wordOfBytes_uint32Bytes range.notNull)).symm
  case primaryKey => exact ((field 12).trans (wordOfBytes_uint32Bytes range.primaryKey)).symm
  case autoIncrement =>
    exact ((field 16).trans (wordOfBytes_uint32Bytes range.autoIncrement)).symm
  case defaultValue =>
    exact ((field 20).trans (wordOfBytes_uint32Bytes range.defaultValue)).symm

/-! ## Cells and rows -/

theorem Reads.cell {cell : Cell} (intact : cell.Intact) (memory : Chars) :
    Reads (readCell memory) (cellBytes cell) cell := by
  obtain ⟨type, size, value⟩ := cell
  have header := word intact.type fundbTypeNull
  have sized := word intact.size 0
  obtain ⟨positive, bytes, rfl, length⟩ | ⟨rfl, rfl⟩ := intact.value
  · dsimp only at positive length
    have payload := (fill length (by simp : ((range size).map memory).length = size)).map
      (fun value => (⟨type, size, some value⟩ : Cell))
    have written : cellBytes ⟨type, size, some bytes⟩ =
        uint32Bytes type ++ (uint32Bytes size ++ bytes) := by
      simp [cellBytes, ← length]
    rw [written]
    refine header.bind (sized.bind ?_)
    rwa [if_pos positive]
  · exact header.bind (sized.bind pure)

def TableData.rows (table : TableData) : List (List Cell) :=
  (range table.rowCount).map fun i => (range table.colCount).map (table.cells i)

/-- The row loops read back what the row loops wrote. -/
theorem Reads.rows {table : TableData} (intact : table.Intact) (heap : Nat → Nat → Chars) :
    Reads (readRows heap table.colCount table.rowCount)
      ((range table.rowCount).flatMap fun i =>
        (range table.colCount).flatMap fun j => cellBytes (table.cells i j))
      table.rows := by
  have each : ∀ i, ∀ row ∈ table.rows,
      Reads (readMany (fun j => readCell (heap i j)) table.colCount 0)
        (row.flatMap cellBytes) row := by
    intro i row member
    obtain ⟨r, inside, rfl⟩ := mem_map.mp member
    have intactRow : ∀ cell ∈ (range table.colCount).map (table.cells r), cell.Intact := by
      intro cell member
      obtain ⟨c, column, rfl⟩ := mem_map.mp member
      exact intact.cells r (mem_range.mp inside) c (mem_range.mp column)
    have cells := many (fun j cell member => Reads.cell (intactRow cell member) (heap i j)) 0
    simpa using cells
  have read := many each 0
  simpa [readRows, TableData.rows, flatMap_map, Nat.min_eq_left intact.rowCount] using read

/-! ## The column array -/

theorem Reads.columns (table old : TableData) :
    Reads (readColumns old table.colCount)
      ((range table.colCount).flatMap fun j => columnBytes (table.columns j))
      (fun i => if i < table.colCount then columnOfBytes (columnBytes (table.columns i))
        else old.columns i) := by
  have size : ∀ columns : Nat → Column,
      ((range table.colCount).flatMap fun j => columnBytes (columns j)).length =
        columnSize * table.colCount := by
    intro columns
    simp [length_flatMap, columnBytes_length, Nat.mul_comm]
  have read := (fill (size table.columns) (size old.columns)).map
    (fun block i =>
      if i < table.colCount then columnOfBytes ((block.drop (columnSize * i)).take columnSize)
      else old.columns i)
  have records : ∀ i, i < table.colCount →
      (((range table.colCount).flatMap fun j => columnBytes (table.columns j)).drop
        (columnSize * i)).take columnSize = columnBytes (table.columns i) := by
    intro i inside
    rw [flatMap_record (fun j => columnBytes_length (table.columns j)) (by simpa using inside),
      getElem_range]
  have same : (fun i => if i < table.colCount then columnOfBytes (columnBytes (table.columns i))
      else old.columns i) = fun i =>
      if i < table.colCount then columnOfBytes ((((range table.colCount).flatMap
        fun j => columnBytes (table.columns j)).drop (columnSize * i)).take columnSize)
      else old.columns i := by
    funext i
    split
    next inside => rw [records i inside]
    next => rfl
  rw [same]
  exact read

/-! ## The round trip -/

/-- What reading the file of `table` makes of the table `old`. -/
def TableData.readOver (table old : TableData) : TableData where
  colCount := table.colCount
  rowCount := table.rowCount
  columns := fun i =>
    if i < table.colCount then columnOfBytes (columnBytes (table.columns i)) else old.columns i
  cells := fun i j =>
    if i < table.rows.length then (table.rows.getD i []).getD j nullCell else old.cells i j

theorem TableData.same_readOver {table : TableData} (intact : table.Intact) (old : TableData) :
    table.Same (table.readOver old) where
  colCount := rfl
  rowCount := rfl
  columns := by
    intro j inside
    simp only [readOver, if_pos inside]
    exact columnOfBytes_columnBytes (intact.columns j inside)
  cells := by
    intro i row j column
    simp only [readOver]
    rw [if_pos (by simpa [rows] using row)]
    simp [rows, getD_eq_getElem?_getD, row, column]

theorem Reads.table {table : TableData} (intact : table.Intact) (heap : Nat → Nat → Chars)
    (old : TableData) :
    Reads (fundbReadTable heap old) (fundbWriteTable table) (table.readOver old) := by
  have few : ¬ fundbMaxColumns < table.colCount := Nat.not_lt.mpr intact.colCount
  have colCount : table.colCount < 2 ^ 32 := lt_of_le_of_lt intact.colCount (by decide)
  have rowCount : table.rowCount < 2 ^ 32 := lt_of_le_of_lt intact.rowCount (by decide)
  have rows := (rows intact heap).map fun rows : List (List Cell) =>
    ({ table.readOver old with
      cells := fun i j =>
        if i < rows.length then (rows.getD i []).getD j nullCell else old.cells i j } : TableData)
  refine (word colCount old.colCount).bind ((word rowCount old.rowCount).bind ?_)
  rw [if_neg few]
  exact (columns table old).bind rows

/-- **Table file round trip.** For a table within the limits whose cells hold `size > 0`
bytes of data or are NULL with size 0, the stream of `fundb_write_table` and that of
`fundb_backup`, with anything behind it, is read by `fundb_read_table` as a table with the
same counts, columns and cells, and exactly the stream is consumed. -/
theorem table_file_round_trip (table : TableData) (intact : table.Intact)
    (heap : Nat → Nat → Chars) (old : TableData) (rest : List UInt8) :
    Returns ((fundbReadTable heap old).run (fundbWriteTable table ++ rest))
      (fun result => table.Same result.1 ∧ result.2 = rest) ∧
    Returns ((fundbReadTable heap old).run (fundbBackupTable table ++ rest))
      (fun result => table.Same result.1 ∧ result.2 = rest) := by
  have back := Reads.table intact heap old rest
  have same := TableData.same_readOver intact old
  exact ⟨⟨_, back, same, rfl⟩, ⟨_, back, same, rfl⟩⟩

/-- Two rows of an id and a note, the first note missing. -/
def notes : TableData where
  colCount := 2
  rowCount := 2
  columns := fun j => ⟨chars (if j = 0 then [105, 100] else [110]), fundbTypeInt, 4, 0, 0, 0, 0⟩
  cells := fun i j =>
    if j = 0 then ⟨fundbTypeInt, 4, some (uint32Bytes i)⟩
    else if i = 0 then nullCell else ⟨3, 2, some [111, 0]⟩

theorem notes_intact : notes.Intact where
  colCount := by decide
  rowCount := by decide
  columns := fun j _ => by constructor <;> norm_num [notes, fundbTypeInt]
  cells := by
    intro i row j column
    have word : (⟨fundbTypeInt, 4, some (uint32Bytes i)⟩ : Cell).Intact :=
      ⟨by norm_num [fundbTypeInt], by norm_num, .inl ⟨by norm_num, _, rfl, rfl⟩⟩
    have missing : nullCell.Intact := ⟨by decide, by decide, .inr ⟨rfl, rfl⟩⟩
    have text : (⟨3, 2, some [111, 0]⟩ : Cell).Intact :=
      ⟨by decide, by decide, .inl ⟨by decide, _, rfl, rfl⟩⟩
    simp only [notes]
    split
    · exact word
    · split
      · exact missing
      · exact text

theorem notes_file_round_trip :
    Returns ((fundbReadTable (fun _ _ _ => 255) notes).run (fundbWriteTable notes ++ [7]))
      (fun result => notes.Same result.1 ∧ result.2 = [7]) ∧
    Returns ((fundbReadTable (fun _ _ _ => 255) notes).run (fundbBackupTable notes ++ [7]))
      (fun result => notes.Same result.1 ∧ result.2 = [7]) :=
  table_file_round_trip notes notes_intact (fun _ _ _ => 255) notes [7]

end FunsOS.Fundb
