import FunsOS.Fundb.Where

/-!
# The SQL front end of FunDB

`sql_parse`, the parsers of value lists and SET clauses, `fundb_select` and `fundb_query`
of `kernel/fundb.c`. `sql_parse` copies clauses into buffers of 256 characters without
looking at their size; a clause that does not fit runs over its buffer, and the statement
has no meaning then. A clause is only looked for where the cursor stands: after the table
name of INSERT, UPDATE and DELETE the cursor stands on the blank in front of the clause,
and after ORDER BY it stands in front of the column.

`kmalloc(0)` returns NULL, so `fundb_select` returns NULL when no row is selected. Other
allocations succeed.
-/

set_option autoImplicit false

namespace FunsOS.Fundb

open Foundation

/-! ## Words -/

def kwSelect : List UInt8 := [83, 69, 76, 69, 67, 84]
def kwFrom : List UInt8 := [70, 82, 79, 77]
def kwWhere : List UInt8 := [87, 72, 69, 82, 69]
def kwOrder : List UInt8 := [79, 82, 68, 69, 82]
def kwOrderBy : List UInt8 := [79, 82, 68, 69, 82, 32, 66, 89]
def kwLimit : List UInt8 := [76, 73, 77, 73, 84]
def kwDesc : List UInt8 := [68, 69, 83, 67]
def kwInsertInto : List UInt8 := [73, 78, 83, 69, 82, 84, 32, 73, 78, 84, 79]
def kwValues : List UInt8 := [86, 65, 76, 85, 69, 83]
def kwUpdate : List UInt8 := [85, 80, 68, 65, 84, 69]
def kwSet : List UInt8 := [83, 69, 84]
def kwDeleteFrom : List UInt8 := [68, 69, 76, 69, 84, 69, 32, 70, 82, 79, 77]
def kwCreateTable : List UInt8 := [67, 82, 69, 65, 84, 69, 32, 84, 65, 66, 76, 69]
def kwDropTable : List UInt8 := [68, 82, 79, 80, 32, 84, 65, 66, 76, 69]
def kwNotNull : List UInt8 := [78, 79, 84, 32, 78, 85, 76, 76]
def kwPrimaryKey : List UInt8 := [80, 82, 73, 77, 65, 82, 89, 32, 75, 69, 89]
def kwAutoIncrement : List UInt8 := [65, 85, 84, 79, 95, 73, 78, 67, 82, 69, 77, 69, 78, 84]
def kwAutoincrement : List UInt8 := [65, 85, 84, 79, 73, 78, 67, 82, 69, 77, 69, 78, 84]
def kwDefault : List UInt8 := [68, 69, 70, 65, 85, 76, 84]

/-- White space of `skip_spaces`. -/
def space (c : UInt8) : Bool := c == 32 || c == 9 || c == 10 || c == 13

def skipSpaces (p : List UInt8) : List UInt8 := p.dropWhile space

/-- A character of an identifier. -/
def identChar (c : UInt8) : Bool :=
  !(c == 32 || c == 9 || c == 10 || c == 44 || c == 40 || c == 41 || c == 59)

/-- `extract_identifier` into a `char[64]`, and the text behind it. -/
def extractIdentifier (p : List UInt8) : List UInt8 × List UInt8 := scan identChar 63 p

/-- The unsigned 32-bit number in decimal digits at the cursor. -/
def number (p : List UInt8) : Nat :=
  (p.takeWhile digit).foldl (fun value c => (value * 10 + (c.toNat - 48)) % 2 ^ 32) 0

/-! ## Column definitions -/

def typeNames : List (List UInt8 × Nat) :=
  [([73, 78, 84], 1), ([73, 78, 84, 69, 71, 69, 82], 1),
    ([70, 76, 79, 65, 84], 2), ([68, 79, 85, 66, 76, 69], 2), ([82, 69, 65, 76], 2),
    ([84, 69, 88, 84], 3), ([86, 65, 82, 67, 72, 65, 82], 3), ([67, 72, 65, 82], 3),
    ([83, 84, 82, 73, 78, 71], 3),
    ([66, 76, 79, 66], 4), ([66, 73, 78, 65, 82, 89], 4),
    ([66, 79, 79, 76], 5), ([66, 79, 79, 76, 69, 65, 78], 5),
    ([68, 65, 84, 69], 6), ([68, 65, 84, 69, 84, 73, 77, 69], 6), ([84, 73, 77, 69], 6)]

/-- `parse_type`: the first name that is a start of the text, TEXT otherwise. -/
def parseType (text : List UInt8) : Nat :=
  ((typeNames.find? fun entry => strPrefixCi text entry.1).map (·.2)).getD fundbTypeText

/-- A character of a type name. -/
def typeChar (c : UInt8) : Bool := !(c == 32 || c == 9 || c == 44 || c == 40 || c == 41 || c == 59)

/-- The loop over the attributes of a column; a character that starts none is skipped. -/
def columnAttributes : Nat → List UInt8 → Column → Column × List UInt8
  | 0, p, column => (column, p)
  | fuel + 1, p, column =>
    if p = [] ∨ p.head? = some 44 ∨ p.head? = some 41 ∨ p.head? = some 59 then (column, p)
    else
      let p := skipSpaces p
      if strPrefixCi p kwNotNull then
        columnAttributes fuel (p.drop 8) { column with notNull := 1 }
      else if strPrefixCi p kwPrimaryKey then
        columnAttributes fuel (p.drop 11) { column with primaryKey := 1 }
      else if strPrefixCi p kwAutoIncrement || strPrefixCi p kwAutoincrement then
        columnAttributes fuel (p.drop 14) { column with autoIncrement := 1 }
      else if strPrefixCi p kwDefault then
        columnAttributes fuel (skipSpaces (p.drop 7)) { column with defaultValue := 0 }
      else columnAttributes fuel p.tail column

def columnSizeAt (p : List UInt8) : Nat × List UInt8 :=
  if p.head? = some 40 then
    let behind := p.tail.dropWhile digit
    (number p.tail, if behind.head? = some 41 then behind.tail else behind)
  else (0, p)

/-- One column definition and the text behind it. -/
def parseColumn (p : List UInt8) : Column × List UInt8 :=
  let name := extractIdentifier p
  let typeName := scan typeChar 31 (skipSpaces name.2)
  let size := columnSizeAt (skipSpaces typeName.2)
  columnAttributes size.2.length size.2 ⟨chars name.1, parseType typeName.1, size.1, 0, 0, 0, 0⟩

/-- The loop of `parse_create_columns`, with the number of columns that still fit. -/
def parseCreateColumns : Nat → List UInt8 → List Column
  | 0, _ => []
  | left + 1, text =>
    if text = [] ∨ text.head? = some 59 then []
    else
      let p := skipSpaces text
      if p = [] ∨ p.head? = some 41 then []
      else
        let column := parseColumn p
        column.1 :: parseCreateColumns left
          (if column.2.head? = some 44 then column.2.tail else column.2)

/-! ## Statements -/

/-- A parsed `sql_statement_t`: the fields its kind of statement sets. -/
inductive SqlStatement where
  | select (table columns whereClause orderBy : List UInt8) (limit : Nat)
  | insert (table values : List UInt8)
  | update (table values whereClause : List UInt8)
  | delete (table whereClause : List UInt8)
  | create (table : List UInt8) (columns : List Column)
  | drop (table : List UInt8)

/-- The statement is none that `sql_parse` knows, or a clause runs over its buffer. -/
inductive SqlFault where
  | unknown
  | overrun
  deriving DecidableEq, Repr

def copyUntil (stop : List UInt8 → Bool) : List UInt8 → List UInt8 × List UInt8
  | [] => ([], [])
  | c :: text =>
    if stop (c :: text) then ([], c :: text)
    else (c :: (copyUntil stop text).1, (copyUntil stop text).2)

/-- A clause that was copied into a `char[256]`, with room for its NUL. -/
def buffered (clause : List UInt8) : Except SqlFault (List UInt8) :=
  if clause.length ≤ 255 then .ok clause else .error .overrun

section

variable (p : List UInt8)

/-- The text at the cursor starts with `;`. -/
def atSemicolon : Bool := p.head? == some 59

/-- The WHERE clause of a SELECT statement, and the text behind it. -/
def selectWhere : List UInt8 × List UInt8 :=
  if strPrefixCi p kwWhere then
    copyUntil (fun q => strPrefixCi q kwOrder || strPrefixCi q kwLimit) (skipSpaces (p.drop 5))
  else ([], p)

/-- The ORDER BY column; the cursor stays in front of it. -/
def selectOrder : List UInt8 × List UInt8 :=
  if strPrefixCi p kwOrderBy then
    ((extractIdentifier (skipSpaces (p.drop 8))).1, skipSpaces (p.drop 8))
  else ([], p)

def selectLimit : Nat :=
  if strPrefixCi p kwLimit then number (skipSpaces (p.drop 5)) else 0

/-- The SELECT branch of `sql_parse`. -/
def parseSelect : Except SqlFault SqlStatement := do
  let head := copyUntil (strPrefixCi · kwFrom) p
  let columns ← buffered head.1
  let table :=
    if strPrefixCi head.2 kwFrom then extractIdentifier (skipSpaces (head.2.drop 4))
    else ([], head.2)
  let found := selectWhere (skipSpaces table.2)
  let whereClause ← buffered found.1
  let order := selectOrder found.2
  return .select table.1 columns whereClause order.1 (selectLimit order.2)

def parseInsert : Except SqlFault SqlStatement := do
  let table := extractIdentifier p
  if strPrefixCi table.2 kwValues then
    let q := skipSpaces (table.2.drop 6)
    let values ← buffered (copyUntil atSemicolon (if q.head? = some 40 then q.tail else q)).1
    return .insert table.1 values
  else return .insert table.1 []

/-- The WHERE clause of UPDATE and DELETE. -/
def changeWhere : Except SqlFault (List UInt8) :=
  if strPrefixCi p kwWhere then buffered (copyUntil atSemicolon (skipSpaces (p.drop 5))).1
  else .ok []

def parseUpdate : Except SqlFault SqlStatement := do
  let table := extractIdentifier p
  let set :=
    if strPrefixCi table.2 kwSet then
      copyUntil (strPrefixCi · kwWhere) (skipSpaces (table.2.drop 3))
    else ([], table.2)
  let values ← buffered set.1
  let whereClause ← changeWhere set.2
  return .update table.1 values whereClause

def parseDelete : Except SqlFault SqlStatement := do
  let table := extractIdentifier p
  let whereClause ← changeWhere table.2
  return .delete table.1 whereClause

def parseCreate : SqlStatement :=
  let table := extractIdentifier p
  let q := skipSpaces table.2
  .create table.1 (if q.head? = some 40 then parseCreateColumns fundbMaxColumns q.tail else [])

end

def sqlParse (sql : List UInt8) : Except SqlFault SqlStatement :=
  let p := skipSpaces sql
  if strPrefixCi p kwSelect then parseSelect (skipSpaces (p.drop 6))
  else if strPrefixCi p kwInsertInto then parseInsert (skipSpaces (p.drop 11))
  else if strPrefixCi p kwUpdate then parseUpdate (skipSpaces (p.drop 6))
  else if strPrefixCi p kwDeleteFrom then parseDelete (skipSpaces (p.drop 11))
  else if strPrefixCi p kwCreateTable then .ok (parseCreate (skipSpaces (p.drop 12)))
  else if strPrefixCi p kwDropTable then
    .ok (.drop (extractIdentifier (skipSpaces (p.drop 10))).1)
  else .error .unknown

/-! ## Rows from text -/

/-- A row as `fundb_row_init` leaves it. -/
def nullRow (colCount : Nat) : List Cell := List.replicate colCount nullCell

/-- A blank or a comma between values. -/
def separator (c : UInt8) : Bool := blank c || c == 44

/-- The value at the cursor: up to the closing quote, or while `bare` holds. -/
def valueAt (bare : UInt8 → Bool) : List UInt8 → List UInt8 × List UInt8
  | 39 :: p =>
    let body := scan (· != 39) 253 p
    (39 :: body.1 ++ [39], if body.2.head? = some 39 then body.2.tail else body.2)
  | p => scan bare 254 p

/-- A character of a bare value in a list of values. -/
def listChar (c : UInt8) : Bool := !(separator c || c == 59 || c == 41)

/-- The values of a list, at most `left` of them. -/
def valueCells (fpu : FloatUnit) : Nat → List UInt8 → List Cell
  | 0, _ => []
  | left + 1, text =>
    let p := text.dropWhile separator
    if p = [] ∨ p.head? = some 59 ∨ p.head? = some 41 then []
    else
      let value := valueAt listChar p
      parseValue fpu value.1 :: valueCells fpu left value.2

variable (fpu : FloatUnit)

/-- `parse_values_list` over a fresh row. -/
def parseValuesList (table : Table) (values : List UInt8) : List Cell :=
  let given := valueCells fpu table.colCount values
  given ++ nullRow (table.colCount - given.length)

/-- A character of a column name in a SET clause. -/
def setNameChar (c : UInt8) : Bool := !(blank c || c == 61)

/-- A character of a bare value in a SET clause. -/
def setChar (c : UInt8) : Bool := !(separator c || c == 59)

/-- The loop of `parse_set_clause`; every round takes at least one character. -/
def setCells (fpu : FloatUnit) (table : Table) : Nat → List UInt8 → List Cell → List Cell
  | 0, _, row => row
  | fuel + 1, text, row =>
    let p := text.dropWhile separator
    if p = [] ∨ p.head? = some 59 then row
    else
      let name := scan setNameChar 63 p
      let q := name.2.dropWhile blank
      let value := valueAt setChar ((if q.head? = some 61 then q.tail else q).dropWhile blank)
      setCells fpu table fuel value.2
        (match findColumnIndex table name.1 with
        | some i => row.set i (parseValue fpu value.1)
        | none => row)

/-- `parse_set_clause` over a fresh row. -/
def parseSetClause (table : Table) (set : List UInt8) : List Cell :=
  setCells fpu table set.length set (nullRow table.colCount)

/-! ## SELECT -/

/-- A `fundb_result_t`. -/
structure ResultSet where
  columns : Nat → Column
  colCount : Nat
  rows : List (List Cell)

def swapRows (rows : List (List Cell)) (i j : Nat) : List (List Cell) :=
  (rows.set i (rows.getD j [])).set j (rows.getD i [])

/-- One comparison of the loops of `sort_result`. -/
def sortStep (sortCol : Nat) (ascending : Bool) (rows : List (List Cell)) (pair : Nat × Nat) :
    List (List Cell) :=
  let cmp := compareValues fpu ((rows.getD pair.1 []).getD sortCol nullCell)
    ((rows.getD pair.2 []).getD sortCol nullCell)
  if (if ascending then cmp > 0 else cmp < 0) then swapRows rows pair.1 pair.2 else rows

/-- The index pairs `i < j` in the order of the loops. -/
def sortPairs (count : Nat) : List (Nat × Nat) :=
  (List.range count).flatMap fun i => (List.range' (i + 1) (count - (i + 1))).map (i, ·)

def sortResult (sortCol : Nat) (ascending : Bool) (rows : List (List Cell)) : List (List Cell) :=
  (sortPairs rows.length).foldl (sortStep fpu sortCol ascending) rows

def orderRows (table : Table) (orderBy : List UInt8) (rows : List (List Cell)) : List (List Cell) :=
  if orderBy = [] then rows
  else
    let name := scan (fun c => !blank c) 63 (orderBy.dropWhile blank)
    match findColumnIndex table name.1 with
    | some sortCol =>
      sortResult fpu sortCol (!strPrefixCi (name.2.dropWhile blank) kwDesc) rows
    | none => rows

variable (db : Database)

def matchedRows (t : Nat) (clause : WhereClause) : List (List Cell) :=
  ((List.range (db.tables t).rowCount).filter (selects db t clause)).map fun i =>
    (db.rowStore ((db.tables t).rows i)).getD []

def limited (limit : Nat) (rows : List (List Cell)) : List (List Cell) :=
  if 0 < limit ∧ limit < rows.length then rows.take limit else rows

/-- `fundb_select`; the list of columns is not looked at. -/
def fundbSelect (name _columns whereClause orderBy : List UInt8) (limit : Nat) : Option ResultSet :=
  match findTable db (chars name) with
  | none => none
  | some t =>
    let table := db.tables t
    let rows := limited limit (matchedRows db t (evaluateWhere fpu whereClause))
    if rows = [] then none
    else some ⟨table.columns, table.colCount,
      orderRows fpu table orderBy (rows.map fun row => fundbRowCopy row table.colCount)⟩

/-! ## Queries -/

/-- The database after a statement and what the statement returns. -/
abbrev Outcome := Database × Option ResultSet

/-- The INSERT case of `fundb_query`. -/
def queryInsert (name values : List UInt8) : Outcome :=
  match findTable db (chars name) with
  | none => (db, none)
  | some t =>
    let row := if values = [] then nullRow (db.tables t).colCount
      else parseValuesList fpu (db.tables t) values
    ((fundbInsert db (chars name) row).1, none)

def queryUpdate (name values whereClause : List UInt8) : Outcome :=
  match findTable db (chars name) with
  | none => (db, none)
  | some t =>
    let row := if values = [] then nullRow (db.tables t).colCount
      else parseSetClause fpu (db.tables t) values
    ((fundbUpdate db (chars name) (evaluateWhere fpu whereClause) (some row)).1, none)

/-- Executing a parsed statement. -/
def runStatement : SqlStatement → Outcome
  | .select table columns whereClause orderBy limit =>
    (db, fundbSelect fpu db table columns whereClause orderBy limit)
  | .insert table values => queryInsert fpu db table values
  | .update table values whereClause => queryUpdate fpu db table values whereClause
  | .delete table whereClause =>
    ((fundbDelete db (chars table) (evaluateWhere fpu whereClause)).1, none)
  | .create table columns =>
    ((fundbCreateTable db (chars table)
      (some fun i => columns.getD i ⟨chars [], 0, 0, 0, 0, 0, 0⟩) columns.length).1, none)
  | .drop table => ((fundbDropTable db (chars table)).1, none)

/-- `fundb_query`. There is no outcome when a clause runs over its buffer. -/
def fundbQuery (sql : List UInt8) : Option Outcome :=
  match sqlParse sql with
  | .ok statement => some (runStatement fpu db statement)
  | .error .unknown => some (db, none)
  | .error .overrun => none

end FunsOS.Fundb
