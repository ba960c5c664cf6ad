import FunsOS.Foundation.ByteReader
import FunsOS.Foundation.SortedEntries
import FunsOS.Fundb.Store

/-!
# FunDB indexes

The index part of `kernel/fundb.c`: the trees, `fundb_create_index` and
`fundb_drop_index`, and what `fundb_create_table` and `fundb_insert` do to the indexes. The
other operations on tables do nothing to them.

A tree is a leaf, or an inner node: `btree_insert` makes an inner node when the root is a
full leaf, with that leaf as its only child, and never puts a key into it. The values in a
tree are addresses of row slots, so they name a table slot and a row slot.
-/

set_option autoImplicit false

namespace FunsOS.Fundb

open Foundation

def fundbBtreeOrder : Nat := 64

/-- The length of `indexes`. -/
def fundbMaxIndexes : Nat := 64

/-! ## Trees -/

/-- The address of `tables[t].rows[i]`. -/
abbrev RowSlot := Nat × Nat

/-- `btree_node_t`. An inner node has no keys and one child. -/
inductive BTree where
  | leaf (entries : List (Nat × RowSlot))
  | inner (child : BTree)

def btreeSearch : BTree → Nat → Option RowSlot
  | .leaf entries, key => lookupEntry entries key
  | .inner child, key => btreeSearch child key

/-- The part of `btree_insert` behind the new root: down to the leaf, and into it if there
is room. -/
def insertBelow : BTree → Nat → RowSlot → BTree × Int
  | .leaf entries, key, slot =>
    if fundbBtreeOrder - 1 ≤ entries.length then (.leaf entries, fundbError)
    else (.leaf (insertEntry (key, slot) entries), fundbOk)
  | .inner child, key, slot =>
    let below := insertBelow child key slot
    (.inner below.1, below.2)

/-- `btree_insert` into a tree that is not empty. -/
def btreeInsert (root : BTree) (key : Nat) (slot : RowSlot) : BTree × Int :=
  match root with
  | .leaf entries =>
    if fundbBtreeOrder - 1 ≤ entries.length then insertBelow (.inner root) key slot
    else insertBelow root key slot
  | .inner _ => insertBelow root key slot

/-! ## Indexes -/

/-- `fundb_index_t`. -/
structure Index where
  name : Chars
  table : Chars
  column : Chars
  root : BTree

/-- A database with its indexes. -/
structure Indexed where
  db : Database
  indexes : Nat → Index
  indexCount : Nat

/-- An index slot after `memset`; the tree of such a slot is never read. -/
def zeroIndex : Index := ⟨fun _ => 0, fun _ => 0, fun _ => 0, .leaf []⟩

/-- `strcmp(first, second) == 0` where `first` ends within its 64 bytes, from position `j`
with `left` positions to go. -/
def stringsEqual (first second : Chars) : Nat → Nat → Bool
  | 0, _ => true
  | left + 1, j =>
    if first j ≠ second j then false
    else if first j = 0 then true
    else stringsEqual first second left (j + 1)

/-- `strcmp(first, second) == 0`. -/
def sameString (first second : Chars) : Bool := stringsEqual first second 64 0

/-- The key of a cell: its number, or the position of the row. -/
def keyOf (cell : Cell) (position : Nat) : Nat :=
  match cell.value with
  | some value => if cell.type = fundbTypeInt then wordOfBytes value else position
  | none => position

def columnNamed (table : Table) (column : Chars) : Option Nat :=
  (List.range table.colCount).find? fun j => sameString column (table.columns j).name

/-- The loop of `fundb_create_index` over the rows of the table. -/
def indexRows (db : Database) (t : Nat) (column : Chars) : BTree :=
  (List.range (db.tables t).rowCount).foldl
    (fun root i =>
      match columnNamed (db.tables t) column with
      | some j =>
        let row := (db.rowStore ((db.tables t).rows i)).getD []
        (btreeInsert root (keyOf (row.getD j nullCell) i) (t, i)).1
      | none => root)
    (.leaf [])

variable (s : Indexed)

/-- `fundb_create_index`. The names go over what the slot held. -/
def fundbCreateIndex (tableName column indexName : Chars) : Indexed × Int :=
  if fundbMaxIndexes ≤ s.indexCount then (s, fundbError)
  else
    let slot := s.indexes s.indexCount
    let root := match findTable s.db tableName with
      | some t => indexRows s.db t column
      | none => .leaf []
    ({ s with
        indexes := Function.update s.indexes s.indexCount
          { name := copyName slot.name indexName
            table := copyName slot.table tableName
            column := copyName slot.column column
            root }
        indexCount := s.indexCount + 1 }, fundbOk)

def fundbDropIndex (indexName : Chars) : Indexed × Int :=
  match (List.range s.indexCount).find? fun k => sameString (s.indexes k).name indexName with
  | some i =>
    ({ s with
        indexes := fun k =>
          if i ≤ k ∧ k < s.indexCount - 1 then s.indexes (k + 1) else s.indexes k
        indexCount := s.indexCount - 1 }, fundbOk)
  | none => (s, fundbError)

/-! ## Tables and their indexes -/

/-- The name of the index of a primary key, `pk_` and the name of the table, cut at 120
characters. -/
def keyIndexName (name : Chars) : Chars :=
  fun i => if i < 3 then [112, 107, 95].getD i 0 else if i < 120 then name (i - 3) else 0

/-- `fundb_create_table` with the index of the first primary key. The index is made before
the table is counted, so `find_table` does not find it. -/
def Indexed.createTable (name : Chars) (columns : Option (Nat → Column)) (colCount : Nat) :
    Indexed × Int :=
  let created := fundbCreateTable s.db name columns colCount
  if created.2 = fundbOk then
    let table := created.1.tables s.db.tableCount
    match (List.range table.colCount).find? fun i => (table.columns i).primaryKey != 0 with
    | some i =>
      ({ (fundbCreateIndex s name (table.columns i).name (keyIndexName name)).1 with
          db := created.1 }, created.2)
    | none => ({ s with db := created.1 }, created.2)
  else (s, created.2)

/-- The index after a row went into slot `i` of table `t`. -/
def Index.afterInsert (index : Index) (tableName : Chars) (table : Table) (t : Nat)
    (row : List Cell) : Index :=
  if sameString index.table tableName then
    match columnNamed table index.column with
    | some j =>
      { index with
        root := (btreeInsert index.root (keyOf (row.getD j nullCell) table.rowCount)
          (t, table.rowCount)).1 }
    | none => index
  else index

/-- `fundb_insert` with the index update; the keys are those of the given row with its
generated ids. -/
def Indexed.insert (tableName : Chars) (row : List Cell) : Indexed × Int :=
  let inserted := fundbInsert s.db tableName row
  if inserted.2 = fundbOk then
    match findTable s.db tableName with
    | some t =>
      ({ s with
          db := inserted.1
          indexes := fun k =>
            if k < s.indexCount then
              (s.indexes k).afterInsert tableName (s.db.tables t) t
                (fillAutoColumns (s.db.tables t) row).1
            else s.indexes k }, inserted.2)
    | none => (s, inserted.2)
  else (s, inserted.2)

end FunsOS.Fundb
