import FunsOS.Fundb.Rollback
import FunsOS.Fundb.Where
import Mathlib.Data.List.GetD
import Mathlib.Data.List.Nodup
import Mathlib.Data.List.Perm.Basic

/-!
# Tables as lists of rows

Seen from outside a table is a list of rows: INSERT appends a row, UPDATE changes the
selected rows where they stand, DELETE keeps the rows that are not selected. The engine
keeps references to row arrays in slots and moves slots around. `Sound` says that every
slot in use has arrays of its own; the operations keep it and compute the list operations,
and they leave every other table alone.

`Sound` takes a property of the arrays, given the number of columns, that the operations
also keep, such as "one cell per column, each with a value as long as its size says".
-/

set_option autoImplicit false

namespace FunsOS.Fundb

open Foundation Function List Nat Database

/-! ## References and rows -/

namespace Database

variable (db : Database)

/-- The references in the slots in use. -/
def refs (t : Nat) : List RowRef :=
  (range (db.tables t).rowCount).map (db.tables t).rows

/-- What a reference points to; nothing when it was freed. -/
def rowAt (ref : RowRef) : List Cell := (db.rowStore ref).getD []

def rows (t : Nat) : List (List Cell) := (db.refs t).map db.rowAt

theorem length_refs {t : Nat} : (db.refs t).length = (db.tables t).rowCount := by
  simp [refs]

theorem length_rows (t : Nat) : (db.rows t).length = (db.tables t).rowCount := by
  simp [rows, refs]

variable {db} in
theorem lt_length_rows {t n : Nat} (inside : n < (db.tables t).rowCount) :
    n < (db.rows t).length := by
  rwa [length_rows]

end Database

/-- A row of `colCount` cells with property `P`. -/
structure RowOk (P : Cell → Prop) (colCount : Nat) (cells : List Cell) : Prop where
  width : cells.length = colCount
  cells : ∀ cell ∈ cells, P cell

/-- Every slot in use has its own arrays, with property `R`. -/
structure Sound (R : Nat → List Cell → Prop) (db : Database) : Prop where
  nodup : ∀ t < db.tableCount, (db.refs t).Nodup
  apart : ∀ t < db.tableCount, ∀ u < db.tableCount, t ≠ u → ∀ ref ∈ db.refs t, ref ∉ db.refs u
  fresh : ∀ t < db.tableCount, ∀ ref ∈ db.refs t, ref < db.nextRow
  live : ∀ t < db.tableCount, ∀ ref ∈ db.refs t,
    ∃ cells, db.rowStore ref = some cells ∧ R (db.tables t).colCount cells

variable {db db' db'' : Database} {t : Nat} {R : Nat → List Cell → Prop} {P : Cell → Prop}
  {α : Type}

theorem Sound.mono {S : Nat → List Cell → Prop} (sound : Sound R db)
    (weaker : ∀ colCount cells, R colCount cells → S colCount cells) : Sound S db where
  nodup := sound.nodup
  apart := sound.apart
  fresh := sound.fresh
  live := by
    intro t inUse ref member
    obtain ⟨cells, stored, ok⟩ := sound.live t inUse ref member
    exact ⟨cells, stored, weaker _ _ ok⟩

theorem Sound.row_ok (sound : Sound R db) (inUse : t < db.tableCount) {row : List Cell}
    (member : row ∈ db.rows t) : R (db.tables t).colCount row := by
  obtain ⟨ref, inside, rfl⟩ := mem_map.mp member
  obtain ⟨cells, stored, ok⟩ := sound.live t inUse ref inside
  rwa [rowAt, stored]

/-! ## Tables that keep their rows -/

/-- Every table in use other than `t` was in use before, at some place of its own, and its
arrays stay. -/
structure Elsewhere (t : Nat) (place : Nat → Nat) (db db' : Database) : Prop where
  inUse : ∀ u < db'.tableCount, u ≠ t → place u < db.tableCount
  tables : ∀ u < db'.tableCount, u ≠ t → db'.tables u = db.tables (place u)
  inj : ∀ u < db'.tableCount, ∀ v < db'.tableCount, place u = place v → u = v
  nextRow : db.nextRow ≤ db'.nextRow
  store : ∀ u < db'.tableCount, u ≠ t → ∀ ref ∈ db.refs (place u),
    db'.rowStore ref = db.rowStore ref

namespace Elsewhere

variable {place : Nat → Nat} (elsewhere : Elsewhere t place db db') {u : Nat}
  (used : u < db'.tableCount) (other : u ≠ t)
include elsewhere

include used other in
theorem refs_eq : db'.refs u = db.refs (place u) := by
  rw [refs, refs, elsewhere.tables u used other]

include used other in
theorem rows_eq : db'.rows u = db.rows (place u) := by
  rw [rows, rows, elsewhere.refs_eq used other]
  refine map_congr_left fun ref member => ?_
  rw [rowAt, rowAt, elsewhere.store u used other ref member]

/-- The database is sound again when table `t` is, if it is in use at all. -/
theorem sound (sound : Sound R db)
    (nodup : t < db'.tableCount → (db'.refs t).Nodup)
    (apart : t < db'.tableCount → ∀ u < db'.tableCount, u ≠ t → ∀ ref ∈ db'.refs t,
      ref ∉ db.refs (place u))
    (fresh : t < db'.tableCount → ∀ ref ∈ db'.refs t, ref < db'.nextRow)
    (live : t < db'.tableCount → ∀ ref ∈ db'.refs t,
      ∃ cells, db'.rowStore ref = some cells ∧ R (db'.tables t).colCount cells) :
    Sound R db' := by
  constructor
  case nodup =>
    intro u used
    by_cases here : u = t
    · subst here
      exact nodup used
    · rw [elsewhere.refs_eq used here]
      exact sound.nodup _ (elsewhere.inUse u used here)
  case apart =>
    intro u used v used' differ ref member inOther
    by_cases here : u = t
    · subst here
      rw [elsewhere.refs_eq used' differ.symm] at inOther
      exact apart used v used' differ.symm ref member inOther
    · rw [elsewhere.refs_eq used here] at member
      by_cases there : v = t
      · subst there
        exact apart used' u used here ref inOther member
      · rw [elsewhere.refs_eq used' there] at inOther
        exact sound.apart _ (elsewhere.inUse u used here) _ (elsewhere.inUse v used' there)
          (fun same => differ (elsewhere.inj u used v used' same)) ref member inOther
  case fresh =>
    intro u used ref member
    by_cases here : u = t
    · subst here
      exact fresh used ref member
    · rw [elsewhere.refs_eq used here] at member
      exact lt_of_lt_of_le (sound.fresh _ (elsewhere.inUse u used here) ref member)
        elsewhere.nextRow
  case live =>
    intro u used ref member
    by_cases here : u = t
    · subst here
      exact live used ref member
    · rw [elsewhere.refs_eq used here] at member
      rw [elsewhere.tables u used here, elsewhere.store u used here ref member]
      exact sound.live _ (elsewhere.inUse u used here) ref member

/-- The database stays sound when there is no such table. -/
theorem sound_of_unused (sound : Sound R db) (unused : ¬t < db'.tableCount) :
    Sound R db' :=
  elsewhere.sound sound (absurd · unused) (absurd · unused) (absurd · unused) (absurd · unused)

end Elsewhere

/-- The tables in use stay in their places. -/
theorem elsewhere_of_tables (tableCount : db'.tableCount = db.tableCount)
    (tables : ∀ t < db.tableCount, db'.tables t = db.tables t)
    (rowStore : db'.rowStore = db.rowStore) (nextRow : db'.nextRow = db.nextRow) :
    Elsewhere db.tableCount id db db' where
  inUse := fun _ used _ => tableCount ▸ used
  tables := fun u used _ => tables u (tableCount ▸ used)
  inj := fun _ _ _ _ same => same
  nextRow := le_of_eq nextRow.symm
  store := fun _ _ _ ref _ => by rw [rowStore]

/-! ## Operations on one table -/

/-- Only table `t` is changed: its new references are old ones of the table or new, and
the arrays of the other tables stay. -/
structure OnlyTable (t : Nat) (db db' : Database) : Prop where
  tableCount : db'.tableCount = db.tableCount
  tables : ∀ u ≠ t, db'.tables u = db.tables u
  nextRow : db.nextRow ≤ db'.nextRow
  refs : ∀ ref ∈ db'.refs t, ref ∈ db.refs t ∨ db.nextRow ≤ ref
  store : ∀ ref < db.nextRow, ref ∉ db.refs t → db'.rowStore ref = db.rowStore ref

namespace OnlyTable

variable (only : OnlyTable t db db')

include only

theorem elsewhere (sound : Sound R db) (inUse : t < db.tableCount) : Elsewhere t id db db' where
  inUse := fun _ used _ => only.tableCount ▸ used
  tables := fun u _ other => only.tables u other
  inj := fun _ _ _ _ same => same
  nextRow := only.nextRow
  store := fun u used other ref member =>
    have used := only.tableCount ▸ used
    only.store ref (sound.fresh u used ref member) (sound.apart u used t inUse other ref member)

/-- The database is sound again when the table is. -/
theorem sound (sound : Sound R db) (inUse : t < db.tableCount) (nodup : (db'.refs t).Nodup)
    (fresh : ∀ ref ∈ db'.refs t, ref < db'.nextRow)
    (live : ∀ ref ∈ db'.refs t,
      ∃ cells, db'.rowStore ref = some cells ∧ R (db'.tables t).colCount cells) :
    Sound R db' := by
  refine (only.elsewhere sound inUse).sound sound (fun _ => nodup) ?_ (fun _ => fresh) fun _ => live
  intro _ u used other ref member inOther
  have used := only.tableCount ▸ used
  obtain old | new := only.refs ref member
  · exact sound.apart u used t inUse other ref inOther old
  · exact absurd (sound.fresh u used ref inOther) (not_lt.mpr new)

omit only in
theorem trans (earlier : OnlyTable t db db') (later : OnlyTable t db' db'') :
    OnlyTable t db db'' where
  tableCount := later.tableCount.trans earlier.tableCount
  tables := fun u other => (later.tables u other).trans (earlier.tables u other)
  nextRow := le_trans earlier.nextRow later.nextRow
  refs := by
    intro ref member
    obtain old | new := later.refs ref member
    · exact earlier.refs ref old
    · exact .inr (le_trans earlier.nextRow new)
  store := by
    intro ref below outside
    have still : ref ∉ db'.refs t := fun member =>
      (earlier.refs ref member).elim outside (not_le.mpr below)
    rw [later.store ref (lt_of_lt_of_le below earlier.nextRow) still,
      earlier.store ref below outside]

omit only in
/-- Nothing a table is made of changed. -/
theorem of_eq (tables : db'.tables = db.tables) (tableCount : db'.tableCount = db.tableCount)
    (rowStore : db'.rowStore = db.rowStore) (nextRow : db'.nextRow = db.nextRow) :
    OnlyTable t db db' where
  tableCount
  tables := fun u _ => by rw [tables]
  nextRow := le_of_eq nextRow.symm
  refs := fun ref member => .inl (by rwa [Database.refs, tables] at member)
  store := fun ref _ _ => by rw [rowStore]

end OnlyTable

/-- Table `t` now has the given rows, with the same name and columns; the database is sound
and the other tables are as before. -/
structure NewRows (R : Nat → List Cell → Prop) (t : Nat) (rows : List (List Cell))
    (db db' : Database) : Prop where
  only : OnlyTable t db db'
  sound : Sound R db'
  rows : db'.rows t = rows
  name : (db'.tables t).name = (db.tables t).name
  columns : (db'.tables t).columns = (db.tables t).columns
  colCount : (db'.tables t).colCount = (db.tables t).colCount

theorem NewRows.of_eq (sound : Sound R db) (tables : db'.tables = db.tables)
    (tableCount : db'.tableCount = db.tableCount) (rowStore : db'.rowStore = db.rowStore)
    (nextRow : db'.nextRow = db.nextRow) : NewRows R t (db.rows t) db db' where
  only := OnlyTable.of_eq tables tableCount rowStore nextRow
  sound := (elsewhere_of_tables tableCount (fun _ _ => by rw [tables]) rowStore
    nextRow).sound_of_unused sound (not_lt.mpr (le_of_eq tableCount))
  rows := by
    have stored : db'.rowAt = db.rowAt := by
      funext ref
      rw [rowAt, rowAt, rowStore]
    rw [Database.rows, Database.rows, Database.refs, Database.refs, tables, stored]
  name := by rw [tables]
  columns := by rw [tables]
  colCount := by rw [tables]

/-- Logging changes no table. -/
theorem NewRows.walAppend (sound : Sound R db) (t : Nat) (operation : WalOperation) (name : Chars)
    (rowIndex : Nat) (oldData : Option (List Cell)) (colCount : Nat) :
    NewRows R t (db.rows t) db (walAppend db operation name rowIndex oldData colCount) :=
  NewRows.of_eq sound (by simp) (by simp) (by simp) (by simp)

theorem NewRows.trans {first second : List (List Cell)} (earlier : NewRows R t first db db')
    (later : NewRows R t second db' db'') : NewRows R t second db db'' where
  only := earlier.only.trans later.only
  sound := later.sound
  rows := later.rows
  name := later.name.trans earlier.name
  columns := later.columns.trans earlier.columns
  colCount := later.colCount.trans earlier.colCount

/-! ## One more table -/

/-- The slot behind the last table is in use now; the other tables and their arrays stay. -/
structure OneMore (db db' : Database) : Prop where
  tableCount : db'.tableCount = db.tableCount + 1
  tables : ∀ t ≠ db.tableCount, db'.tables t = db.tables t
  nextRow : db.nextRow ≤ db'.nextRow
  store : ∀ ref < db.nextRow, db'.rowStore ref = db.rowStore ref

namespace OneMore

variable (more : OneMore db db')
include more

theorem elsewhere (sound : Sound R db) : Elsewhere db.tableCount id db db' := by
  have old : ∀ u < db'.tableCount, u ≠ db.tableCount → u < db.tableCount := by
    intro u used other
    rw [more.tableCount] at used
    omega
  exact ⟨old, fun u _ other => more.tables u other, fun _ _ _ _ same => same, more.nextRow,
    fun u used other ref member =>
      more.store ref (sound.fresh u (old u used other) ref member)⟩

/-- The database is sound again when the new table has new arrays. -/
theorem sound (sound : Sound R db) (nodup : (db'.refs db.tableCount).Nodup)
    (fresh : ∀ ref ∈ db'.refs db.tableCount, db.nextRow ≤ ref ∧ ref < db'.nextRow)
    (live : ∀ ref ∈ db'.refs db.tableCount,
      ∃ cells, db'.rowStore ref = some cells ∧ R (db'.tables db.tableCount).colCount cells) :
    Sound R db' := by
  have elsewhere := more.elsewhere sound
  refine elsewhere.sound sound (fun _ => nodup) ?_ (fun _ ref member => (fresh ref member).2)
    fun _ => live
  intro _ u used other ref new member
  have old := sound.fresh u (elsewhere.inUse u used other) ref member
  exact absurd old (not_lt.mpr (fresh ref new).1)

end OneMore

/-! ## INSERT appends -/

section Insert

variable (row : List Cell)

/-- The cells INSERT stores: generated ids filled in, and copied. -/
def insertedRow (table : Table) (row : List Cell) : List Cell :=
  fundbRowCopy (fillAutoColumns table row).1 table.colCount

theorem insertedRow_getD {table : Table} {row : List Cell} {i : Nat} (inside : i < table.colCount) :
    (insertedRow table row).getD i nullCell =
      ((fillAutoColumns table row).1.getD i nullCell).copy := by
  rw [insertedRow, fundbRowCopy, getD_eq_getElem _ _ (by simpa using inside)]
  simp

theorem refs_storeRow : (storeRow db t row).refs t = db.refs t ++ [db.nextRow] := by
  simp only [refs, storeRow, setTable, update_self, range_succ, map_append, map_cons, map_nil]
  congr 1
  refine map_congr_left fun i member => ?_
  rw [update_of_ne (Nat.ne_of_lt (mem_range.mp member))]

theorem onlyTable_storeRow (db : Database) (t : Nat) : OnlyTable t db (storeRow db t row) where
  tableCount := rfl
  tables := fun u other => update_of_ne other _ _
  nextRow := le_succ _
  refs := by
    intro ref member
    rw [refs_storeRow] at member
    obtain old | new := mem_append.mp member
    · exact .inl old
    · exact .inr (le_of_eq (mem_singleton.mp new).symm)
  store := fun ref below _ => update_of_ne (Nat.ne_of_lt below) _ _

theorem newRows_storeRow (sound : Sound (RowOk P) db) (inUse : t < db.tableCount)
    (cells : ∀ cell ∈ insertedRow (db.tables t) row, P cell) :
    NewRows (RowOk P) t (db.rows t ++ [insertedRow (db.tables t) row]) db (storeRow db t row) := by
  have only := onlyTable_storeRow row db t
  have old : ∀ ref ∈ db.refs t, (storeRow db t row).rowStore ref = db.rowStore ref :=
    fun ref member => update_of_ne (Nat.ne_of_lt (sound.fresh t inUse ref member)) _ _
  have new : (storeRow db t row).rowStore db.nextRow = some (insertedRow (db.tables t) row) :=
    update_self _ _ _
  have table : (storeRow db t row).tables t = { db.tables t with
      rows := update (db.tables t).rows (db.tables t).rowCount db.nextRow
      rowCount := (db.tables t).rowCount + 1
      nextAutoId := (fillAutoColumns (db.tables t) row).2
      dirty := true } := update_self _ _ _
  have ok : RowOk P (db.tables t).colCount (insertedRow (db.tables t) row) :=
    ⟨by simp [insertedRow, fundbRowCopy], cells⟩
  refine ⟨only, only.sound sound inUse ?_ ?_ ?_, ?_, by rw [table], by rw [table], by rw [table]⟩
  · rw [refs_storeRow]
    refine List.Nodup.append (sound.nodup t inUse) (nodup_singleton _) ?_
    intro ref member isNew
    exact absurd (sound.fresh t inUse ref member)
      (not_lt.mpr (le_of_eq (mem_singleton.mp isNew).symm))
  · intro ref member
    rw [refs_storeRow] at member
    obtain inside | isNew := mem_append.mp member
    · exact lt_succ_of_lt (sound.fresh t inUse ref inside)
    · exact lt_succ_of_le (le_of_eq (mem_singleton.mp isNew))
  · intro ref member
    rw [refs_storeRow] at member
    rw [table]
    obtain inside | isNew := mem_append.mp member
    · rw [old ref inside]
      exact sound.live t inUse ref inside
    · rw [mem_singleton.mp isNew, new]
      exact ⟨_, rfl, ok⟩
  · rw [rows, refs_storeRow, map_append, map_singleton]
    congr 1
    · exact map_congr_left fun ref member => by
        rw [rowAt, rowAt, old ref member]
    · rw [rowAt, new]
      rfl

end Insert

/-! ## DELETE filters -/

/-- The clause looks at the columns of the table only, not at its rows. -/
def ColumnsOnly (clause : WhereClause) : Prop :=
  ∀ (table table' : Table) (row : List Cell), table.columns = table'.columns →
    table.colCount = table'.colCount → clause table row = clause table' row

/-- Where clauses read the columns of a table only. -/
theorem columnsOnly_evaluateWhere (fpu : FloatUnit) (text : List UInt8) :
    ColumnsOnly (evaluateWhere fpu text) := by
  intro table table' row columns colCount
  have same : evaluateSingleCondition fpu table row = evaluateSingleCondition fpu table' row := by
    funext cond
    have found : findColumnIndex table cond.column = findColumnIndex table' cond.column := by
      rw [findColumnIndex, findColumnIndex, columns, colCount]
    rw [evaluateSingleCondition, evaluateSingleCondition, found]
  rw [evaluateWhere, evaluateWhere, same]

theorem selects_getD {i : Nat} (clause : WhereClause) (inside : i < (db.tables t).rowCount) :
    selects db t clause i = clause (db.tables t) ((db.rows t).getD i []) := by
  simp [selects, rows, refs, rowAt, getD_eq_getElem?_getD, inside]

theorem Sound.stored (sound : Sound R db) {i : Nat} (inUse : t < db.tableCount)
    (inside : i < (db.tables t).rowCount) :
    db.rowStore ((db.tables t).rows i) = some ((db.rows t).getD i []) := by
  have member : (db.tables t).rows i ∈ db.refs t := mem_map.mpr ⟨i, mem_range.mpr inside, rfl⟩
  obtain ⟨cells, stored, -⟩ := sound.live t inUse _ member
  simp [rows, refs, rowAt, getD_eq_getElem?_getD, inside, stored]

section Delete

variable {i : Nat}

/-- Freeing the row of a slot and closing the gap. -/
def dropSlot (db : Database) (t i : Nat) : Database :=
  (db.freeRow ((db.tables t).rows i)).setTable t ((db.tables t).removeRow i)

theorem dropSlot_tables :
    (dropSlot db t i).tables t = (db.tables t).removeRow i := update_self _ _ _

theorem refs_dropSlot (inside : i < (db.tables t).rowCount) :
    (dropSlot db t i).refs t = (db.refs t).eraseIdx i := by
  rw [refs, dropSlot_tables, refs]
  refine ext_getElem ?_ fun k left right => ?_
  · simp [Table.removeRow, length_eraseIdx, inside]
  · have below : k < (db.tables t).rowCount - 1 := by simpa [Table.removeRow] using left
    rw [getElem_eraseIdx]
    by_cases before : k < i
    · simp [Table.removeRow, before, not_le.mpr before]
    · simp [Table.removeRow, before, not_lt.mp before, below]

theorem newRows_dropSlot (sound : Sound R db) (inUse : t < db.tableCount)
    (inside : i < (db.tables t).rowCount) :
    NewRows R t ((db.rows t).eraseIdx i) db (dropSlot db t i) := by
  have position : i < (db.refs t).length := by rwa [db.length_refs]
  have freed : (db.tables t).rows i = (db.refs t)[i] := by simp [refs]
  have others : ∀ ref ∈ (db.refs t).eraseIdx i,
      ref ∈ db.refs t ∧ (dropSlot db t i).rowStore ref = db.rowStore ref := by
    intro ref member
    refine ⟨mem_of_mem_eraseIdx member, update_of_ne ?_ _ _⟩
    rintro rfl
    rw [freed, ← (sound.nodup t inUse).erase_getElem i position] at member
    exact (sound.nodup t inUse).not_mem_erase member
  have only : OnlyTable t db (dropSlot db t i) := by
    refine ⟨rfl, fun u other => update_of_ne other _ _, le_refl _, ?_, ?_⟩
    · intro ref member
      rw [refs_dropSlot inside] at member
      exact .inl (others ref member).1
    · intro ref _ outside
      refine update_of_ne ?_ _ _
      rintro rfl
      exact outside (by rw [freed]; exact getElem_mem position)
  refine ⟨only, only.sound sound inUse ?_ ?_ ?_, ?_, by rw [dropSlot_tables]; rfl,
    by rw [dropSlot_tables]; rfl, by rw [dropSlot_tables]; rfl⟩
  · rw [refs_dropSlot inside]
    exact (sound.nodup t inUse).eraseIdx i
  · intro ref member
    rw [refs_dropSlot inside] at member
    exact sound.fresh t inUse ref (others ref member).1
  · intro ref member
    rw [refs_dropSlot inside] at member
    rw [(others ref member).2, dropSlot_tables]
    exact sound.live t inUse ref (others ref member).1
  · rw [rows, refs_dropSlot inside, rows, eraseIdx_map]
    exact map_congr_left fun ref member => by
      rw [rowAt, rowAt, (others ref member).2]

/-- One slot of the loop of `fundb_delete`. -/
theorem newRows_deleteSlot {acc : Database × Nat} (name : Chars) (clause : WhereClause)
    (sound : Sound R acc.1) (inUse : t < acc.1.tableCount)
    (inside : i < (acc.1.tables t).rowCount) :
    NewRows R t (if selects acc.1 t clause i then (acc.1.rows t).eraseIdx i else acc.1.rows t)
      acc.1 (deleteSlot t name clause acc i).1 := by
  obtain ⟨db, count⟩ := acc
  dsimp only [deleteSlot] at sound inUse inside ⊢
  cases selected : selects db t clause i with
  | false =>
    exact NewRows.of_eq sound rfl rfl rfl rfl
  | true =>
    simp only [if_true]
    split
    · have logged := NewRows.walAppend sound t .delete name i
        (some ((db.rowStore ((db.tables t).rows i)).getD [])) (db.tables t).colCount
      have dropped := newRows_dropSlot logged.sound (by simpa using inUse) (by simpa using inside)
      rw [logged.rows] at dropped
      simpa [dropSlot] using logged.trans dropped
    · exact newRows_dropSlot sound inUse inside

/-- The loop of `fundb_delete` over the first `n` slots, from the last one down: the rows
behind them stay, of the first `n` those stay that the clause does not select. -/
theorem newRows_deleteLoop (name : Chars) {clause : WhereClause} (columnsOnly : ColumnsOnly clause)
    {acc : Database × Nat} (sound : Sound R acc.1) (inUse : t < acc.1.tableCount) {n : Nat}
    (inside : n ≤ (acc.1.tables t).rowCount) :
    NewRows R t
      (((acc.1.rows t).take n).filter (fun row => !clause (acc.1.tables t) row) ++
        (acc.1.rows t).drop n)
      acc.1 ((range n).reverse.foldl (deleteSlot t name clause) acc).1 := by
  induction n generalizing acc with
  | zero => simpa using NewRows.of_eq sound rfl rfl rfl rfl
  | succ n ih =>
    rw [range_succ, reverse_append, reverse_singleton, singleton_append]
    have here := newRows_deleteSlot name clause sound inUse (lt_of_succ_le inside)
    have position := lt_length_rows (lt_of_succ_le inside)
    have same : ∀ row, clause ((deleteSlot t name clause acc n).1.tables t) row =
        clause (acc.1.tables t) row :=
      fun row => columnsOnly _ _ row here.columns here.colCount
    rw [selects_getD clause (lt_of_succ_le inside), getD_eq_getElem _ _ position] at here
    have smaller : n ≤ ((deleteSlot t name clause acc n).1.tables t).rowCount := by
      rw [← length_rows, here.rows]
      split
      · rw [length_eraseIdx_of_lt position]
        omega
      · exact le_of_lt position
    have rest := ih here.sound (here.only.tableCount ▸ inUse) smaller
    have whole := here.trans rest
    rw [here.rows] at whole
    simp only [same] at whole
    rw [← take_append_getElem position, filter_append]
    -- Whether slot `n` goes or stays, the first `n` rows are those of the old table.
    cases selected : clause (acc.1.tables t) (acc.1.rows t)[n] with
    | true =>
      have behind : ((acc.1.rows t).eraseIdx n).drop n = (acc.1.rows t).drop (n + 1) := by
        rw [eraseIdx_eq_take_drop_succ, drop_left' (length_take_of_le (le_of_lt position))]
      rw [selected, if_pos rfl, take_eraseIdx_eq_take_of_le _ _ _ (le_refl n), behind] at whole
      simpa [selected] using whole
    | false => simpa [selected] using whole

end Delete

/-! ## UPDATE changes rows where they stand -/

section Update

variable {i : Nat}

def changeSlot (db : Database) (t i : Nat) (change : List Cell → List Cell) : Database :=
  { db with
    rowStore := Function.update db.rowStore ((db.tables t).rows i)
      ((db.rowStore ((db.tables t).rows i)).map change) }

theorem newRows_changeSlot (sound : Sound R db) (inUse : t < db.tableCount)
    (inside : i < (db.tables t).rowCount) {change : List Cell → List Cell}
    (keeps : ∀ cells, R (db.tables t).colCount cells →
      R (db.tables t).colCount (change cells)) :
    NewRows R t ((db.rows t).modify i change) db (changeSlot db t i change) := by
  have position : i < (db.refs t).length := by rwa [db.length_refs]
  have changed : (db.tables t).rows i = (db.refs t)[i] := by simp [refs]
  have member : (db.refs t)[i] ∈ db.refs t := getElem_mem position
  obtain ⟨cells, stored, ok⟩ := sound.live t inUse _ member
  have here : (changeSlot db t i change).rowStore (db.refs t)[i] = some (change cells) := by
    simp [changeSlot, changed, stored]
  have elsewhere : ∀ ref, ref ≠ (db.refs t)[i] →
      (changeSlot db t i change).rowStore ref = db.rowStore ref := by
    intro ref other
    simp [changeSlot, changed, update_of_ne other]
  have only : OnlyTable t db (changeSlot db t i change) := by
    refine ⟨rfl, fun _ _ => rfl, le_refl _, fun _ inside => .inl inside, ?_⟩
    intro ref _ outside
    exact elsewhere ref fun same => outside (same ▸ member)
  refine ⟨only, only.sound sound inUse (sound.nodup t inUse) (sound.fresh t inUse) ?_, ?_, rfl,
    rfl, rfl⟩
  · intro ref inRefs
    by_cases same : ref = (db.refs t)[i]
    · subst same
      exact ⟨_, here, keeps cells ok⟩
    · rw [elsewhere ref same]
      exact sound.live t inUse ref inRefs
  · refine ext_getElem (by simp [length_rows, changeSlot]) fun k left right => ?_
    have bound : k < (db.refs t).length := by simpa [rows] using right
    have read : ∀ d : Database, d.refs t = db.refs t → ∀ below : k < (d.rows t).length,
        (d.rows t)[k] = d.rowAt (db.refs t)[k] := by
      intro d same below
      simp [rows, same]
    rw [read (changeSlot db t i change) rfl left, getElem_modify, read db rfl]
    by_cases same : i = k
    · subst same
      rw [if_pos rfl, rowAt, here, rowAt, stored]
      rfl
    · have differ : (db.refs t)[k] ≠ (db.refs t)[i] := fun equal =>
        same ((sound.nodup t inUse).getElem_inj_iff.mp equal).symm
      rw [if_neg same, rowAt, elsewhere _ differ, rowAt]

variable {row : List Cell} {acc : Database × Nat} {n : Nat}

/-- The new cells of an update are as good as the old ones. -/
theorem rowOk_updateCells {colCount : Nat} {cells : List Cell}
    (given : ∀ j < colCount, (row.getD j nullCell).type ≠ fundbTypeNull →
      P (row.getD j nullCell).copy) (ok : RowOk P colCount cells) :
    RowOk P colCount (updateCells colCount row cells) := by
  refine ⟨by simp [updateCells, ok.width], fun cell member => ?_⟩
  obtain ⟨j, inside, rfl⟩ := mem_iff_getElem.mp member
  simp only [updateCells, getElem_mapIdx]
  split
  · rename_i replaced
    exact given j replaced.1 replaced.2
  · exact ok.cells _ (getElem_mem _)

@[simp] theorem updateSlot_tables {name : Chars} {clause : WhereClause} :
    (updateSlot t name clause row acc i).1.tables = acc.1.tables := by
  unfold updateSlot
  dsimp only
  split
  · split <;> simp
  · rfl

theorem updateLoop_tables (t : Nat) (name : Chars) (clause : WhereClause) (row : List Cell)
    (acc : Database × Nat) (slots : List Nat) :
    (slots.foldl (updateSlot t name clause row) acc).1.tables = acc.1.tables :=
  foldl_invariant (P := fun result : Database × Nat => result.1.tables = acc.1.tables)
    (fun _ _ same => updateSlot_tables.trans same) rfl slots

theorem modify_append_cons (front : List α) (x : α) (behind : List α) (f : α → α) :
    (front ++ x :: behind).modify front.length f = front ++ f x :: behind := by
  induction front with
  | nil => rfl
  | cons y front ih => simp [ih]

theorem updateCells_getD {colCount : Nat} {given stored : List Cell} {j : Nat} :
    (updateCells colCount given stored).getD j nullCell = stored.getD j nullCell ∨
      (given.getD j nullCell).type ≠ fundbTypeNull ∧
        (updateCells colCount given stored).getD j nullCell = (given.getD j nullCell).copy := by
  rw [updateCells, getD_eq_getElem?_getD, getElem?_mapIdx, getD_eq_getElem?_getD (l := stored)]
  cases stored[j]? with
  | none => exact .inl rfl
  | some cell =>
    split
    case isTrue isGiven => exact .inr ⟨isGiven.2, rfl⟩
    case isFalse => exact .inl rfl

def updatedRow (table : Table) (clause : WhereClause) (row stored : List Cell) : List Cell :=
  if clause table stored then updateCells table.colCount row stored else stored

theorem getD_map_take_append_drop (f : α → α) (items : List α) (fallback : α) :
    ((items.take n).map f ++ items.drop n).getD n fallback = items.getD n fallback := by
  induction items generalizing n with
  | nil => simp
  | cons item items ih =>
    cases n with
    | zero => rfl
    | succ n => simpa using ih

section

variable (name : Chars) (clause : WhereClause) (sound : Sound (RowOk P) acc.1)
  (inUse : t < acc.1.tableCount)
  (given : ∀ j < (acc.1.tables t).colCount, (row.getD j nullCell).type ≠ fundbTypeNull →
    P (row.getD j nullCell).copy)
include sound inUse given

/-- One slot of the loop of `fundb_update`. -/
theorem newRows_updateSlot (inside : i < (acc.1.tables t).rowCount) :
    NewRows (RowOk P) t
      (if selects acc.1 t clause i then
        (acc.1.rows t).modify i (updateCells (acc.1.tables t).colCount row) else acc.1.rows t)
      acc.1 (updateSlot t name clause row acc i).1 := by
  obtain ⟨db, count⟩ := acc
  dsimp only [updateSlot] at sound inUse inside given ⊢
  have keeps := fun cells => @rowOk_updateCells P row (db.tables t).colCount cells given
  cases selected : selects db t clause i with
  | false =>
    exact NewRows.of_eq sound rfl rfl rfl rfl
  | true =>
    simp only [if_true]
    split
    · have logged := NewRows.walAppend sound t .update name i
        (some ((db.rowStore ((db.tables t).rows i)).getD [])) (db.tables t).colCount
      have changed := newRows_changeSlot logged.sound (by simpa using inUse)
        (by simpa using inside) (by simpa using keeps)
      rw [logged.rows] at changed
      simpa [changeSlot] using logged.trans changed
    · exact newRows_changeSlot sound inUse inside keeps

/-- The loop of `fundb_update` over the first `n` slots. -/
theorem newRows_updateLoop (inside : n ≤ (acc.1.tables t).rowCount) :
    NewRows (RowOk P) t
      (((acc.1.rows t).take n).map (updatedRow (acc.1.tables t) clause row) ++
        (acc.1.rows t).drop n)
      acc.1 ((range n).foldl (updateSlot t name clause row) acc).1 := by
  induction n with
  | zero => simpa using NewRows.of_eq sound rfl rfl rfl rfl
  | succ n ih =>
    rw [range_succ, foldl_append, foldl_cons]
    have before := ih (le_of_succ_le inside)
    have tables := updateLoop_tables t name clause row acc (range n)
    have position := lt_length_rows (lt_of_succ_le inside)
    have taken : (((acc.1.rows t).take n).map (updatedRow (acc.1.tables t) clause row)).length = n := by
      simp [le_of_lt position]
    have slot := newRows_updateSlot name clause before.sound (before.only.tableCount ▸ inUse)
      (by rw [tables]; exact given) (by rw [tables]; exact lt_of_succ_le inside)
    have read : selects ((range n).foldl (updateSlot t name clause row) acc).1 t clause n =
        clause (acc.1.tables t) (acc.1.rows t)[n] := by
      rw [selects_getD clause (by rw [tables]; exact lt_of_succ_le inside), before.rows, tables,
        getD_map_take_append_drop, getD_eq_getElem _ _ position]
    have whole := before.trans slot
    rw [read, before.rows, tables, drop_eq_getElem_cons position] at whole
    rw [← take_append_getElem position, map_append]
    cases selected : clause (acc.1.tables t) (acc.1.rows t)[n] with
    | true =>
      have changed := modify_append_cons
        (((acc.1.rows t).take n).map (updatedRow (acc.1.tables t) clause row)) (acc.1.rows t)[n]
        ((acc.1.rows t).drop (n + 1)) (updateCells (acc.1.tables t).colCount row)
      rw [taken] at changed
      rw [selected, changed] at whole
      simpa [updatedRow, selected] using whole
    | false =>
      simpa [updatedRow, selected] using whole

theorem selects_updateLoop (inside : n < (acc.1.tables t).rowCount) :
    selects ((range n).foldl (updateSlot t name clause row) acc).1 t clause n =
      clause (acc.1.tables t) ((acc.1.rows t).getD n []) := by
  have before := newRows_updateLoop name clause sound inUse given (le_of_lt inside)
  have tables := updateLoop_tables t name clause row acc (range n)
  rw [selects_getD clause (by rwa [tables]), before.rows, tables, getD_map_take_append_drop]

end

end Update

/-! ## The calls -/

theorem findTable_lt {name : Chars} (found : findTable db name = some t) : t < db.tableCount :=
  mem_range.mp (mem_of_find?_eq_some found)

/-- Marking or unmarking a table. -/
theorem NewRows.setDirty (sound : Sound R db) (inUse : t < db.tableCount) (dirty : Bool) :
    NewRows R t (db.rows t) db (db.setTable t { db.tables t with dirty }) := by
  have table : (db.setTable t { db.tables t with dirty }).tables t =
      { db.tables t with dirty } := update_self _ _ _
  have refs : (db.setTable t { db.tables t with dirty }).refs t = db.refs t := by
    rw [refs, table, refs]
  have only : OnlyTable t db (db.setTable t { db.tables t with dirty }) :=
    ⟨rfl, fun u other => update_of_ne other _ _, le_refl _,
      fun ref member => .inl (refs ▸ member), fun _ _ _ => rfl⟩
  refine ⟨only, only.sound sound inUse (refs ▸ sound.nodup t inUse) ?_ ?_, ?_, by rw [table],
    by rw [table], by rw [table]⟩
  · rw [refs]
    exact sound.fresh t inUse
  · rw [refs, table]
    exact sound.live t inUse
  · rw [Database.rows, refs]
    rfl

section Calls

variable {name : Chars} (sound : Sound (RowOk P) db) (found : findTable db name = some t)
include sound found

/-- `fundb_insert` appends the row and marks the table. -/
theorem newRows_fundbInsert {row : List Cell} (room : (db.tables t).rowCount < fundbMaxRows)
    (cells : ∀ cell ∈ insertedRow (db.tables t) row, P cell) :
    NewRows (RowOk P) t (db.rows t ++ [insertedRow (db.tables t) row]) db (fundbInsert db name row).1 ∧
      ((fundbInsert db name row).1.tables t).dirty := by
  have inUse := findTable_lt found
  have dirty : ∀ d : Database, ((storeRow d t row).tables t).dirty := by
    intro d
    simp [storeRow, setTable]
  unfold fundbInsert
  rw [found]
  simp only [not_le.mpr room, if_false]
  split
  · have logged := NewRows.walAppend sound t .insert name (db.tables t).rowCount none 0
    have stored := newRows_storeRow row logged.sound (by simpa using inUse) (by simpa using cells)
    rw [logged.rows] at stored
    exact ⟨by simpa using logged.trans stored, dirty _⟩
  · exact ⟨newRows_storeRow row sound inUse cells, dirty db⟩

/-- `fundb_update` changes the selected rows and marks the table. -/
theorem newRows_fundbUpdate (clause : WhereClause) {row : List Cell}
    (given : ∀ j < (db.tables t).colCount, (row.getD j nullCell).type ≠ fundbTypeNull →
      P (row.getD j nullCell).copy) :
    NewRows (RowOk P) t ((db.rows t).map (updatedRow (db.tables t) clause row)) db
        (fundbUpdate db name clause (some row)).1 ∧
      ((fundbUpdate db name clause (some row)).1.tables t).dirty := by
  have inUse := findTable_lt found
  have loop := @newRows_updateLoop t P row (db, 0) (db.tables t).rowCount name clause sound inUse
    given (le_refl _)
  rw [take_of_length_le (le_of_eq (db.length_rows t)),
    drop_of_length_le (le_of_eq (db.length_rows t)), append_nil] at loop
  have marked := NewRows.setDirty loop.sound (loop.only.tableCount ▸ inUse) true
  rw [loop.rows] at marked
  unfold fundbUpdate
  rw [found]
  exact ⟨loop.trans marked, by simp [setTable]⟩

end Calls

theorem deleteLoop_idle (t : Nat) (name : Chars) (clause : WhereClause) (slots : List Nat)
    (acc : Database × Nat) :
    slots.foldl (deleteSlot t name clause) acc = acc ∨
      acc.2 < (slots.foldl (deleteSlot t name clause) acc).2 := by
  induction slots generalizing acc with
  | nil => exact .inl rfl
  | cons i slots ih =>
    have slot : deleteSlot t name clause acc i = acc ∨
        acc.2 < (deleteSlot t name clause acc i).2 := by
      unfold deleteSlot
      dsimp only
      split
      · exact .inr (lt_succ_self _)
      · exact .inl rfl
    rw [foldl_cons]
    obtain same | more := slot
    · rw [same]
      exact ih acc
    · obtain same | later := ih (deleteSlot t name clause acc i)
      · rw [same]
        exact .inr more
      · exact .inr (lt_trans more later)

/-- `fundb_delete` keeps the rows that are not selected; it marks the table or changes
nothing. -/
theorem newRows_fundbDelete {name : Chars} (sound : Sound R db) (found : findTable db name = some t)
    {clause : WhereClause} (columnsOnly : ColumnsOnly clause) :
    NewRows R t ((db.rows t).filter fun row => !clause (db.tables t) row) db
        (fundbDelete db name clause).1 ∧
      (((fundbDelete db name clause).1.tables t).dirty ∨ (fundbDelete db name clause).1 = db) := by
  have inUse := findTable_lt found
  have loop := @newRows_deleteLoop t R name clause columnsOnly (db, 0) sound inUse
    (db.tables t).rowCount (le_refl _)
  rw [take_of_length_le (le_of_eq (db.length_rows t)),
    drop_of_length_le (le_of_eq (db.length_rows t)), append_nil] at loop
  have idle := deleteLoop_idle t name clause (range (db.tables t).rowCount).reverse (db, 0)
  unfold fundbDelete
  rw [found]
  dsimp only
  split
  · have marked := NewRows.setDirty loop.sound (loop.only.tableCount ▸ inUse) true
    rw [loop.rows] at marked
    exact ⟨loop.trans marked, .inl (by simp [setTable])⟩
  · rename_i none
    refine ⟨loop, .inr ?_⟩
    obtain same | more := idle
    · rw [same]
    · exact absurd more none

end FunsOS.Fundb
