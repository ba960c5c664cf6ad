import FunsOS.Fundb.Disk
import FunsOS.Fundb.Index

/-!
# Names and shapes

Whether the tables of a database stay findable and well formed. Three things can go wrong.
A new table goes into a slot that may hold the name of a dropped table, and the characters
behind the new name stay; the number of columns is stored as given, also when it is more
than there is room for; and changing the columns of a table does not touch its rows.

`Tidy` is the condition that none of this happens in a call. A run keeps names and shapes
in order exactly if all its calls meet it (`names_and_shapes_iff`).
-/

set_option autoImplicit false

namespace FunsOS.Fundb

open Foundation Function List Nat Database

/-! ## What `find_table` compares -/

/-- The characters of a name up to its NUL, from position `j`, at most `left`. -/
def textFrom (name : Chars) : Nat → Nat → List UInt8
  | 0, _ => []
  | left + 1, j => if name j = 0 then [] else name j :: textFrom name left (j + 1)

/-- The characters of a name that `find_table` compares. -/
def nameOf (name : Chars) : List UInt8 := textFrom name 63 0

variable {name second first : Chars} {left j colCount t : Nat} {db db' : Database} {s : Indexed}

theorem textFrom_of_end (ends : name j = 0) : textFrom name (left + 1) j = [] := by
  rw [textFrom, if_pos ends]

theorem textFrom_of_ne (goesOn : name j ≠ 0) :
    textFrom name (left + 1) j = name j :: textFrom name left (j + 1) := by
  rw [textFrom, if_neg goesOn]

theorem textFrom_congr (same : ∀ i, j ≤ i → i < j + left → first i = second i) :
    textFrom first left j = textFrom second left j := by
  induction left generalizing j with
  | zero => rfl
  | succ left ih =>
    rw [textFrom, textFrom, same j (le_refl _) (by omega)]
    rw [ih fun i low high => same i (by omega) (by omega)]

theorem namesAgree_iff :
    namesAgree first second left j ↔ textFrom first left j = textFrom second left j := by
  induction left generalizing j with
  | zero => simp [namesAgree, textFrom]
  | succ left ih =>
    rw [namesAgree, textFrom, textFrom]
    by_cases same : first j = second j
    · by_cases ends : second j = 0
      · simp [same, ends]
      · simp [same, ends, ih]
    · have notBoth : ¬(first j = 0 ∧ second j = 0) := fun ⟨one, other⟩ =>
        same (one.trans other.symm)
      rw [if_neg notBoth, if_pos same]
      refine iff_of_false (by simp) fun equal => ?_
      by_cases ends : first j = 0
      · have goesOn : second j ≠ 0 := fun other => notBoth ⟨ends, other⟩
        simp [ends, goesOn] at equal
      · by_cases endsToo : second j = 0
        · simp [ends, endsToo] at equal
        · simp [ends, endsToo, same] at equal

/-- **Two names match when `find_table` reads the same characters.** -/
theorem namesMatch_iff : namesMatch first second ↔ nameOf first = nameOf second :=
  namesAgree_iff

theorem findTable_eq_none_iff :
    findTable db name = none ↔ ∀ t < db.tableCount, nameOf (db.tables t).name ≠ nameOf name := by
  rw [findTable, List.find?_eq_none]
  simp only [mem_range, namesMatch_iff]
  exact ⟨fun none_ t inUse same => none_ t inUse same.symm,
    fun none_ t inUse same => none_ t inUse same.symm⟩

/-! ## Copied names -/

theorem le_copyCount (src : Chars) (left j : Nat) :
    j ≤ copyCount src left j ∧ copyCount src left j ≤ j + left := by
  induction left generalizing j with
  | zero => exact ⟨le_refl _, le_refl _⟩
  | succ left ih =>
    rw [copyCount]
    split
    · exact ⟨le_refl _, by omega⟩
    · have later := ih (j + 1)
      exact ⟨by omega, by omega⟩

/-- What is read of a copied name from position `j` on: the rest of the name, and what the
slot held behind it. -/
theorem textFrom_copy (dst src : Chars) (ends : j + left = 63) :
    textFrom (fun i => if i = 63 then 0 else if i < copyCount src left j then src i else dst i)
        left j =
      textFrom src left j ++ textFrom dst (63 - copyCount src left j) (copyCount src left j) := by
  induction left generalizing j with
  | zero =>
    rw [copyCount, show 63 - j = 0 by omega]
    rfl
  | succ left ih =>
    by_cases done : src j = 0
    · rw [copyCount, if_pos done, show 63 - j = left + 1 by omega, textFrom_of_end done]
      refine textFrom_congr fun i low high => ?_
      rw [if_neg (by omega), if_neg (by omega)]
    · have count : copyCount src (left + 1) j = copyCount src left (j + 1) := by
        rw [copyCount, if_neg done]
      have reached := (le_copyCount src left (j + 1)).1
      have here : (if j = 63 then 0 else if j < copyCount src left (j + 1) then src j else dst j) =
          src j := by
        rw [if_neg (by omega), if_pos (by omega)]
      rw [count, textFrom_of_ne (by rw [here]; exact done), here, textFrom_of_ne done,
        ih (by omega), cons_append]

/-- **A copied name reads as the name** exactly if it fills the slot or the slot has a NUL
where the name ends. -/
theorem nameOf_copyName_iff {dst src : Chars} : nameOf (copyName dst src) = nameOf src ↔
      copyCount src 63 0 = 63 ∨ dst (copyCount src 63 0) = 0 := by
  have copied : nameOf (copyName dst src) = nameOf src ++
      textFrom dst (63 - copyCount src 63 0) (copyCount src 63 0) :=
    textFrom_copy dst src (zero_add 63)
  rw [copied, append_right_eq_self]
  have bound := (le_copyCount src 63 0).2
  cases room : 63 - copyCount src 63 0 with
  | zero => exact iff_of_true rfl (.inl (by omega))
  | succ left =>
    rw [textFrom, or_iff_right (by omega)]
    by_cases ends : dst (copyCount src 63 0) = 0
    · simp [ends]
    · simp [ends]

/-! ## The calls on tables -/

/-- The number of columns a new table gets; a table made without columns keeps the number of
the table that had its slot. -/
def newColCount (db : Database) (columns : Option (Nat → Column)) (colCount : Nat) : Nat :=
  if columns.isSome ∧ 0 < colCount then colCount else (db.tables db.tableCount).colCount

variable {columns : Option (Nat → Column)} {row : List Cell} {R : Nat → List Cell → Prop}
  {ref : RowRef} {k : Nat}

theorem fundbCreateTable_refused
    (refused : (fundbCreateTable db name columns colCount).2 ≠ fundbOk) :
    (fundbCreateTable db name columns colCount).1 = db := by
  rw [fundbCreateTable] at refused ⊢
  split
  · rfl
  · split
    · rfl
    · rename_i room isNew
      rw [if_neg room, if_neg isNew] at refused
      exact absurd rfl refused

/-- What a successful `fundb_create_table` does. -/
structure Created (db db' : Database) (name : Chars) (colCount : Nat) : Prop where
  isNew : findTable db name = none
  more : OneMore db db'
  name : (db'.tables db.tableCount).name = copyName (db.tables db.tableCount).name name
  colCount : (db'.tables db.tableCount).colCount = colCount
  rowCount : (db'.tables db.tableCount).rowCount = 0

theorem fundbCreateTable_created (ok : (fundbCreateTable db name columns colCount).2 = fundbOk) :
    Created db (fundbCreateTable db name columns colCount).1 name
      (newColCount db columns colCount) := by
  rw [fundbCreateTable] at ok ⊢
  by_cases full : fundbMaxTables ≤ db.tableCount
  · rw [if_pos full] at ok
    exact absurd ok fundbError_ne_ok
  by_cases dup : (findTable db name).isSome
  · rw [if_neg full, if_pos dup] at ok
    exact absurd ok fundbDupKey_ne_ok
  rw [if_neg full, if_neg dup]
  refine ⟨by simpa using dup, ⟨rfl, ?_, le_refl _, fun _ _ => rfl⟩, ?_, ?_, ?_⟩
  · exact fun t other => update_of_ne other _ _
  · simp [setTable]
  · cases columns with
    | none => simp [setTable, newColCount]
    | some given =>
      by_cases some_ : 0 < colCount <;> simp [setTable, newColCount, some_]
  · simp [setTable]

section

variable (created : Created db db' name colCount)
include created

theorem Created.refs : db'.refs db.tableCount = [] := by
  rw [Database.refs, created.rowCount]
  rfl

/-- A new table has no arrays. -/
theorem Created.sound (sound : Sound R db) : Sound R db' := by
  refine created.more.sound sound ?_ ?_ ?_
  · rw [created.refs]
    exact nodup_nil
  · simp [created.refs]
  · simp [created.refs]

/-- A new table is found under its name exactly if its name was copied into a clean
slot. -/
theorem Created.found_iff :
    findTable db' name = some db.tableCount ↔
      copyCount name 63 0 = 63 ∨ (db.tables db.tableCount).name (copyCount name 63 0) = 0 := by
  have older : ∀ t < db.tableCount, namesMatch name (db'.tables t).name = false := by
    intro t inUse
    rw [created.more.tables t (Nat.ne_of_lt inUse), ← Bool.not_eq_true, namesMatch_iff]
    exact fun same => findTable_eq_none_iff.mp created.isNew t inUse same.symm
  have noneBefore : (range db.tableCount).find? (fun t => namesMatch name (db'.tables t).name) =
      none := by
    rw [List.find?_eq_none]
    intro t member
    rw [older t (mem_range.mp member)]
    exact Bool.false_ne_true
  rw [← nameOf_copyName_iff, ← created.name, findTable, created.more.tableCount, range_succ,
    List.find?_append, noneBefore, List.find?_singleton]
  by_cases same : namesMatch name (db'.tables db.tableCount).name
  · rw [if_pos same]
    exact iff_of_true rfl (namesMatch_iff.mp same).symm
  · rw [if_neg same]
    exact iff_of_false (by simp) fun equal => same (namesMatch_iff.mpr equal.symm)

end

theorem freeRow_rowStore : (db.freeRow ref).rowStore = update db.rowStore ref none := rfl

theorem freeRows_rowStore {table : Table} {count : Nat} :
    ((range count).foldl (fun acc i => acc.freeRow (table.rows i)) db).rowStore ref =
      if ref ∈ (range count).map table.rows then none else db.rowStore ref := by
  induction count with
  | zero => simp
  | succ count ih =>
    rw [range_succ, foldl_append, foldl_cons, foldl_nil]
    rw [freeRow_rowStore]
    by_cases here : ref = table.rows count
    · subst here
      simp
    · rw [update_of_ne here, ih]
      simp [here]

/-- Where the table in a slot was before a drop. -/
def slotBefore (t k : Nat) : Nat := if t ≤ k then k + 1 else k

/-- What a successful `fundb_drop_table` does. -/
structure Dropped (t : Nat) (db db' : Database) : Prop where
  inUse : t < db.tableCount
  tableCount : db'.tableCount = db.tableCount - 1
  tables : ∀ k < db'.tableCount, db'.tables k = db.tables (slotBefore t k)
  slots : ∀ k, ∃ u, db'.tables k = db.tables u
  nextRow : db'.nextRow = db.nextRow
  store : ∀ ref ∉ db.refs t, db'.rowStore ref = db.rowStore ref

theorem fundbDropTable_dropped (found : findTable db name = some t) :
    Dropped t db (fundbDropTable db name).1 := by
  rw [fundbDropTable, found]
  refine ⟨findTable_lt found, rfl, fun k inUse => ?_, fun k => ?_, ?_, fun ref outside => ?_⟩
  · by_cases behind : t ≤ k <;> simp [slotBefore, behind, inUse]
  · show ∃ u, (if t ≤ k ∧ k < db.tableCount - 1 then db.tables (k + 1) else db.tables k) = _
    split
    · exact ⟨k + 1, rfl⟩
    · exact ⟨k, rfl⟩
  · refine foldl_invariant (f := fun acc i => acc.freeRow ((db.tables t).rows i))
      (P := fun acc : Database => acc.nextRow = db.nextRow) ?_ rfl (range (db.tables t).rowCount)
    exact fun _ _ same => same
  · exact freeRows_rowStore.trans (if_neg outside)

theorem Dropped.slotBefore_spec (dropped : Dropped t db db') (inUse : k < db'.tableCount) :
    slotBefore t k < db.tableCount ∧ slotBefore t k ≠ t := by
  have count := dropped.tableCount
  rw [slotBefore]
  split <;> exact ⟨by omega, by omega⟩

theorem slotBefore_inj {l : Nat} (same : slotBefore t k = slotBefore t l) : k = l := by
  rw [slotBefore, slotBefore] at same
  split at same <;> split at same <;> omega

theorem Dropped.elsewhere (dropped : Dropped t db db') (sound : Sound R db) :
    Elsewhere db.tableCount (slotBefore t) db db' where
  inUse := fun _ used _ => (dropped.slotBefore_spec used).1
  tables := fun u used _ => dropped.tables u used
  inj := fun _ _ _ _ => slotBefore_inj
  nextRow := le_of_eq dropped.nextRow.symm
  store := by
    intro u used _ ref member
    obtain ⟨inUse, other⟩ := dropped.slotBefore_spec used
    exact dropped.store ref (sound.apart _ inUse _ dropped.inUse other ref member)

theorem Dropped.unused (dropped : Dropped t db db') : ¬db.tableCount < db'.tableCount := by
  rw [dropped.tableCount]
  omega

/-! ## Loaded tables -/

section AddTable

variable (name db) (data : TableData)

theorem oneMore_addTable : OneMore db (db.addTable name data) where
  tableCount := rfl
  tables := fun _ other => update_of_ne other _ _
  nextRow := Nat.le_add_right _ _
  store := fun _ old => if_neg fun new => not_lt.mpr new.1 old

theorem addTable_tables : (db.addTable name data).tables db.tableCount =
    { name
      columns := data.columns
      colCount := data.colCount
      rows := fun i => if i < min data.rowCount fundbMaxRows then db.nextRow + i else 0
      rowCount := data.rowCount
      nextAutoId := loadedAutoId data
      dirty := false } := update_self _ _ _

variable {data} (few : data.rowCount ≤ fundbMaxRows)
include few

theorem refs_addTable : (db.addTable name data).refs db.tableCount =
    (range data.rowCount).map (db.nextRow + ·) := by
  rw [refs, addTable_tables, Nat.min_eq_left few]
  exact map_congr_left fun i member => if_pos (mem_range.mp member)

theorem rowStore_addTable {i : Nat} (row : i < data.rowCount) :
    (db.addTable name data).rowStore (db.nextRow + i) =
      some ((range data.colCount).map (data.cells i)) := by
  have within : db.nextRow ≤ db.nextRow + i ∧
      db.nextRow + i < db.nextRow + min data.rowCount fundbMaxRows := by
    rw [Nat.min_eq_left few]
    exact ⟨Nat.le_add_right _ _, Nat.add_lt_add_left row _⟩
  simp only [addTable, if_pos within, Nat.add_sub_cancel_left]

theorem rows_addTable : (db.addTable name data).rows db.tableCount = data.rows := by
  rw [rows, refs_addTable name db few, map_map]
  refine map_congr_left fun i member => ?_
  show (db.addTable name data).rowAt (db.nextRow + i) = _
  rw [rowAt, rowStore_addTable name db few (mem_range.mp member)]
  rfl

theorem sound_addTable (sound : Sound R db)
    (cells : ∀ row ∈ data.rows, R data.colCount row) : Sound R (db.addTable name data) := by
  have more := oneMore_addTable name db data
  have refs := refs_addTable name db few
  refine more.sound sound ?_ ?_ ?_
  · rw [refs]
    exact nodup_range.map fun _ _ same => add_left_cancel same
  · rw [refs, forall_mem_map]
    intro i row
    refine ⟨Nat.le_add_right _ _, ?_⟩
    show db.nextRow + i < db.nextRow + min data.rowCount fundbMaxRows
    rw [Nat.min_eq_left few]
    exact Nat.add_lt_add_left (mem_range.mp row) _
  · rw [refs, forall_mem_map]
    intro i row
    refine ⟨_, rowStore_addTable name db few (mem_range.mp row), ?_⟩
    rw [addTable_tables]
    exact cells _ (mem_map.mpr ⟨i, row, rfl⟩)

end AddTable

/-! ## Well-formed databases -/

/-- No two tables have names that compare equal, and no table has more columns or rows than
there is room for or a row of another width. -/
structure WellShaped (db : Database) : Prop where
  names : ∀ t < db.tableCount, ∀ u < db.tableCount, t ≠ u →
    namesMatch (db.tables t).name (db.tables u).name = false
  columns : ∀ t < db.tableCount, (db.tables t).colCount ≤ fundbMaxColumns
  rows : ∀ t < db.tableCount, (db.tables t).rowCount ≤ fundbMaxRows
  cells : ∀ t < db.tableCount, ∀ i < (db.tables t).rowCount,
    ∃ cells, db.rowStore ((db.tables t).rows i) = some cells ∧ cells.length = (db.tables t).colCount

/-- What the calls keep: also the slots that are not in use have few columns, and rows have
arrays of their own. -/
structure Ordered (db : Database) : Prop where
  names : ∀ t < db.tableCount, ∀ u < db.tableCount, t ≠ u →
    nameOf (db.tables t).name ≠ nameOf (db.tables u).name
  columns : ∀ t, (db.tables t).colCount ≤ fundbMaxColumns
  rows : ∀ t < db.tableCount, (db.tables t).rowCount ≤ fundbMaxRows
  sound : Sound (RowOk fun _ => True) db

theorem Ordered.wellShaped (ordered : Ordered db) : WellShaped db where
  names := by
    intro t inUse u inUse' differ
    rw [← Bool.not_eq_true, namesMatch_iff]
    exact ordered.names t inUse u inUse' differ
  columns := fun t _ => ordered.columns t
  rows := ordered.rows
  cells := by
    intro t inUse i isRow
    obtain ⟨cells, stored, ok⟩ := ordered.sound.live t inUse ((db.tables t).rows i)
      (mem_map.mpr ⟨i, mem_range.mpr isRow, rfl⟩)
    exact ⟨cells, stored, ok.width⟩

theorem openedDatabase_ordered {memory : Nat → Nat → WalEntry} :
    Ordered (openedDatabase memory) where
  names := fun _ inUse => absurd inUse (not_lt_zero _)
  columns := fun _ => zero_le _
  rows := fun _ inUse => absurd inUse (not_lt_zero _)
  sound :=
    { nodup := fun _ inUse => absurd inUse (not_lt_zero _)
      apart := fun _ inUse => absurd inUse (not_lt_zero _)
      fresh := fun _ inUse => absurd inUse (not_lt_zero _)
      live := fun _ inUse => absurd inUse (not_lt_zero _) }

section

variable (ordered : Ordered db)
include ordered

theorem Ordered.elsewhere {place : Nat → Nat}
    (elsewhere : Elsewhere t place db db') (sound : Sound (RowOk fun _ => True) db')
    (slots : ∀ u ≠ t, ∃ v, db'.tables u = db.tables v)
    (columns : (db'.tables t).colCount ≤ fundbMaxColumns)
    (names : t < db'.tableCount → ∀ u < db'.tableCount, u ≠ t →
      nameOf (db'.tables u).name ≠ nameOf (db'.tables t).name)
    (rows : t < db'.tableCount → (db'.tables t).rowCount ≤ fundbMaxRows) : Ordered db' where
  names := by
    intro u used v used' differ
    by_cases here : u = t
    · subst here
      exact (names used v used' differ.symm).symm
    by_cases there : v = t
    · subst there
      exact names used' u used differ
    rw [elsewhere.tables u used here, elsewhere.tables v used' there]
    exact ordered.names _ (elsewhere.inUse u used here) _ (elsewhere.inUse v used' there)
      fun same => differ (elsewhere.inj u used v used' same)
  columns := by
    intro u
    by_cases here : u = t
    · subst here
      exact columns
    · obtain ⟨v, same⟩ := slots u here
      rw [same]
      exact ordered.columns v
  rows := by
    intro u used
    by_cases here : u = t
    · subst here
      exact rows used
    · rw [elsewhere.tables u used here]
      exact ordered.rows _ (elsewhere.inUse u used here)
  sound

theorem Ordered.created (created : Created db db' name colCount) (few : colCount ≤ fundbMaxColumns)
    (clean : copyCount name 63 0 = 63 ∨ (db.tables db.tableCount).name (copyCount name 63 0) = 0) :
    Ordered db' := by
  have elsewhere := created.more.elsewhere ordered.sound
  refine ordered.elsewhere elsewhere (created.sound ordered.sound)
    (fun u other => ⟨u, created.more.tables u other⟩) (created.colCount ▸ few) ?_ ?_
  · intro _ u used other
    rw [created.name, nameOf_copyName_iff.mpr clean, created.more.tables u other]
    exact findTable_eq_none_iff.mp created.isNew u (elsewhere.inUse u used other)
  · intro _
    rw [created.rowCount]
    exact zero_le _

theorem Ordered.dropped (dropped : Dropped t db db') : Ordered db' := by
  have elsewhere := dropped.elsewhere ordered.sound
  refine ordered.elsewhere elsewhere (elsewhere.sound_of_unused ordered.sound dropped.unused)
    (fun k _ => dropped.slots k) ?_ (absurd · dropped.unused) (absurd · dropped.unused)
  obtain ⟨u, same⟩ := dropped.slots db.tableCount
  rw [same]
  exact ordered.columns u

theorem Ordered.newRows {rows : List (List Cell)} (new : NewRows (RowOk fun _ => True) t rows db db')
    (inUse : t < db.tableCount) (few : rows.length ≤ fundbMaxRows) : Ordered db' := by
  refine ordered.elsewhere (new.only.elsewhere ordered.sound inUse) new.sound
    (fun u other => ⟨u, new.only.tables u other⟩) (new.colCount ▸ ordered.columns t) ?_ ?_
  · intro _ u used other
    rw [new.only.tables u other, new.name]
    exact ordered.names u (new.only.tableCount ▸ used) t inUse other
  · intro _
    rw [← length_rows, new.rows]
    exact few

/-- The columns of a table may change when it keeps their number or has no rows. -/
theorem Ordered.altered {columns : Nat → Column} (found : findTable db name = some t)
    (few : colCount ≤ fundbMaxColumns)
    (fits : (db.tables t).rowCount = 0 ∨ colCount = (db.tables t).colCount) :
    Ordered (fundbAlterTable db name columns colCount).1 := by
  have inUse := findTable_lt found
  rw [fundbAlterTable, found]
  dsimp only
  generalize made : Table.mk _ _ _ _ _ _ _ = table
  have others : ∀ u ≠ t, (db.setTable t table).tables u = db.tables u :=
    fun u other => update_of_ne other _ _
  have here : (db.setTable t table).tables t = table := update_self _ _ _
  have refs : (db.setTable t table).refs t = db.refs t := by
    rw [refs, refs, here, ← made]
  have only : OnlyTable t db (db.setTable t table) :=
    ⟨rfl, others, le_refl _, fun ref member => .inl (refs ▸ member), fun _ _ _ => rfl⟩
  refine ordered.elsewhere (only.elsewhere ordered.sound inUse)
    (only.sound ordered.sound inUse ?_ ?_ ?_) (fun u other => ⟨u, others u other⟩) ?_ ?_ ?_
  · rw [refs]
    exact ordered.sound.nodup t inUse
  · rw [refs]
    exact ordered.sound.fresh t inUse
  · rw [refs, here, ← made]
    intro ref member
    obtain ⟨cells, stored, ok⟩ := ordered.sound.live t inUse ref member
    refine ⟨cells, stored, ?_, ok.cells⟩
    obtain empty | equal := fits
    · rw [Database.refs, empty] at member
      cases member
    · exact ok.width.trans equal.symm
  · rw [here, ← made]
    exact few
  · intro _ u used other
    rw [others u other, here, ← made]
    exact ordered.names u used t inUse other
  · intro _
    rw [here, ← made]
    exact ordered.rows t inUse

end

/-! ## Runs -/

/-- The calls that make and change tables, and those on indexes. -/
inductive SchemaOp where
  | createTable (name : Chars) (columns : Option (Nat → Column)) (colCount : Nat)
  | alterTable (name : Chars) (columns : Nat → Column) (colCount : Nat)
  | dropTable (name : Chars)
  | insert (name : Chars) (row : List Cell)
  | createIndex (name column indexName : Chars)
  | dropIndex (indexName : Chars)

def schemaStep (s : Indexed) : SchemaOp → Indexed
  | .createTable name columns colCount => (s.createTable name columns colCount).1
  | .alterTable name columns colCount =>
    { s with db := (fundbAlterTable s.db name columns colCount).1 }
  | .dropTable name => { s with db := (fundbDropTable s.db name).1 }
  | .insert name row => (s.insert name row).1
  | .createIndex name column indexName => (fundbCreateIndex s name column indexName).1
  | .dropIndex indexName => (fundbDropIndex s indexName).1

/-- A database as `fundb_open` returns it for a directory without tables. -/
def openedIndexed (memory : Nat → Nat → WalEntry) : Indexed :=
  ⟨openedDatabase memory, fun _ => zeroIndex, 0⟩

/-- A new table with a name of at most 63 characters is found under its name. -/
def FindsNew (s : Indexed) : SchemaOp → Prop
  | .createTable name columns colCount =>
    (∃ k ≤ 63, name k = 0) → (s.createTable name columns colCount).2 = fundbOk →
      findTable (s.createTable name columns colCount).1.db name = some s.db.tableCount
  | _ => True

/-- A call leaves names and shapes in order: a new table has at most `FUNDB_MAX_COLUMNS`
columns and goes into a slot whose old name leaves nothing behind the new one; a table gets
at most `FUNDB_MAX_COLUMNS` columns, and another number of columns only while it is empty. -/
def Tidy (s : Indexed) : SchemaOp → Prop
  | .createTable name columns colCount =>
    s.db.tableCount < fundbMaxTables → findTable s.db name = none →
      (columns.isSome → colCount ≤ fundbMaxColumns) ∧
        (copyCount name 63 0 = 63 ∨ (s.db.tables s.db.tableCount).name (copyCount name 63 0) = 0)
  | .alterTable name _ colCount =>
    ∀ t, findTable s.db name = some t →
      colCount ≤ fundbMaxColumns ∧
        ((s.db.tables t).rowCount = 0 ∨ colCount = (s.db.tables t).colCount)
  | _ => True

instance (s : Indexed) : (op : SchemaOp) → Decidable (Tidy s op)
  | .createTable _ _ _ => inferInstanceAs (Decidable (_ → _ → _ ∧ _))
  | .alterTable name _ _ => inferInstanceAs (Decidable (∀ t ∈ findTable s.db name, _ ∧ _))
  | .dropTable _ | .insert _ _ | .createIndex _ _ _ | .dropIndex _ =>
    inferInstanceAs (Decidable True)

theorem createTable_db (s : Indexed) (name : Chars) (columns : Option (Nat → Column))
    (colCount : Nat) :
    (s.createTable name columns colCount).1.db = (fundbCreateTable s.db name columns colCount).1 ∧
      (s.createTable name columns colCount).2 = (fundbCreateTable s.db name columns colCount).2 := by
  rw [Indexed.createTable]
  dsimp only
  split
  · split <;> exact ⟨rfl, rfl⟩
  · rename_i refused
    exact ⟨(fundbCreateTable_refused refused).symm, rfl⟩

theorem fundbInsert_refused (refused : (fundbInsert db name row).2 ≠ fundbOk) :
    (fundbInsert db name row).1 = db := by
  rw [fundbInsert] at refused ⊢
  split
  · rfl
  · split
    · rfl
    · rename_i t found room
      rw [found] at refused
      dsimp only at refused
      rw [if_neg room] at refused
      exact absurd rfl refused

theorem fundbInsert_stores (ok : (fundbInsert db name row).2 = fundbOk) :
    ∃ t, findTable db name = some t ∧ (db.tables t).rowCount < fundbMaxRows := by
  rw [fundbInsert] at ok
  split at ok
  · exact absurd ok fundbNoTable_ne_ok
  · rename_i t found
    refine ⟨t, found, ?_⟩
    by_contra full
    rw [if_pos (not_lt.mp full)] at ok
    exact absurd ok fundbError_ne_ok

theorem insert_db : (s.insert name row).1.db = (fundbInsert s.db name row).1 := by
  rw [Indexed.insert]
  split
  · split
    · rfl
    · rename_i ok _ missing
      obtain ⟨t, found, -⟩ := fundbInsert_stores ok
      rw [found] at missing
      cases missing
  · rename_i refused
    exact (fundbInsert_refused refused).symm

theorem ok_of_fundbCreateTable (ok : (fundbCreateTable db name columns colCount).2 = fundbOk) :
    db.tableCount < fundbMaxTables := by
  rw [fundbCreateTable] at ok
  by_contra full
  rw [if_pos (not_lt.mp full)] at ok
  exact absurd ok fundbError_ne_ok

/-- A call that is tidy keeps the tables in order. -/
theorem step_ordered (ordered : Ordered s.db) {op : SchemaOp} (tidy : Tidy s op) :
    Ordered (schemaStep s op).db := by
  cases op with
  | createTable name columns colCount =>
    rw [schemaStep, (createTable_db ..).1]
    by_cases ok : (fundbCreateTable s.db name columns colCount).2 = fundbOk
    · have created := fundbCreateTable_created ok
      obtain ⟨few, clean⟩ := tidy (ok_of_fundbCreateTable ok) created.isNew
      refine ordered.created created ?_ clean
      rw [newColCount]
      split
      · rename_i given
        exact few given.1
      · exact ordered.columns _
    · rw [fundbCreateTable_refused ok]
      exact ordered
  | alterTable name columns colCount =>
    cases found : findTable s.db name with
    | none =>
      rw [schemaStep, fundbAlterTable, found]
      exact ordered
    | some t =>
      obtain ⟨few, fits⟩ := tidy t found
      exact ordered.altered found few fits
  | dropTable name =>
    cases found : findTable s.db name with
    | none =>
      rw [schemaStep, fundbDropTable, found]
      exact ordered
    | some t => exact ordered.dropped (fundbDropTable_dropped found)
  | insert name row =>
    rw [schemaStep, insert_db]
    cases found : findTable s.db name with
    | none =>
      rw [fundbInsert, found]
      exact ordered
    | some t =>
      by_cases room : (s.db.tables t).rowCount < fundbMaxRows
      · refine ordered.newRows (newRows_fundbInsert ordered.sound found room (fun _ _ => trivial)).1
          (findTable_lt found) ?_
        rw [length_append, length_rows]
        exact room
      · rw [fundbInsert, found]
        dsimp only
        rw [if_pos (not_lt.mp room)]
        exact ordered
  | createIndex name column indexName =>
    rw [schemaStep, fundbCreateIndex]
    split <;> exact ordered
  | dropIndex indexName =>
    rw [schemaStep, fundbDropIndex]
    split <;> exact ordered

theorem copyCount_of_long (long : ∀ k < j + left, name k ≠ 0) :
    copyCount name left j = j + left := by
  induction left generalizing j with
  | zero => rfl
  | succ left ih =>
    rw [copyCount, if_neg (long j (by omega)), ih fun k below => long k (by omega)]
    omega

/-- Only a tidy call can leave the tables well shaped and a new table findable. -/
theorem tidy_of_wellShaped (ordered : Ordered s.db) {op : SchemaOp}
    (shaped : WellShaped (schemaStep s op).db) (finds : FindsNew s op) : Tidy s op := by
  cases op with
  | createTable name columns colCount =>
    intro room isNew
    have ok : (fundbCreateTable s.db name columns colCount).2 = fundbOk := by
      rw [fundbCreateTable, if_neg (not_le.mpr room), if_neg (by simp [isNew])]
    have created := fundbCreateTable_created ok
    have count := created.more.tableCount
    rw [schemaStep, (createTable_db ..).1] at shaped
    constructor
    · intro given
      have few := shaped.columns s.db.tableCount (by omega)
      rw [created.colCount, newColCount] at few
      by_cases some_ : 0 < colCount
      · rwa [if_pos ⟨given, some_⟩] at few
      · omega
    · by_cases short : ∃ k ≤ 63, name k = 0
      · have found := finds short (by rw [(createTable_db ..).2, ok])
        rw [(createTable_db ..).1] at found
        exact created.found_iff.mp found
      · refine .inl (copyCount_of_long fun k below ends => short ⟨k, by omega, ends⟩)
  | alterTable name columns colCount =>
    intro t found
    have inUse := findTable_lt found
    rw [schemaStep, fundbAlterTable, found] at shaped
    have few := shaped.columns t inUse
    have cells := shaped.cells t inUse 0
    simp only [setTable, update_self] at few cells
    refine ⟨few, ?_⟩
    by_cases empty : (s.db.tables t).rowCount = 0
    · exact .inl empty
    · obtain ⟨row, stored, width⟩ := cells (pos_of_ne_zero empty)
      obtain ⟨before, storedBefore, ok⟩ := ordered.sound.live t inUse ((s.db.tables t).rows 0)
        (mem_map.mpr ⟨0, mem_range.mpr (pos_of_ne_zero empty), rfl⟩)
      rw [stored, Option.some.injEq] at storedBefore
      exact .inr (by rw [← width, storedBefore, ok.width])
  | dropTable | insert | createIndex | dropIndex => exact trivial

theorem findsNew_of_tidy {op : SchemaOp} (tidy : Tidy s op) : FindsNew s op := by
  cases op with
  | createTable name columns colCount =>
    intro _ ok
    rw [(createTable_db ..).2] at ok
    have created := fundbCreateTable_created ok
    rw [(createTable_db ..).1]
    exact created.found_iff.mpr (tidy (ok_of_fundbCreateTable ok) created.isNew).2
  | alterTable | dropTable | insert | createIndex | dropIndex => exact trivial

/-- **Names and shapes stay in order exactly in the runs of tidy calls.** The property of a
step is that the tables are well shaped after it and that a new table is found. -/
theorem names_and_shapes_iff (memory : Nat → Nat → WalEntry) (ops : List SchemaOp) :
    Meets schemaStep (fun s op => WellShaped (schemaStep s op).db ∧ FindsNew s op)
        (openedIndexed memory) ops ↔
      Meets schemaStep Tidy (openedIndexed memory) ops := by
  refine meets_congr (P := fun s => Ordered s.db) ?_ ?_ openedDatabase_ordered
  · intro s op ordered
    constructor
    · rintro ⟨shaped, finds⟩
      exact tidy_of_wellShaped ordered shaped finds
    · intro tidy
      exact ⟨(step_ordered ordered tidy).wellShaped, findsNew_of_tidy tidy⟩
  · exact fun s op ordered tidy => step_ordered ordered tidy

/-- Log buffers that hold nothing. -/
def blankMemory : Nat → Nat → WalEntry := fun _ _ => ⟨.insert, fun _ => 0, 0, [], false⟩

/-- A table with a key and a row goes, and one with a longer name takes its slot. -/
def reuseSlot : List SchemaOp :=
  [.createTable (chars [97]) (some fun _ => ⟨chars [105], fundbTypeInt, 4, 0, 1, 1, 0⟩) 1,
    .insert (chars [97]) [nullCell],
    .createIndex (chars [97]) (chars [105]) (chars [120]),
    .dropTable (chars [97]),
    .createTable (chars [97, 98]) (some fun _ => ⟨chars [105], fundbTypeInt, 4, 0, 0, 0, 0⟩) 2,
    .alterTable (chars [97, 98]) (fun _ => ⟨chars [105], fundbTypeInt, 4, 0, 0, 0, 0⟩) 3]

theorem reuseSlot_in_order :
    Meets schemaStep (fun s op => WellShaped (schemaStep s op).db ∧ FindsNew s op)
      (openedIndexed blankMemory) reuseSlot :=
  (names_and_shapes_iff blankMemory reuseSlot).mpr (by decide +kernel)

/-- After the table `ab` was dropped, the new table `c` has the name `cb` and is not found. -/
theorem shorter_name_is_not_found :
    let s := [SchemaOp.createTable (chars [97, 98]) none 0, .dropTable (chars [97, 98])].foldl
      schemaStep (openedIndexed blankMemory)
    (s.createTable (chars [99]) none 0).2 = fundbOk ∧
      findTable (s.createTable (chars [99]) none 0).1.db (chars [99]) = none ∧
      nameOf ((s.createTable (chars [99]) none 0).1.db.tables 0).name = [99, 98] := by
  decide +kernel

end FunsOS.Fundb
