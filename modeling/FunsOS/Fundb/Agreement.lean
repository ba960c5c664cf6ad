import FunsOS.Fundb.Query
import FunsOS.Fundb.Sorting
import Mathlib.Data.List.Infix

/-!
# When SQL text and direct calls agree

`Agrees` says for a statement of one of the four shapes and a database when it makes no
difference that `sql_parse` misses clauses: DELETE when the clause selects every row anyway,
UPDATE when the selected rows already hold what SET gives them (and, in a transaction, when
there is no other row to log), INSERT when no value is given, and SELECT when the copied
WHERE text selects the rows within the limit, and the first word of ORDER BY names the
column and the direction of the whole text or the rows are in order anyway.
`query_agrees` proves that the two front ends do the same then, and in no other case as
long as ORDER BY names one column, of values that are not FLOAT.
-/

set_option autoImplicit false

namespace FunsOS.Fundb

open Foundation Function List Option Nat Database Shape

/-- A database as the operations keep it: sound, with stored cells as a copy leaves them,
no more columns than there is room for and ids of 32 bits. -/
structure Kept (db : Database) : Prop where
  sound : Sound (RowOk fun cell => cell.copy = cell) db
  columns : ∀ t < db.tableCount, (db.tables t).colCount ≤ fundbMaxColumns
  autoId : ∀ t < db.tableCount, (db.tables t).nextAutoId < 2 ^ 32

variable {cell : Cell} {i colCount : Nat}

theorem Cell.copy_copy : cell.copy.copy = cell.copy := by
  unfold Cell.copy
  split
  · simp [Option.map_map, comp_def, take_take]
  · rfl

@[simp] theorem nullCell_copy : nullCell.copy = nullCell := rfl

theorem getD_nullRow : (nullRow colCount).getD i nullCell = nullCell := by
  by_cases inside : i < colCount <;> simp [nullRow, getD_eq_getElem?_getD, inside]

/-! ## DELETE -/

section Delete

variable {R : Nat → List Cell → Prop} {t : Nat} {name : Chars} {first second : WhereClause}
  {acc : Database × Nat}

theorem deleteSlot_congr (same : selects acc.1 t first i = selects acc.1 t second i) :
    deleteSlot t name first acc i = deleteSlot t name second acc i := by
  unfold deleteSlot
  dsimp only
  rw [same]

theorem deleteLoop_congr (name : Chars) (columnsFirst : ColumnsOnly first)
    (columnsSecond : ColumnsOnly second) (sound : Sound R acc.1) (inUse : t < acc.1.tableCount)
    {n : Nat} (inside : n ≤ (acc.1.tables t).rowCount) (same : ∀ row ∈ (acc.1.rows t).take n,
      first (acc.1.tables t) row = second (acc.1.tables t) row) :
    (range n).reverse.foldl (deleteSlot t name first) acc =
      (range n).reverse.foldl (deleteSlot t name second) acc := by
  induction n generalizing acc with
  | zero => rfl
  | succ n ih =>
    rw [range_succ, reverse_append, reverse_singleton, singleton_append, foldl_cons]
    have position := lt_length_rows (lt_of_succ_le inside)
    have here : selects acc.1 t first n = selects acc.1 t second n := by
      have row : (acc.1.rows t).getD n [] ∈ (acc.1.rows t).take (n + 1) := by
        rw [getD_eq_getElem _ _ position]
        exact mem_take_iff_getElem.mpr ⟨n, by omega, rfl⟩
      rw [selects_getD first (lt_of_succ_le inside),
        selects_getD second (lt_of_succ_le inside), same _ row]
    have slot := newRows_deleteSlot name second sound inUse (lt_of_succ_le inside)
    rw [deleteSlot_congr here]
    -- Slot `n` is behind the rows that are still to be looked at.
    have kept : ((deleteSlot t name second acc n).1.rows t).take n = (acc.1.rows t).take n := by
      rw [slot.rows]
      split
      · exact take_eraseIdx_eq_take_of_le _ _ _ (le_refl n)
      · rfl
    refine ih slot.sound (slot.only.tableCount ▸ inUse) ?_ ?_
    · have taken := congrArg length kept
      rw [length_take, length_take, length_rows] at taken
      omega
    · intro row member
      rw [kept] at member
      rw [columnsFirst _ (acc.1.tables t) row slot.columns slot.colCount,
        columnsSecond _ (acc.1.tables t) row slot.columns slot.colCount]
      exact same row (take_subset_take_left _ (le_succ n) member)

/-- Deleting with one clause is deleting with the other exactly when they select the same
rows. -/
theorem fundbDelete_eq_iff {db : Database} (sound : Sound R db) (found : findTable db name = some t)
    (columnsFirst : ColumnsOnly first) (columnsSecond : ColumnsOnly second) :
    (fundbDelete db name first).1 = (fundbDelete db name second).1 ↔
      ∀ row ∈ db.rows t, first (db.tables t) row = second (db.tables t) row := by
  constructor
  · intro equal
    have rows := (newRows_fundbDelete sound found columnsFirst).1.rows
    rw [equal, (newRows_fundbDelete sound found columnsSecond).1.rows] at rows
    intro row member
    have iff : ∀ clause : WhereClause,
        (row ∈ (db.rows t).filter fun row => !clause (db.tables t) row) ↔
          clause (db.tables t) row = false := by
      intro clause
      simp [member]
    have both : second (db.tables t) row = false ↔ first (db.tables t) row = false := by
      rw [← iff second, rows, iff first]
    exact Bool.eq_iff_iff.mpr (by simpa using not_congr both.symm)
  · intro same
    have loop := deleteLoop_congr name columnsFirst columnsSecond
      (show Sound R (db, 0).1 from sound) (findTable_lt found) (le_refl _)
      (fun row member => same row (mem_of_mem_take member))
    unfold fundbDelete
    rw [found]
    dsimp only at loop ⊢
    rw [loop]

end Delete

/-! ## UPDATE -/

variable {clause : WhereClause} {rows : List (List Cell)} {row : List Cell}

section Update

variable {P : Cell → Prop} {db : Database} {t : Nat}

theorem updateCells_nullRow (colCount : Nat) (stored : List Cell) :
    updateCells colCount (nullRow colCount) stored = stored := by
  refine ext_getElem (by simp [updateCells]) fun j _ _ => ?_
  simp only [updateCells, getElem_mapIdx, getD_nullRow]
  exact if_neg fun both => both.2 rfl

theorem setRow_self {ref : RowRef} {cells : Option (List Cell)} (same : cells = db.rowStore ref) :
    { db with rowStore := update db.rowStore ref cells } = db := by
  rw [same, update_eq_self]

/-- A slot whose row stays as it is: only the log may grow. -/
theorem updateSlot_unchanged {acc : Database × Nat} (name : Chars) (sound : Sound (RowOk P) acc.1)
    (inUse : t < acc.1.tableCount) (inside : i < (acc.1.tables t).rowCount)
    (unchanged : selects acc.1 t clause i →
      updateCells (acc.1.tables t).colCount row ((acc.1.rows t).getD i []) =
        (acc.1.rows t).getD i []) : (updateSlot t name clause row acc i).1 =
      if selects acc.1 t clause i ∧ acc.1.inTransaction then
        walAppend acc.1 .update name i
          (some ((acc.1.rowStore ((acc.1.tables t).rows i)).getD [])) (acc.1.tables t).colCount
      else acc.1 := by
  cases selected : selects acc.1 t clause i with
  | false => simp [updateSlot, selected]
  | true =>
    have same : (acc.1.rowStore ((acc.1.tables t).rows i)).map
        (updateCells (acc.1.tables t).colCount row) = acc.1.rowStore ((acc.1.tables t).rows i) := by
      rw [sound.stored inUse inside, map_some, unchanged selected]
    unfold updateSlot
    dsimp only
    rw [if_pos selected]
    cases logs : acc.1.inTransaction with
    | false =>
      exact setRow_self same
    | true =>
      rw [if_pos rfl]
      exact setRow_self (by simpa using same)

variable {n : Nat} {name : Chars}

/-- Two updates that change no row leave the same database, when in a transaction they
select the same rows. -/
theorem updateLoop_unchanged (name : Chars) (first second : WhereClause) {given other : List Cell}
    (sound : Sound (RowOk P) db) (inUse : t < db.tableCount)
    (unchangedFirst : ∀ stored ∈ db.rows t, first (db.tables t) stored →
      updateCells (db.tables t).colCount given stored = stored)
    (unchangedSecond : ∀ stored ∈ db.rows t, second (db.tables t) stored →
      updateCells (db.tables t).colCount other stored = stored)
    (logged : db.inTransaction → ∀ stored ∈ db.rows t,
      first (db.tables t) stored = second (db.tables t) stored)
    (inside : n ≤ (db.tables t).rowCount) :
    NewRows (RowOk P) t (db.rows t) db ((range n).foldl (updateSlot t name first given) (db, 0)).1 ∧
      ((range n).foldl (updateSlot t name first given) (db, 0)).1.inTransaction = db.inTransaction ∧
      ((range n).foldl (updateSlot t name first given) (db, 0)).1 =
        ((range n).foldl (updateSlot t name second other) (db, 0)).1 := by
  induction n with
  | zero => exact ⟨NewRows.of_eq sound rfl rfl rfl rfl, rfl, rfl⟩
  | succ n ih =>
    obtain ⟨new, transaction, equal⟩ := ih (le_of_succ_le inside)
    rw [range_succ, foldl_append, foldl_append, foldl_cons, foldl_cons, foldl_nil, foldl_nil]
    have tables := updateLoop_tables t name first given (db, 0) (range n)
    generalize (range n).foldl (updateSlot t name first given) (db, 0) = acc at *
    generalize (range n).foldl (updateSlot t name second other) (db, 0) = acc' at *
    have below : n < (acc.1.tables t).rowCount := by
      rw [tables]
      exact lt_of_succ_le inside
    have member := getD_mem (lt_length_rows (lt_of_succ_le inside))
    have read : ∀ clause : WhereClause,
        selects acc.1 t clause n = clause (db.tables t) ((db.rows t).getD n []) := by
      intro clause
      rw [selects_getD clause below, new.rows, tables]
    have inUse' := new.only.tableCount ▸ inUse
    have slot := updateSlot_unchanged name new.sound inUse' below (by
      rw [read, new.rows, tables]
      exact unchangedFirst _ member)
    have sound' : Sound (RowOk P) acc'.1 := equal ▸ new.sound
    have slot' := updateSlot_unchanged name sound' (equal ▸ inUse') (equal ▸ below) (by
      rw [← equal, read, new.rows, tables]
      exact unchangedSecond _ member)
    rw [slot, slot', ← equal, read, read, transaction]
    by_cases logs : db.inTransaction
    · rw [logged logs _ member]
      split
      · have appended := NewRows.walAppend new.sound t .update name n
          (some ((acc.1.rowStore ((acc.1.tables t).rows n)).getD [])) (acc.1.tables t).colCount
        rw [new.rows] at appended
        exact ⟨new.trans appended, by simpa using transaction, rfl⟩
      · exact ⟨new, transaction, rfl⟩
    · rw [if_neg fun both => logs both.2, if_neg fun both => logs both.2]
      exact ⟨new, transaction, rfl⟩

theorem updateLoop_walCount (sound : Sound (RowOk P) db) (inUse : t < db.tableCount)
    (logs : db.inTransaction)
    (given : ∀ j < (db.tables t).colCount, (row.getD j nullCell).type ≠ fundbTypeNull →
      P (row.getD j nullCell).copy) (inside : n ≤ (db.tables t).rowCount) :
    ((range n).foldl (updateSlot t name clause row) (db, 0)).1.inTransaction ∧
      ((range n).foldl (updateSlot t name clause row) (db, 0)).1.walCount =
        db.walCount + ((db.rows t).take n).countP (clause (db.tables t)) := by
  induction n with
  | zero => exact ⟨logs, by simp⟩
  | succ n ih =>
    obtain ⟨transaction, count⟩ := ih (le_of_succ_le inside)
    have read := selects_updateLoop name clause (show Sound (RowOk P) (db, 0).1 from sound) inUse given
      (lt_of_succ_le inside)
    have position := lt_length_rows (lt_of_succ_le inside)
    rw [range_succ, foldl_append, foldl_cons]
    generalize (range n).foldl (updateSlot t name clause row) (db, 0) = acc at *
    rw [getD_eq_getElem _ _ position] at read
    rw [← take_append_getElem position, countP_append, countP_singleton, ← read]
    cases selected : selects acc.1 t clause n with
    | true => simp [updateSlot, selected, transaction, count, add_assoc]
    | false => simp [updateSlot, selected, transaction, count]

/-- An update that gives no values is another update exactly when that one changes no row
and, in a transaction, selects every row. -/
theorem fundbUpdate_eq_iff (kept : Kept db) (found : findTable db name = some t)
    (clause : WhereClause) (row : List Cell) :
    (fundbUpdate db name (fun _ _ => true) (some (nullRow (db.tables t).colCount))).1 =
        (fundbUpdate db name clause (some row)).1 ↔
      ∀ stored ∈ db.rows t,
        (clause (db.tables t) stored → updateCells (db.tables t).colCount row stored = stored) ∧
        (db.inTransaction → clause (db.tables t) stored) := by
  have inUse := findTable_lt found
  have copied : ∀ row : List Cell, ∀ j < (db.tables t).colCount,
      (row.getD j nullCell).type ≠ fundbTypeNull →
        (row.getD j nullCell).copy.copy = (row.getD j nullCell).copy :=
    fun row j _ _ => Cell.copy_copy
  constructor
  · intro equal stored member
    constructor
    · intro selected
      have rows := (newRows_fundbUpdate kept.sound found (fun _ _ => true)
        (copied (nullRow (db.tables t).colCount))).1.rows
      rw [equal, (newRows_fundbUpdate kept.sound found clause (copied row)).1.rows] at rows
      have this := map_inj_left.mp rows stored member
      rwa [updatedRow, updatedRow, if_pos selected, updateCells_nullRow] at this
    · intro logs
      have count := congrArg walCount equal
      simp only [fundbUpdate, found, setTable] at count
      rw [(updateLoop_walCount kept.sound inUse logs (copied _) (le_refl _)).2,
        (updateLoop_walCount kept.sound inUse logs (copied row) (le_refl _)).2,
        take_of_length_le (le_of_eq (db.length_rows t)), add_left_cancel_iff,
        countP_true] at count
      exact countP_eq_length.mp count.symm stored member
  · intro agrees
    have loop := (updateLoop_unchanged name (fun _ _ => true) clause kept.sound inUse
      (fun stored _ _ => updateCells_nullRow _ stored)
      (fun stored member => (agrees stored member).1)
      (fun logs stored member => ((agrees stored member).2 logs).symm) (le_refl _)).2.2
    unfold fundbUpdate
    rw [found]
    dsimp only
    rw [loop]

end Update

/-! ## INSERT -/

section Insert

def needsId (table : Table) (row : List Cell) (i : Nat) : Bool :=
  (table.columns i).autoIncrement ≠ 0 ∧ (row.getD i nullCell).type = fundbTypeNull

/-- The first `n` columns of the auto-increment loop: cells that need no id stay, and the
next id counts the others. -/
theorem fillAutoColumn_foldl (table : Table) (row : List Cell) {start : Nat}
    (bound : start < 2 ^ 32) (n : Nat) :
    let filled := (range n).foldl (fillAutoColumn table) (row, start)
    (∀ i, n ≤ i ∨ needsId table row i = false → filled.1.getD i nullCell = row.getD i nullCell) ∧
    filled.2 = (start + (range n).countP (needsId table row)) % 2 ^ 32 := by
  induction n with
  | zero => exact ⟨fun _ _ => rfl, (mod_eq_of_lt bound).symm⟩
  | succ n ih =>
    simp only [range_succ, foldl_append, foldl_cons, foldl_nil,
      countP_append, countP_singleton] at ih ⊢
    generalize (range n).foldl (fillAutoColumn table) (row, start) = acc at ih
    obtain ⟨cells, next⟩ := ih
    have here : ((table.columns n).autoIncrement ≠ 0 ∧
        (acc.1.getD n nullCell).type = fundbTypeNull) ↔ needsId table row n := by
      rw [cells n (.inl (le_refl n)), needsId, decide_eq_true_eq]
    rw [fillAutoColumn]
    by_cases needs : needsId table row n
    · rw [if_pos (here.mpr needs), if_pos needs]
      constructor
      · intro i other
        have differ : n ≠ i := by
          rintro rfl
          obtain behind | free := other
          · omega
          · rw [needs] at free
            exact Bool.noConfusion free
        have earlier : n ≤ i ∨ needsId table row i = false := other.imp le_of_succ_le id
        rw [getD_eq_getElem?_getD, getElem?_set_ne differ, ← getD_eq_getElem?_getD, cells i earlier]
      · omega
    · rw [if_neg fun both => needs (here.mp both), if_neg needs]
      exact ⟨fun i other => cells i (other.imp le_of_succ_le id), next⟩

/-- A row that is stored like a row without values has none itself: a generated id that
happens to be the given one still counts. -/
theorem null_of_inserted {table : Table} (columns : table.colCount ≤ fundbMaxColumns)
    (autoId : table.nextAutoId < 2 ^ 32) {row : List Cell}
    (stored : insertedRow table (nullRow table.colCount) = insertedRow table row)
    (next : (fillAutoColumns table (nullRow table.colCount)).2 = (fillAutoColumns table row).2)
    {i : Nat} (inside : i < table.colCount) : (row.getD i nullCell).type = fundbTypeNull := by
  have fill := fun row => fillAutoColumn_foldl table row autoId table.colCount
  have weaker : ∀ i, needsId table row i → needsId table (nullRow table.colCount) i := by
    intro i needs
    simp only [needsId, decide_eq_true_eq, getD_nullRow] at needs ⊢
    exact ⟨needs.1, rfl⟩
  have count : (range table.colCount).countP (needsId table (nullRow table.colCount)) =
      (range table.colCount).countP (needsId table row) := by
    have fits : ∀ row, (range table.colCount).countP (needsId table row) ≤ 32 := fun row =>
      (countP_le_length.trans_eq length_range).trans columns
    have first := fits (nullRow table.colCount)
    have second := fits row
    rw [fillAutoColumns, fillAutoColumns, (fill _).2, (fill _).2] at next
    omega
  have sameIds : (range table.colCount).filter (needsId table row) =
      (range table.colCount).filter (needsId table (nullRow table.colCount)) := by
    refine (monotone_filter_right _ weaker).eq_of_length ?_
    rw [← countP_eq_length_filter, ← countP_eq_length_filter, count]
  by_cases auto : (table.columns i).autoIncrement ≠ 0
  · have member : i ∈ (range table.colCount).filter (needsId table row) := by
      rw [sameIds, mem_filter]
      refine ⟨mem_range.mpr inside, ?_⟩
      rw [needsId, decide_eq_true_eq, getD_nullRow]
      exact ⟨auto, rfl⟩
    have needs := (mem_filter.mp member).2
    rw [needsId, decide_eq_true_eq] at needs
    exact needs.2
  · have free : ∀ row, needsId table row i = false := by
      intro row
      rw [needsId, decide_eq_false_iff_not]
      exact fun both => auto both.1
    have cell : ∀ row, (insertedRow table row).getD i nullCell = (row.getD i nullCell).copy := by
      intro row
      rw [insertedRow, fillAutoColumns, fundbRowCopy, getD_eq_getElem?_getD,
        getElem?_map, getElem?_range inside, map_some, getD_some,
        (fill row).1 i (.inr (free row))]
    have copied : nullCell = (row.getD i nullCell).copy := by
      rw [← cell row, ← stored, cell, getD_nullRow, nullCell_copy]
    have types := congrArg Cell.type copied
    exact types.symm

theorem length_valueCells (fpu : FloatUnit) (left : Nat) (text : List UInt8) :
    (valueCells fpu left text).length ≤ left := by
  induction left generalizing text with
  | zero => exact le_refl 0
  | succ left ih =>
    rw [valueCells]
    split
    · exact zero_le _
    · exact succ_le_succ (ih _)

theorem length_parseValuesList (fpu : FloatUnit) (table : Table) (values : List UInt8) :
    (parseValuesList fpu table values).length = table.colCount := by
  have fits := length_valueCells fpu table.colCount values
  simp [parseValuesList, nullRow]
  omega

variable {fpu : FloatUnit} {text : List UInt8}

theorem parseValue_null (null : (parseValue fpu text).type = fundbTypeNull) :
    parseValue fpu text = nullCell := by
  unfold parseValue at null ⊢
  dsimp only at null ⊢
  split_ifs at null ⊢ <;> first | rfl | exact absurd null (by simp [fundbTypeNull, fundbTypeText,
    fundbTypeFloat, fundbTypeInt, fundbTypeBool])

theorem valueCells_null {left : Nat} (member : cell ∈ valueCells fpu left text)
    (null : cell.type = fundbTypeNull) : cell = nullCell := by
  induction left generalizing text with
  | zero => exact absurd member not_mem_nil
  | succ left ih =>
    rw [valueCells] at member
    split at member
    · exact absurd member not_mem_nil
    · obtain rfl | later := mem_cons.mp member
      · exact parseValue_null null
      · exact ih later

/-- Inserting a row without values is inserting the parsed row exactly when there is no
room or no value was given. -/
theorem fundbInsert_eq_iff {db : Database} {t : Nat} {name : Chars} (kept : Kept db)
    (found : findTable db name = some t) {values : List UInt8} :
    (fundbInsert db name (nullRow (db.tables t).colCount)).1 =
        (fundbInsert db name (parseValuesList fpu (db.tables t) values)).1 ↔
      ((db.tables t).rowCount < fundbMaxRows →
        parseValuesList fpu (db.tables t) values = nullRow (db.tables t).colCount) := by
  have inUse := findTable_lt found
  constructor
  · intro equal room
    have stores : ∃ logged : Database, logged.tables = db.tables ∧ ∀ row,
        (fundbInsert db name row).1 = storeRow logged t row := by
      refine ⟨if db.inTransaction then
        walAppend db .insert name (db.tables t).rowCount none 0 else db, ?_, fun row => ?_⟩
      · split
        · simp
        · rfl
      · rw [fundbInsert, found]
        simp only [not_le.mpr room, if_false]
    obtain ⟨logged, tables, stores⟩ := stores
    rw [stores, stores] at equal
    have next := congrArg (fun d => (d.tables t).nextAutoId) equal
    have stored := congrArg (fun d => d.rowStore logged.nextRow) equal
    simp only [storeRow, setTable, update_self, some.injEq, tables] at next stored
    have null := @null_of_inserted _ (kept.columns t inUse) (kept.autoId t inUse) _ stored next
    have width := length_parseValuesList fpu (db.tables t) values
    refine ext_getElem (by simp [width, nullRow]) fun i left _ => ?_
    have inside : i < (db.tables t).colCount := width ▸ left
    have type := null inside
    rw [getD_eq_getElem _ _ left] at type
    have member : (parseValuesList fpu (db.tables t) values)[i] ∈
        valueCells fpu (db.tables t).colCount values ++ nullRow _ := getElem_mem left
    simp only [nullRow, getElem_replicate]
    obtain given | filled := mem_append.mp member
    · exact valueCells_null given type
    · exact eq_of_mem_replicate filled
  · intro agrees
    by_cases room : (db.tables t).rowCount < fundbMaxRows
    · rw [agrees room]
    · simp [fundbInsert, found, not_lt.mp room]

end Insert

/-! ## SELECT -/

section Take

variable {α : Type} {p q : α → Bool}

/-- A property of every element and the elements in front of it, at the first and behind it. -/
theorem forall_split_cons {C : List α → α → Prop} {x : α} {xs : List α} :
    (∀ front y behind, x :: xs = front ++ y :: behind → C front y) ↔
      C [] x ∧ ∀ front y behind, xs = front ++ y :: behind → C (x :: front) y := by
  constructor
  · intro all
    refine ⟨all [] x xs rfl, fun front y behind split => all (x :: front) y behind ?_⟩
    rw [split, cons_append]
  · rintro ⟨here, later⟩ front y behind split
    cases front with
    | nil =>
      obtain ⟨rfl, rfl⟩ := cons.inj split
      exact here
    | cons z front =>
      obtain ⟨rfl, rest⟩ := cons.inj split
      exact later front y behind rest

/-- One filter takes the first `n` elements of another exactly if it takes those that have
fewer than `n` of the others in front of them. -/
theorem filter_eq_take_iff {xs : List α} {n : Nat} : xs.filter p = (xs.filter q).take n ↔
    ∀ front x behind, xs = front ++ x :: behind → (p x ↔ q x ∧ front.countP q < n) := by
  induction xs generalizing n with
  | nil => simp
  | cons x xs ih =>
    rw [forall_split_cons]
    by_cases taken : q x
    · cases n with
      | zero =>
        have none := @ih 0
        by_cases other : p x <;> simp_all
      | succ n =>
        simp only [countP_cons_of_pos taken, Nat.add_lt_add_iff_right, ← ih,
          filter_cons_of_pos taken, take_succ_cons, countP_nil, Nat.zero_lt_succ, and_true]
        by_cases other : p x
        · simp [other, taken]
        · rw [filter_cons_of_neg other]
          refine iff_of_false (fun same => ?_) fun both => other (both.1.mpr taken)
          have member : x ∈ xs.filter p := same ▸ mem_cons_self
          exact other (mem_filter.mp member).2
    · simp only [countP_cons_of_neg taken, ← ih, filter_cons_of_neg taken]
      by_cases other : p x
      · rw [filter_cons_of_pos other]
        refine iff_of_false (fun same => ?_) fun both => taken (both.1.mp other).1
        have member : x ∈ (xs.filter q).take n := same ▸ mem_cons_self
        exact taken (mem_filter.mp (mem_of_mem_take member)).2
      · simp [other, taken]

end Take

/-- The rows of one clause are those of another up to a limit. -/
theorem filter_eq_limited_iff {p q : List Cell → Bool} {limit : Nat} :
    rows.filter p = limited limit (rows.filter q) ↔
      ∀ front row behind, rows = front ++ row :: behind →
        (p row ↔ q row ∧ (limit = 0 ∨ front.countP q < limit)) := by
  have cut : limited limit (rows.filter q) =
      (rows.filter q).take (if limit = 0 then rows.length else limit) := by
    have shorter := length_filter_le q rows
    rw [limited]
    split_ifs
    · omega
    · rfl
    · exact (take_of_length_le shorter).symm
    · exact (take_of_length_le (by omega)).symm
  rw [cut, filter_eq_take_iff]
  refine forall_congr' fun front => forall_congr' fun row => forall_congr' fun behind =>
    forall_congr' fun split => ?_
  have length := congrArg length split
  have fewer := countP_le_length (p := q) (l := front)
  simp only [length_append, length_cons] at length
  by_cases unlimited : limit = 0
  · rw [if_pos unlimited]
    simp only [unlimited, true_or, and_true]
    exact iff_congr Iff.rfl (and_iff_left (by omega))
  · simp [unlimited]

section Select

variable {db : Database} {t : Nat} (fpu : FloatUnit)

/-- Rows that are selected by one clause, and rows taken in order from the same table: the
same up to order is the same. -/
theorem filter_eq_of_perm {taken : List (List Cell)} {p : List Cell → Bool}
    (sub : taken.Sublist rows) (perm : (rows.filter p).Perm taken) : rows.filter p = taken := by
  have all : taken.filter p = taken :=
    filter_eq_self.mpr fun row member => (mem_filter.mp (perm.mem_iff.mpr member)).2
  have shorter := sub.filter p
  rw [all] at shorter
  exact (shorter.eq_of_length perm.length_eq.symm).symm

theorem limited_sublist (limit : Nat) (rows : List (List Cell)) :
    (limited limit rows).Sublist rows := by
  unfold limited
  split
  · exact take_sublist limit rows
  · exact List.Sublist.refl rows

theorem matchedRows_eq_filter :
    matchedRows db t clause = (db.rows t).filter (clause (db.tables t)) := by
  rw [rows, refs, List.map_map, List.filter_map]
  rfl

theorem fundbRowCopy_of_ok {cells : List Cell}
    (ok : RowOk (fun cell => cell.copy = cell) colCount cells) :
    fundbRowCopy cells colCount = cells := by
  refine ext_getElem (by simp [fundbRowCopy, ok.width]) fun i _ inside => ?_
  simp only [fundbRowCopy, getElem_map, getElem_range, getD_eq_getElem _ _ inside]
  exact ok.cells _ (getElem_mem inside)

variable {name : List UInt8}

/-- What `fundb_select` returns, over the list of rows. -/
theorem fundbSelect_rows (found : findTable db (chars name) = some t)
    (ok : ∀ row ∈ db.rows t, RowOk (fun cell => cell.copy = cell) (db.tables t).colCount row)
    (columns whereText orderBy : List UInt8) (limit : Nat) :
    fundbSelect fpu db name columns whereText orderBy limit =
      let rows := limited limit ((db.rows t).filter (evaluateWhere fpu whereText (db.tables t)))
      if rows = [] then none
      else some ⟨(db.tables t).columns, (db.tables t).colCount,
        orderRows fpu (db.tables t) orderBy rows⟩ := by
  have copied : ∀ rows : List (List Cell), rows.Sublist (db.rows t) →
      rows.map (fun row => fundbRowCopy row (db.tables t).colCount) = rows := by
    intro rows sub
    refine (map_congr_left fun row member => ?_).trans (map_id' rows)
    exact fundbRowCopy_of_ok (ok row (sub.subset member))
  unfold fundbSelect
  rw [found]
  dsimp only
  rw [matchedRows_eq_filter, copied _ ((limited_sublist _ _).trans filter_sublist)]

/-- Two SELECT calls, the first without a limit, return the same exactly when they select
the same rows and order these the same way. -/
theorem fundbSelect_eq_iff (kept : Kept db) (found : findTable db (chars name) = some t)
    (columns columns' whereText whereText' orderBy orderBy' : List UInt8) (limit : Nat) :
    fundbSelect fpu db name columns whereText orderBy 0 =
        fundbSelect fpu db name columns' whereText' orderBy' limit ↔
      (db.rows t).filter (evaluateWhere fpu whereText (db.tables t)) =
          limited limit ((db.rows t).filter (evaluateWhere fpu whereText' (db.tables t))) ∧
        orderRows fpu (db.tables t) orderBy
            ((db.rows t).filter (evaluateWhere fpu whereText (db.tables t))) =
          orderRows fpu (db.tables t) orderBy'
            ((db.rows t).filter (evaluateWhere fpu whereText (db.tables t))) := by
  have unlimited : ∀ rows, limited 0 rows = rows := fun rows => rfl
  have sub := (limited_sublist limit
    ((db.rows t).filter (evaluateWhere fpu whereText' (db.tables t)))).trans filter_sublist
  have ok : ∀ row ∈ db.rows t, RowOk _ (db.tables t).colCount row := fun row member =>
    kept.sound.row_ok (findTable_lt found) member
  rw [fundbSelect_rows fpu found ok, fundbSelect_rows fpu found ok]
  dsimp only
  rw [unlimited]
  generalize limited limit ((db.rows t).filter (evaluateWhere fpu whereText' (db.tables t))) =
    taken at sub ⊢
  constructor
  · intro equal
    have same : (db.rows t).filter (evaluateWhere fpu whereText (db.tables t)) = taken := by
      refine filter_eq_of_perm sub ?_
      split at equal
      · rename_i empty
        split at equal
        · rename_i none
          rw [empty, none]
        · exact absurd equal.symm (some_ne_none _)
      · split at equal
        · exact absurd equal (some_ne_none _)
        · have rows := congrArg ResultSet.rows (some.inj equal)
          exact ((perm_orderRows fpu).symm.trans (.of_eq rows)).trans (perm_orderRows fpu)
    refine ⟨same, ?_⟩
    rw [same] at equal ⊢
    split at equal
    · rename_i empty
      rw [empty, (perm_orderRows fpu).eq_nil, (perm_orderRows fpu).eq_nil]
    · exact congrArg ResultSet.rows (some.inj equal)
  · rintro ⟨same, order⟩
    rw [order, same]

end Select

/-! ## Agreement -/

/-- When it makes no difference which clauses `sql_parse` misses. -/
def Agrees (fpu : FloatUnit) (db : Database) : Shape → Prop
  | .delete table whereText =>
    ∀ t, findTable db (chars table) = some t → ∀ row ∈ db.rows t,
      evaluateWhere fpu whereText (db.tables t) row
  | .update table setText whereText =>
    ∀ t, findTable db (chars table) = some t → ∀ row ∈ db.rows t,
      (evaluateWhere fpu whereText (db.tables t) row →
        updateCells (db.tables t).colCount (parseSetClause fpu (db.tables t) setText) row = row) ∧
      (db.inTransaction → evaluateWhere fpu whereText (db.tables t) row)
  | .insert table valueText =>
    ∀ t, findTable db (chars table) = some t → (db.tables t).rowCount < fundbMaxRows →
      parseValuesList fpu (db.tables t) valueText = nullRow (db.tables t).colCount
  | .select table whereText orderText limit =>
    (spelledWhere whereText).length ≤ 255 ∧
    ∀ t, findTable db (chars table) = some t →
      let copied := evaluateWhere fpu (spelledWhere whereText) (db.tables t)
      let given := evaluateWhere fpu whereText (db.tables t)
      (∀ front row behind, db.rows t = front ++ row :: behind →
        (copied row ↔ given row ∧ (limit = 0 ∨ front.countP given < limit))) ∧
      SameOrder fpu (db.tables t) (extractIdentifier orderText).1 orderText
        ((db.rows t).filter copied)

/-- The ORDER BY text and its first word name one column at most, which holds no FLOAT. -/
def Comparable (fpu : FloatUnit) (db : Database) : Shape → Prop
  | .select table whereText orderText _ =>
    ∀ t, findTable db (chars table) = some t →
      OneColumn (db.tables t) (extractIdentifier orderText).1 orderText
        ((db.rows t).filter (evaluateWhere fpu (spelledWhere whereText) (db.tables t)))
  | _ => True

theorem evaluateWhere_nil {fpu : FloatUnit} : evaluateWhere fpu [] = fun _ _ => true := rfl

section Shapes

variable {fpu : FloatUnit} {db : Database} {table whereText : List UInt8}

section

variable (kept : Kept db) (valid : TableName table)
include kept valid

theorem agrees_delete : fundbQuery fpu db (delete table whereText).text =
        some ((delete table whereText).direct fpu db) ↔
      Agrees fpu db (.delete table whereText) := by
  rw [fundbQuery, sqlParse_delete valid]
  simp only [runStatement, direct, some.injEq, Prod.mk.injEq, and_true, Agrees]
  cases found : findTable db (chars table) with
  | none => simp [fundbDelete, found]
  | some t =>
    have iff := fundbDelete_eq_iff kept.sound found (columnsOnly_evaluateWhere fpu [])
      (columnsOnly_evaluateWhere fpu whereText)
    simpa [evaluateWhere_nil] using iff

theorem agrees_update {setText : List UInt8} :
    fundbQuery fpu db (update table setText whereText).text =
        some ((update table setText whereText).direct fpu db) ↔
      Agrees fpu db (.update table setText whereText) := by
  rw [fundbQuery, sqlParse_update valid]
  simp only [runStatement, direct, some.injEq, Agrees, queryUpdate]
  cases found : findTable db (chars table) with
  | none => simp
  | some t =>
    have iff := fundbUpdate_eq_iff kept found (evaluateWhere fpu whereText)
      (parseSetClause fpu (db.tables t) setText)
    simpa [evaluateWhere_nil] using iff

theorem agrees_insert {valueText : List UInt8} : fundbQuery fpu db (insert table valueText).text =
        some ((insert table valueText).direct fpu db) ↔
      Agrees fpu db (.insert table valueText) := by
  rw [fundbQuery, sqlParse_insert valid]
  simp only [runStatement, direct, some.injEq, Agrees, queryInsert]
  cases found : findTable db (chars table) with
  | none => simp
  | some t => simpa using fundbInsert_eq_iff kept found

theorem agrees_select {orderText : List UInt8} (validWhere : ClauseText whereText)
    (validOrder : ClauseText orderText) (first : ∃ c ∈ orderText.head?, space c = false)
    {limit : Nat} :
    (Agrees fpu db (.select table whereText orderText limit) →
      fundbQuery fpu db (select table whereText orderText limit).text =
        some ((select table whereText orderText limit).direct fpu db)) ∧
    (Comparable fpu db (.select table whereText orderText limit) →
      fundbQuery fpu db (select table whereText orderText limit).text =
        some ((select table whereText orderText limit).direct fpu db) →
      Agrees fpu db (.select table whereText orderText limit)) := by
  rw [fundbQuery, sqlParse_select valid validWhere validOrder first, Agrees, Comparable]
  by_cases fits : (spelledWhere whereText).length ≤ 255
  · simp only [fits, if_true, true_and, runStatement, direct, some.injEq, Prod.mk.injEq]
    cases found : findTable db (chars table) with
    | none => simp [fundbSelect, found]
    | some t =>
      have iff := fundbSelect_eq_iff fpu kept found [42, 32] [42] (spelledWhere whereText) whereText
        (extractIdentifier orderText).1 orderText limit
      rw [filter_eq_limited_iff] at iff
      simp only [some.injEq, forall_eq', iff]
      exact ⟨fun agrees => ⟨agrees.1, agrees.2.orderRows_eq⟩,
        fun one equal => ⟨equal.1, one.sameOrder fpu equal.2⟩⟩
  · simp [fits]

end

end Shapes

/-- **A statement does what the direct call does when the clauses `sql_parse` misses make no
difference**, and only then if the orders are comparable. -/
theorem query_agrees (fpu : FloatUnit) {db : Database} (kept : Kept db) {shape : Shape}
    (valid : shape.Valid) :
    (Agrees fpu db shape → fundbQuery fpu db shape.text = some (shape.direct fpu db)) ∧
    (Comparable fpu db shape → fundbQuery fpu db shape.text = some (shape.direct fpu db) →
      Agrees fpu db shape) := by
  cases shape with
  | delete table whereText =>
    have iff := @agrees_delete fpu db table whereText kept valid.1
    exact ⟨iff.mpr, fun _ => iff.mp⟩
  | update table setText whereText =>
    have iff := @agrees_update fpu db table whereText kept valid.1 setText
    exact ⟨iff.mpr, fun _ => iff.mp⟩
  | insert table valueText =>
    have iff := @agrees_insert fpu db table kept valid.1 valueText
    exact ⟨iff.mpr, fun _ => iff.mp⟩
  | select table whereText orderText limit =>
    exact agrees_select kept valid.1 valid.2.1 valid.2.2.1 valid.2.2.2

/-! ## Two statements -/

def marks : Database where
  tables := fun _ =>
    { name := chars [116]
      columns := fun _ => ⟨chars [97], fundbTypeInt, 4, 0, 0, 0, 0⟩
      colCount := 1
      rows := id
      rowCount := 2
      nextAutoId := 1
      dirty := false }
  tableCount := 1
  wal := fun _ => ⟨.insert, chars [], 0, [], false⟩
  walCount := 0
  walCapacity := 64
  inTransaction := false
  rowStore := fun ref =>
    if ref < 2 then some [⟨fundbTypeInt, 4, some (uint32Bytes (ref + 1))⟩] else none
  nextRow := 2
  bufferMemory := fun _ _ => ⟨.insert, chars [], 0, [], false⟩
  buffers := 1

theorem marks_kept : Kept marks := by
  have single : ∀ t < marks.tableCount, t = 0 := fun t used => lt_one_iff.mp used
  refine ⟨⟨?_, ?_, ?_, ?_⟩, fun _ _ => (by decide : 1 ≤ 32), fun _ _ => (by decide : 1 < 2 ^ 32)⟩
  · intro t _
    exact nodup_range.map fun _ _ same => same
  · intro t used u used' differ
    exact absurd ((single t used).trans (single u used').symm) differ
  · exact fun t _ => forall_mem_map.mpr fun i inside => mem_range.mp inside
  · refine fun t _ => forall_mem_map.mpr fun i inside => ?_
    exact ⟨_, if_pos (mem_range.mp inside), rfl, by simp [Cell.copy, uint32Bytes]⟩

theorem clauseText_of_tails {text : List UInt8} (semicolon : (59 : UInt8) ∉ text)
    (terminated : (0 : UInt8) ∉ text)
    (tails : ∀ keyword ∈ keywords, ∀ rest ∈ text.tails, strPrefixCi rest keyword = false) :
    ClauseText text :=
  ⟨semicolon, terminated, fun keyword member rest suffix =>
    tails keyword member rest ((mem_tails _ _).mpr suffix)⟩

/-- `DELETE FROM t WHERE a>c`. -/
def deleteAbove (c : UInt8) : Shape := .delete [116] [97, 62, c]

theorem deleteAbove_valid : (deleteAbove 48).Valid ∧ (deleteAbove 49).Valid := by
  have name : TableName [116] := ⟨by decide +kernel, by decide, by decide⟩
  exact ⟨⟨name, clauseText_of_tails (by decide) (by decide) (by decide +kernel)⟩,
    name, clauseText_of_tails (by decide) (by decide) (by decide +kernel)⟩

/-- `DELETE FROM t WHERE a>0` is meant to delete everything, and does. -/
theorem delete_every_mark :
    fundbQuery noFloats marks (deleteAbove 48).text =
      some ((deleteAbove 48).direct noFloats marks) := by
  refine (query_agrees noFloats marks_kept deleteAbove_valid.1).1 ?_
  intro t found
  cases found
  decide +kernel

/-- `DELETE FROM t WHERE a>1` deletes everything too; `fundb_delete` keeps the row `1`. -/
theorem delete_clause_missed : Kept marks ∧ (deleteAbove 49).Valid ∧
    (fundbQuery noFloats marks (deleteAbove 49).text).map (·.1.rows 0) = some [] ∧
    ((deleteAbove 49).direct noFloats marks).1.rows 0 = [[⟨fundbTypeInt, 4, some [1, 0, 0, 0]⟩]] :=
  ⟨marks_kept, deleteAbove_valid.2, by decide +kernel, by decide +kernel⟩

/-! ## What DELETE leaves -/

end FunsOS.Fundb
