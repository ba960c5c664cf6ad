import FunsOS.Fundb.Shapes

/-!
# When an index agrees with its table

An index on a column of numbers agrees with the table when a search for the number in a row
gives the slot of that row, and a search for any other number gives nothing.

`fundb_create_index` and `fundb_insert` keep the index as an array of at most 63 entries.
The next entry is lost, and `fundb_update` and `fundb_delete` do not look at indexes at
all. `fundb_insert` compares the name of its table with the one in the index, which is cut
at 63 characters. So the index agrees as long as the names fit, the table has at most 63
rows and, once there is an index, no number in the column changes and no row goes
(`index_agrees`).
-/

set_option autoImplicit false

namespace FunsOS.Fundb

open Foundation List Nat Database
open Function (comp_apply update_of_ne update_self)

/-! ## Trees that hold a list of numbers -/

/-- The entries for the numbers of the rows of table `t`. -/
def slotEntries (t : Nat) (values : List Nat) : List (Nat × RowSlot) :=
  values.zipIdx.map fun entry => (entry.1, (t, entry.2))

variable {t position left : Nat} {values : List Nat} {name second first : Chars} {row : List Cell}
  {table : Table} {root : BTree} {cell : Cell}

theorem mem_slotEntries {value : Nat} {slot : RowSlot} :
    (value, slot) ∈ slotEntries t values ↔ ∃ i, values[i]? = some value ∧ slot = (t, i) := by
  simp only [slotEntries, mem_map, Prod.mk.injEq, Prod.exists, mem_zipIdx_iff_getElem?]
  constructor
  · rintro ⟨_, i, isValue, rfl, rfl⟩
    exact ⟨i, isValue, rfl⟩
  · rintro ⟨i, isValue, rfl⟩
    exact ⟨value, i, isValue, rfl, rfl⟩

/-- The tree is a leaf with these numbers, each with the slot of its row. -/
def HoldsValues (t : Nat) (root : BTree) (values : List Nat) : Prop :=
  ∃ entries, root = .leaf entries ∧ SortedEntries entries ∧ entries.Perm (slotEntries t values)

theorem HoldsValues.empty : HoldsValues t (.leaf []) [] :=
  ⟨[], rfl, List.Pairwise.nil, List.Perm.refl _⟩

/-- **One more number** goes into a leaf that has room. -/
theorem HoldsValues.insert {key : Nat} (holds : HoldsValues t root values) (isNew : key ∉ values)
    (room : values.length < fundbBtreeOrder - 1) :
    HoldsValues t (btreeInsert root key (t, values.length)).1 (values ++ [key]) := by
  obtain ⟨entries, rfl, sorted, perm⟩ := holds
  have length : entries.length = values.length := by
    rw [perm.length_eq, slotEntries, length_map, length_zipIdx]
  have notFull : ¬fundbBtreeOrder - 1 ≤ entries.length := by omega
  refine ⟨insertEntry (key, (t, values.length)) entries, ?_, insertEntry_sorted sorted ?_, ?_⟩
  · rw [btreeInsert, if_neg notFull, insertBelow, if_neg notFull]
  · rintro ⟨other, slot⟩ member same
    obtain ⟨i, isValue, -⟩ := mem_slotEntries.mp (perm.mem_iff.mp member)
    have same : other = key := same
    exact isNew (same ▸ mem_of_getElem? isValue)
  · refine insertEntry_perm.trans ((perm.cons _).trans ?_)
    rw [slotEntries, slotEntries, zipIdx_append, map_append, zero_add]
    exact (perm_append_singleton (key, (t, values.length)) _).symm

/-- **A search in the tree** finds the slots of the numbers, and nothing else. -/
theorem HoldsValues.search (holds : HoldsValues t root values) :
    (∀ i value, values[i]? = some value → btreeSearch root value = some (t, i)) ∧
      ∀ value ∉ values, btreeSearch root value = none := by
  obtain ⟨entries, rfl, sorted, perm⟩ := holds
  constructor
  · intro i value isValue
    exact (lookupEntry_iff sorted).mpr (perm.mem_iff.mpr (mem_slotEntries.mpr ⟨i, isValue, rfl⟩))
  · intro value absent
    refine lookupEntry_eq_none sorted ?_
    rintro ⟨other, slot⟩ member rfl
    obtain ⟨i, isValue, -⟩ := mem_slotEntries.mp (perm.mem_iff.mp member)
    exact absent (mem_of_getElem? isValue)

/-! ## Columns of numbers -/

def columnValues (rows : List (List Cell)) (j : Nat) : List Nat :=
  rows.map fun row => wordOfBytes (((row.getD j nullCell).value).getD [])

/-- The cell holds a number of four bytes. -/
def Cell.IsNumber (cell : Cell) : Prop :=
  cell.type = fundbTypeInt ∧ cell.size = 4 ∧ cell.value.isSome
deriving Decidable

/-- Every row has a number in the column, and no two rows have the same. -/
def DistinctNumbers (rows : List (List Cell)) (j : Nat) : Prop :=
  (∀ row ∈ rows, (row.getD j nullCell).IsNumber) ∧ (columnValues rows j).Nodup
deriving Decidable

theorem keyOf_number (number : cell.IsNumber) :
    keyOf cell position = wordOfBytes (cell.value.getD []) := by
  obtain ⟨type, -, hasValue⟩ := number
  obtain ⟨value, isValue⟩ := Option.isSome_iff_exists.mp hasValue
  rw [keyOf, isValue]
  dsimp only
  rw [if_pos type]
  rfl

theorem keyOf_of_copy (number : cell.copy.IsNumber) :
    keyOf cell position = wordOfBytes (cell.copy.value.getD []) := by
  obtain ⟨type, size, value⟩ := cell
  obtain ⟨isInt, isFour, hasValue⟩ := number
  subst isFour isInt
  cases value with
  | none => simp [Cell.copy] at hasValue
  | some bytes =>
    change wordOfBytes bytes = wordOfBytes (bytes.take 4)
    simp [wordOfBytes, getD_eq_getElem?_getD]

/-! ## Strings of at most 63 characters -/

/-- The string ends within a `char[64]`. -/
def Short (name : Chars) : Prop := ∃ k ≤ 63, name k = 0
deriving Decidable

theorem stringsEqual_eq_namesAgree {j : Nat} :
    stringsEqual first second left j = namesAgree first second left j := by
  induction left generalizing j with
  | zero => rfl
  | succ left ih =>
    rw [stringsEqual, namesAgree, ih]
    by_cases same : first j = second j
    · by_cases ends : second j = 0 <;> simp [same, ends]
    · have notBoth : ¬(first j = 0 ∧ second j = 0) := fun both =>
        same (both.1.trans both.2.symm)
      simp [same, notBoth]

theorem sameString_iff : sameString first second ↔ textFrom first 64 0 = textFrom second 64 0 := by
  rw [sameString, stringsEqual_eq_namesAgree, namesAgree_iff]

theorem textFrom_of_ends {j : Nat} (ends : ∃ k, j ≤ k ∧ k ≤ j + left ∧ name k = 0) :
    textFrom name (left + 1) j = textFrom name left j := by
  induction left generalizing j with
  | zero =>
    obtain ⟨k, low, high, isEnd⟩ := ends
    obtain rfl : k = j := by omega
    exact textFrom_of_end isEnd
  | succ left ih =>
    by_cases here : name j = 0
    · rw [textFrom_of_end here, textFrom_of_end here]
    · obtain ⟨k, low, high, isEnd⟩ := ends
      have later : j ≠ k := fun same => here (same ▸ isEnd)
      rw [textFrom_of_ne here, textFrom_of_ne here, ih ⟨k, by omega, by omega, isEnd⟩]

theorem Short.text (short : Short name) : textFrom name 64 0 = nameOf name := by
  obtain ⟨k, bound, isEnd⟩ := short
  exact textFrom_of_ends ⟨k, zero_le _, by omega, isEnd⟩

/-- **A short string in a cleared slot** compares like the string. -/
theorem sameString_copyName (short : Short name) {other : Chars} :
    sameString (copyName (fun _ => 0) name) other = sameString name other := by
  have copied : textFrom (copyName (fun _ => 0) name) 64 0 = textFrom name 64 0 := by
    have isShort : Short (copyName (fun _ => 0) name) := ⟨63, le_refl _, rfl⟩
    rw [isShort.text, short.text]
    exact nameOf_copyName_iff.mpr (.inr rfl)
  rw [Bool.eq_iff_iff, sameString_iff, sameString_iff, copied]

theorem columnNamed_copyName {column : Chars} (short : Short column) :
    columnNamed table (copyName (fun _ => 0) column) = columnNamed table column := by
  simp only [columnNamed, sameString_copyName short]

/-! ## Indexes on a column -/

section Column

variable (name : Chars) (t j : Nat)

/-- The indexes in these slots agree with the rows in column `j` of table `t`. -/
def IndexesAgree (s : Indexed) (made : List Nat) : Prop :=
  ∀ k ∈ made,
    (∀ i value, (columnValues (s.db.rows t) j)[i]? = some value →
        btreeSearch (s.indexes k).root value = some (t, i)) ∧
      ∀ value ∉ columnValues (s.db.rows t) j, btreeSearch (s.indexes k).root value = none

/-- `fundb_insert` into the table updates index `k`, with the number in column `j`. -/
def Recognised (s : Indexed) (k : Nat) : Prop :=
  k < s.indexCount ∧ sameString (s.indexes k).table name ∧
    columnNamed (s.db.tables t) (s.indexes k).column = some j
deriving Decidable

/-- The table is there, index slots that are not in use are cleared, and the indexes in the
slots `made` are recognised and hold the numbers in the column. -/
structure IndexesHold (made : List Nat) (s : Indexed) : Prop where
  found : findTable s.db name = some t
  column : j < (s.db.tables t).colCount
  sound : Sound (RowOk fun _ => True) s.db
  clean : ∀ k, s.indexCount ≤ k → (s.indexes k).table = (fun _ => 0) ∧
    (s.indexes k).column = fun _ => 0
  recognised : ∀ k ∈ made, Recognised name t j s k
  holds : ∀ k ∈ made, HoldsValues t (s.indexes k).root (columnValues (s.db.rows t) j)

variable {name t j} {s : Indexed} {made : List Nat}

theorem IndexesHold.agrees (hold : IndexesHold name t j made s) : IndexesAgree t j s made :=
  fun k member => (hold.holds k member).search

variable {rows : List (List Cell)} {column : Chars}

theorem IndexesHold.newRows (hold : IndexesHold name t j made s) {db' : Database}
    (new : NewRows (RowOk fun _ => True) t rows s.db db') {indexes : Nat → Index}
    (same : ∀ k, (indexes k).table = (s.indexes k).table ∧
      (indexes k).column = (s.indexes k).column)
    (holds : ∀ k ∈ made, HoldsValues t (indexes k).root (columnValues rows j)) :
    IndexesHold name t j made { s with db := db', indexes } := by
  have names : ∀ u, (db'.tables u).name = (s.db.tables u).name := by
    intro u
    by_cases here : u = t
    · rw [here, new.name]
    · rw [new.only.tables u here]
  have columns : ∀ column, columnNamed (db'.tables t) column = columnNamed (s.db.tables t) column := by
    intro column
    rw [columnNamed, columnNamed, new.colCount, new.columns]
  refine ⟨?_, ?_, new.sound, fun k unused => ?_, fun k member => ?_, fun k member => ?_⟩
  · rw [← hold.found, findTable, findTable, new.only.tableCount]
    simp only [names]
  · rw [new.colCount]
    exact hold.column
  · rw [(same k).1, (same k).2]
    exact hold.clean k unused
  · obtain ⟨inUse, isTable, isColumn⟩ := hold.recognised k member
    refine ⟨inUse, ?_, ?_⟩
    · rw [(same k).1]
      exact isTable
    · rw [(same k).2, columns]
      exact isColumn
  · rw [new.rows]
    exact holds k member

/-! ## Making an index -/

theorem columnValues_append : columnValues (rows ++ [row]) j =
      columnValues rows j ++ [wordOfBytes (((row.getD j nullCell).value).getD [])] := by
  rw [columnValues, map_append]
  rfl

/-- The loop over the rows, with the first `n` of them in the tree. -/
theorem holdsValues_foldl (distinct : DistinctNumbers rows j)
    (few : rows.length ≤ fundbBtreeOrder - 1) {add : BTree → Nat → BTree}
    (adds : ∀ root i (_ : i < rows.length),
      add root i = (btreeInsert root (keyOf (rows[i].getD j nullCell) i) (t, i)).1) {n : Nat}
    (inside : n ≤ rows.length) :
    HoldsValues t ((range n).foldl add (.leaf [])) (columnValues (rows.take n) j) := by
  induction n with
  | zero => exact HoldsValues.empty
  | succ n ih =>
    have isRow : n < rows.length := inside
    have number := distinct.1 _ (getElem_mem isRow)
    have length : (columnValues (rows.take n) j).length = n := by
      rw [columnValues, length_map, length_take]
      omega
    have nodup : (columnValues (rows.take (n + 1)) j).Nodup :=
      distinct.2.sublist ((take_sublist _ _).map _)
    rw [take_succ_eq_append_getElem isRow, columnValues_append] at nodup ⊢
    rw [range_succ, foldl_append, foldl_cons, adds _ n isRow, keyOf_number number]
    have isNew := fun member =>
      (nodup_append.mp nodup).2.2 _ member _ (mem_singleton_self _) rfl
    have inserted := (ih (by omega)).insert isNew (by omega)
    rwa [length] at inserted

/-- **A new index on the column** holds its numbers if they fit a leaf. -/
theorem indexRows_holds {db : Database} (named : columnNamed (db.tables t) column = some j)
    (distinct : DistinctNumbers (db.rows t) j)
    (few : (db.tables t).rowCount ≤ fundbBtreeOrder - 1) :
    HoldsValues t (indexRows db t column) (columnValues (db.rows t) j) := by
  have length := length_rows db t
  have stored : ∀ i (_ : i < (db.rows t).length),
      (db.rowStore ((db.tables t).rows i)).getD [] = (db.rows t)[i] := by
    intro i inside
    simp [rows, refs, rowAt]
  have all : columnValues (db.rows t) j = columnValues ((db.rows t).take (db.rows t).length) j := by
    rw [take_length]
  rw [indexRows, ← length, named, all]
  refine holdsValues_foldl distinct (by omega) (fun root i inside => ?_) (le_refl _)
  rw [← stored i inside]

/-! ## The calls -/

/-- A call on the table. -/
inductive IndexOp where
  | createIndex (column indexName : Chars)
  | insert (row : List Cell)
  | update (whereText : List UInt8) (row : Option (List Cell))
  | delete (whereText : List UInt8)

variable (fpu : FloatUnit)

def indexStep (name : Chars) (s : Indexed) : IndexOp → Indexed
  | .createIndex column indexName => (fundbCreateIndex s name column indexName).1
  | .insert row => (s.insert name row).1
  | .update whereText row =>
    { s with db := (fundbUpdate s.db name (evaluateWhere fpu whereText) row).1 }
  | .delete whereText =>
    { s with db := (fundbDelete s.db name (evaluateWhere fpu whereText)).1 }

/-- The indexes of a database, with the slots of those that were made on the column. -/
structure Tracked where
  indexed : Indexed
  made : List Nat

/-- The index a call makes on column `j` of the table: `fundb_create_index` succeeds, and the
name it is given is that of the column. -/
def madeBy (name : Chars) (t j : Nat) (s : Indexed) : IndexOp → List Nat
  | .createIndex column indexName =>
    if (fundbCreateIndex s name column indexName).2 = fundbOk ∧
        columnNamed (s.db.tables t) column = some j then [s.indexCount] else []
  | _ => []

def trackedStep (name : Chars) (t j : Nat) (s : Tracked) (op : IndexOp) : Tracked :=
  ⟨indexStep fpu name s.indexed op, s.made ++ madeBy name t j s.indexed op⟩

/-- A call an index on the column survives: an index is made on it while the rows fit a leaf,
with names that fit their fields; and while there is an index on the column, a row is added
only if it fits the leaf, no update changes a number of the column, and no row is deleted. -/
def Indexable (name : Chars) (t j : Nat) (s : Tracked) : IndexOp → Prop
  | .createIndex column _ =>
    columnNamed (s.indexed.db.tables t) column = some j →
      Short name ∧ Short column ∧ (s.indexed.db.tables t).rowCount ≤ fundbBtreeOrder - 1
  | .insert _ => s.made ≠ [] → (s.indexed.db.tables t).rowCount < fundbBtreeOrder - 1
  | .update whereText row =>
    s.made ≠ [] → ∀ given ∈ row, ∀ stored ∈ s.indexed.db.rows t,
      evaluateWhere fpu whereText (s.indexed.db.tables t) stored →
        (given.getD j nullCell).type = fundbTypeNull ∨
          (given.getD j nullCell).copy = stored.getD j nullCell
  | .delete whereText =>
    s.made ≠ [] → ∀ stored ∈ s.indexed.db.rows t,
      evaluateWhere fpu whereText (s.indexed.db.tables t) stored = false

instance (fpu : FloatUnit) (name : Chars) (t j : Nat) (s : Tracked) :
    (op : IndexOp) → Decidable (Indexable fpu name t j s op)
  | .createIndex _ _ => inferInstanceAs (Decidable (_ → _ ∧ _ ∧ _))
  | .insert _ => inferInstanceAs (Decidable (_ → _))
  | .update _ row =>
    inferInstanceAs (Decidable (_ →
      ∀ given ∈ row, ∀ stored ∈ s.indexed.db.rows t, _ → _ ∨ _))
  | .delete _ => inferInstanceAs (Decidable (_ → ∀ stored ∈ s.indexed.db.rows t, _))

/-- **A new index** goes into a cleared slot. -/
theorem IndexesHold.createIndex {fpu : FloatUnit} (hold : IndexesHold name t j made s)
    (distinct : DistinctNumbers (s.db.rows t) j) {indexName : Chars}
    (fits : Indexable fpu name t j ⟨s, made⟩ (.createIndex column indexName)) :
    IndexesHold name t j (made ++ madeBy name t j s (.createIndex column indexName))
      (fundbCreateIndex s name column indexName).1 := by
  rw [madeBy]
  by_cases full : fundbMaxIndexes ≤ s.indexCount
  · simpa [fundbCreateIndex, full, fundbError, fundbOk] using hold
  have created : (fundbCreateIndex s name column indexName).2 = fundbOk := by
    simp [fundbCreateIndex, full]
  have old : ∀ k ∈ made, k ≠ s.indexCount := fun k member =>
    Nat.ne_of_lt (hold.recognised k member).1
  have new : ∀ k ∈ if columnNamed (s.db.tables t) column = some j then [s.indexCount] else [],
      k = s.indexCount ∧ columnNamed (s.db.tables t) column = some j := by
    intro k member
    split at member
    · exact ⟨mem_singleton.mp member, by assumption⟩
    · cases member
  -- The names go over what the slot held, which is nothing.
  obtain ⟨noTable, noColumn⟩ := hold.clean _ (le_refl s.indexCount)
  rw [created, fundbCreateIndex, if_neg full, hold.found]
  simp only [true_and]
  refine ⟨hold.found, hold.column, hold.sound, fun k unused => ?_, fun k member => ?_,
    fun k member => ?_⟩
  · have unused : s.indexCount + 1 ≤ k := unused
    dsimp only
    rw [update_of_ne (by omega)]
    exact hold.clean k (by omega)
  · rw [Recognised]
    dsimp only
    obtain earlier | isNew := mem_append.mp member
    · obtain ⟨inUse, isTable, isColumn⟩ := hold.recognised k earlier
      rw [update_of_ne (old k earlier)]
      exact ⟨by omega, isTable, isColumn⟩
    · obtain ⟨rfl, named⟩ := new k isNew
      obtain ⟨shortName, shortColumn, -⟩ := fits named
      rw [update_self, noTable, noColumn, sameString_copyName shortName,
        columnNamed_copyName shortColumn]
      exact ⟨lt_succ_self _, sameString_iff.mpr rfl, named⟩
  · dsimp only
    obtain earlier | isNew := mem_append.mp member
    · rw [update_of_ne (old k earlier)]
      exact hold.holds k earlier
    · obtain ⟨rfl, named⟩ := new k isNew
      rw [update_self]
      exact indexRows_holds named distinct (fits named).2.2

/-- **INSERT adds the number to the indexes on the column.** -/
theorem IndexesHold.insert (hold : IndexesHold name t j made s)
    (few : made ≠ [] → (s.db.tables t).rowCount < fundbBtreeOrder - 1)
    (distinct : DistinctNumbers ((s.insert name row).1.db.rows t) j) :
    IndexesHold name t j made (s.insert name row).1 := by
  rw [insert_db] at distinct
  rw [Indexed.insert]
  split
  case isFalse => exact hold
  case isTrue ok =>
    obtain ⟨u, found, room⟩ := fundbInsert_stores ok
    obtain rfl : t = u := Option.some.inj (hold.found.symm.trans found)
    have new := (@newRows_fundbInsert _ _ _ _ hold.sound hold.found row room fun _ _ => trivial).1
    rw [new.rows] at distinct
    -- The tree gets the number of the given cell, the row its copy.
    have number := distinct.1 _ (mem_append_right _ (mem_singleton_self _))
    have nodup := distinct.2
    rw [insertedRow_getD hold.column] at number
    rw [columnValues_append, insertedRow_getD hold.column] at nodup
    rw [hold.found]
    refine hold.newRows new (fun k => ?_) fun k member => ?_
    · split
      · rw [Index.afterInsert]
        split
        · split <;> exact ⟨rfl, rfl⟩
        · exact ⟨rfl, rfl⟩
      · exact ⟨rfl, rfl⟩
    · have length : (columnValues (s.db.rows t) j).length = (s.db.tables t).rowCount := by
        rw [columnValues, length_map, length_rows]
      have isNew := fun member =>
        (nodup_append.mp nodup).2.2 _ member _ (mem_singleton_self _) rfl
      have room := few (ne_nil_of_mem member)
      have inserted := (hold.holds k member).insert isNew (by rwa [length])
      obtain ⟨inUse, isTable, isColumn⟩ := hold.recognised k member
      rw [if_pos inUse, Index.afterInsert, if_pos isTable, isColumn, columnValues_append,
        insertedRow_getD hold.column]
      dsimp only
      rw [keyOf_of_copy number, ← length]
      exact inserted

theorem columnValues_updated {clause : WhereClause} {given : List Cell}
    (keeps : ∀ stored ∈ rows, clause table stored →
      (given.getD j nullCell).type = fundbTypeNull ∨
        (given.getD j nullCell).copy = stored.getD j nullCell) :
    columnValues (rows.map (updatedRow table clause given)) j = columnValues rows j := by
  rw [columnValues, map_map]
  refine map_congr_left fun stored member => ?_
  have same : (updatedRow table clause given stored).getD j nullCell = stored.getD j nullCell := by
    rw [updatedRow]
    split
    case isFalse => rfl
    case isTrue selected =>
      obtain same | ⟨notNull, isGiven⟩ := updateCells_getD
      · exact same
      · rw [isGiven]
        exact (keeps stored member selected).resolve_left notNull
  rw [comp_apply, same]

/-- **A step keeps the indexes.** -/
theorem IndexesHold.step {fpu : FloatUnit} {s : Tracked}
    (hold : IndexesHold name t j s.made s.indexed)
    (distinct : DistinctNumbers (s.indexed.db.rows t) j) {op : IndexOp}
    (indexable : Indexable fpu name t j s op)
    (distinct' : DistinctNumbers ((trackedStep fpu name t j s op).indexed.db.rows t) j) :
    IndexesHold name t j (trackedStep fpu name t j s op).made
      (trackedStep fpu name t j s op).indexed := by
  cases op with
  | createIndex column indexName => exact hold.createIndex distinct indexable
  | insert row =>
    simp only [trackedStep, madeBy, append_nil]
    exact hold.insert indexable distinct'
  | update whereText row =>
    simp only [trackedStep, madeBy, append_nil]
    cases row with
    | none =>
      rw [indexStep, fundbUpdate, hold.found]
      exact hold
    | some given =>
      have new := (@newRows_fundbUpdate _ _ _ _ hold.sound hold.found (evaluateWhere fpu whereText)
        given fun _ _ _ => trivial).1
      refine hold.newRows new (fun k => ⟨rfl, rfl⟩) fun k member => ?_
      rw [columnValues_updated (indexable (ne_nil_of_mem member) given rfl)]
      exact hold.holds k member
  | delete whereText =>
    simp only [trackedStep, madeBy, append_nil]
    have new := (newRows_fundbDelete hold.sound hold.found
      (columnsOnly_evaluateWhere fpu whereText)).1
    refine hold.newRows new (fun k => ⟨rfl, rfl⟩) fun k member => ?_
    rw [filter_eq_self.mpr fun stored inTable => by
      rw [indexable (ne_nil_of_mem member) stored inTable]
      rfl]
    exact hold.holds k member

/-! ## The result -/

/-- Unused index slots are cleared, and the indexes for the table are empty. -/
structure NoEntries (name : Chars) (s : Indexed) : Prop where
  clean : ∀ k, s.indexCount ≤ k → (s.indexes k).table = (fun _ => 0) ∧
    (s.indexes k).column = fun _ => 0
  empty : ∀ k < s.indexCount, sameString (s.indexes k).table name → (s.indexes k).root = .leaf []

theorem NoEntries.createIndex (noEntries : NoEntries name s) (isNew : findTable s.db name = none)
    (column indexName : Chars) : NoEntries name (fundbCreateIndex s name column indexName).1 := by
  rw [fundbCreateIndex]
  split
  · exact noEntries
  refine ⟨fun k unused => ?_, fun k inUse isTable => ?_⟩
  · have unused : s.indexCount + 1 ≤ k := unused
    dsimp only
    rw [update_of_ne (by omega)]
    exact noEntries.clean k (by omega)
  · have inUse : k < s.indexCount + 1 := inUse
    dsimp only at isTable ⊢
    by_cases here : k = s.indexCount
    · rw [here, update_self, isNew]
    · rw [update_of_ne here] at isTable ⊢
      exact noEntries.empty k (by omega) isTable

theorem NoEntries.createTable (noEntries : NoEntries name s) (isNew : findTable s.db name = none)
    (columns : Option (Nat → Column)) (colCount : Nat) :
    NoEntries name (s.createTable name columns colCount).1 := by
  rw [Indexed.createTable]
  split
  · dsimp only
    split
    · have kept := noEntries.createIndex isNew
      exact ⟨(kept _ _).clean, (kept _ _).empty⟩
    · exact ⟨noEntries.clean, noEntries.empty⟩
  · exact noEntries

/-- **A new table** for which there is no index with entries, with the recognised indexes
among those that are there, such as the one for its primary key. -/
theorem IndexesHold.ofNew (ordered : Ordered s.db) (noEntries : NoEntries name s)
    {columns : Option (Nat → Column)} {colCount : Nat}
    (ok : (s.createTable name columns colCount).2 = fundbOk)
    (tidy : Tidy s (.createTable name columns colCount))
    (column : j < newColCount s.db columns colCount)
    (recognised : ∀ k ∈ made,
      Recognised name s.db.tableCount j (s.createTable name columns colCount).1 k) :
    IndexesHold name s.db.tableCount j made (s.createTable name columns colCount).1 := by
  have isDb := (createTable_db s name columns colCount).1
  rw [(createTable_db ..).2] at ok
  have created := fundbCreateTable_created ok
  have kept := noEntries.createTable created.isNew columns colCount
  have noRows : (s.createTable name columns colCount).1.db.rows s.db.tableCount = [] := by
    rw [isDb, rows, created.refs]
    rfl
  refine ⟨?_, ?_, (step_ordered ordered tidy).sound, kept.clean, recognised, fun k member => ?_⟩
  · rw [isDb]
    exact created.found_iff.mpr (tidy (ok_of_fundbCreateTable ok) created.isNew).2
  · rw [isDb, created.colCount]
    exact column
  · obtain ⟨inUse, isTable, -⟩ := recognised k member
    rw [noRows, kept.empty k inUse isTable]
    exact HoldsValues.empty

/-- The call keeps distinct numbers in the column, and an index on the column survives it. -/
def KeepsNumbers (name : Chars) (t j : Nat) (s : Tracked) (op : IndexOp) : Prop :=
  DistinctNumbers ((trackedStep fpu name t j s op).indexed.db.rows t) j ∧
    Indexable fpu name t j s op
deriving Decidable

end Column

/-- A new table `t` with the column `id`, its primary key, and the index on it. -/
def numbersTable : Tracked where
  indexed := ((openedIndexed blankMemory).createTable (chars [116])
    (some fun _ => ⟨chars [105, 100], fundbTypeInt, 4, 0, 1, 0, 0⟩) 1).1
  made := [0]

def numberRow (n : Nat) : List Cell := [⟨fundbTypeInt, 4, some (uint32Bytes n)⟩]

/-- The text `id=` and a digit. -/
def idIs (digit : UInt8) : List UInt8 := [105, 100, 61, digit]

theorem numbersTable_indexesHold :
    IndexesHold (chars [116]) 0 0 numbersTable.made numbersTable.indexed := by
  have noEntries : NoEntries (chars [116]) (openedIndexed blankMemory) :=
    ⟨fun _ _ => ⟨rfl, rfl⟩, fun _ inUse => absurd inUse (not_lt_zero _)⟩
  exact @IndexesHold.ofNew (chars [116]) 0 _ [0] openedDatabase_ordered noEntries
    (some fun _ => ⟨chars [105, 100], fundbTypeInt, 4, 0, 1, 0, 0⟩) 1 (by decide +kernel)
    (by decide +kernel) (by decide +kernel) (by decide +kernel)

/-- Rows come before and after the index, and the other calls leave the numbers alone. -/
def indexedRows : List IndexOp :=
  [.insert (numberRow 5), .createIndex (chars [105, 100]) (chars [120]), .insert (numberRow 7),
    .update (idIs 55) (some (numberRow 7)), .delete (idIs 57), .insert (numberRow 6)]

end FunsOS.Fundb
