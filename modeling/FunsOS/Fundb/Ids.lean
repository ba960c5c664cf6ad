import FunsOS.Fundb.Shapes

/-!
# When generated ids are fresh

`fundb_insert` puts the counter `next_auto_id` of the table into every cell of an
auto-increment column that comes as NULL. The counter is 1 in a new table and goes up with
every id it gives out; `fundb_load_tables` sets it behind the largest number in the first
column that is generated or a key. A number that comes with the row is stored as it is, by
`fundb_insert`, by `fundb_update` and by `fundb_restore`, whatever the counter is, and the
counter stays.

So an id is fresh as long as all numbers in the column are below the counter, which every
write has to keep up (`generated_ids_are_fresh`).
-/

set_option autoImplicit false

namespace FunsOS.Fundb

open Foundation List Option Nat Session Database

/-! ## Numbers and counters -/

def Cell.number (cell : Cell) : Option Nat :=
  if cell.type = fundbTypeInt then cell.value.map wordOfBytes else none

def idCell (n : Nat) : Cell := ⟨fundbTypeInt, 4, some (uint32Bytes n)⟩

theorem idCell_copy {n : Nat} : (idCell n).copy = idCell n := rfl

variable {n colCount t : Nat} {row : List Cell} {db : Database} {name : Chars} {s next : Session}
  {codes : ReaddirCodes} {dir : List UInt8}

theorem idCell_number (small : n < 2 ^ 32) : (idCell n).number = some n :=
  congrArg some (wordOfBytes_uint32Bytes small)

/-- All ids below this one were given out: a counter of 0 has gone all the way round. -/
def limitOf (counter : Nat) : Nat := if counter = 0 then 2 ^ 32 else counter

/-- The next counter, as long as there are ids left. -/
theorem limitOf_next {counter : Nat} (left : limitOf counter < 2 ^ 32) :
    limitOf counter = counter ∧ limitOf ((counter + 1) % 2 ^ 32) = counter + 1 := by
  rw [limitOf] at left ⊢
  have isLeft : counter ≠ 0 := by
    rintro rfl
    exact absurd left (by decide)
  rw [if_neg isLeft] at left ⊢
  refine ⟨rfl, ?_⟩
  rw [limitOf]
  split <;> omega

def IdColumn (columns : Nat → Column) (j : Nat) : Prop :=
  (columns j).autoIncrement ≠ 0 ∧ (columns j).type = fundbTypeInt
deriving Decidable

/-! ## What INSERT generates -/

def Generates (table : Table) (row : List Cell) (i : Nat) : Prop :=
  (table.columns i).autoIncrement ≠ 0 ∧ (row.getD i nullCell).type = fundbTypeNull
deriving Decidable

/-- The number of ids INSERT generates. -/
def generated (table : Table) (row : List Cell) : Nat :=
  (range table.colCount).countP fun i => Generates table row i

/-- The loop has put ids from the counter on into some cells. -/
structure Filled (row : List Cell) (first : Nat) (acc : List Cell × Nat) : Prop where
  grows : limitOf first ≤ limitOf acc.2
  cells : ∀ i, acc.1.getD i nullCell = row.getD i nullCell ∨
    ∃ n, limitOf first ≤ n ∧ n < limitOf acc.2 ∧ n < 2 ^ 32 ∧ acc.1.getD i nullCell = idCell n

variable {table : Table} {entry : List UInt8} {memory : List UInt8 → Scratch}

/-- One column of the loop. -/
theorem Filled.column {first : Nat} {acc : List Cell × Nat} (filled : Filled row first acc)
    {i : Nat} (untouched : acc.1.getD i nullCell = row.getD i nullCell)
    (left : Generates table row i → limitOf acc.2 < 2 ^ 32) :
    Filled row first (fillAutoColumn table acc i) ∧
      limitOf (fillAutoColumn table acc i).2 =
        limitOf acc.2 + (if Generates table row i then 1 else 0) ∧
      ∀ k ≠ i, (fillAutoColumn table acc i).1.getD k nullCell = acc.1.getD k nullCell := by
  have step : fillAutoColumn table acc i = if Generates table row i then
      (acc.1.set i (idCell acc.2), (acc.2 + 1) % 2 ^ 32) else acc := by
    rw [fillAutoColumn, untouched]
    rfl
  rw [step]
  by_cases generates : Generates table row i
  · obtain ⟨isCounter, next⟩ := limitOf_next (left generates)
    have small := left generates
    have others : ∀ k ≠ i, (acc.1.set i (idCell acc.2)).getD k nullCell =
        acc.1.getD k nullCell := by
      intro k other
      rw [getD_eq_getElem?_getD, List.getElem?_set_ne (Ne.symm other), getD_eq_getElem?_getD]
    have grows := filled.grows
    rw [if_pos generates, if_pos generates]
    refine ⟨⟨?_, fun k => ?_⟩, ?_, others⟩
    · dsimp only
      omega
    · dsimp only
      by_cases here : k = i
      · subst here
        by_cases inside : k < acc.1.length
        · refine .inr ⟨acc.2, by omega, by omega, by omega, ?_⟩
          rw [getD_eq_getElem?_getD, List.getElem?_set_self inside]
          rfl
        · refine .inl ?_
          rw [set_eq_of_length_le (not_lt.mp inside)]
          exact untouched
      · rw [others k here]
        obtain same | ⟨n, low, high, word, isId⟩ := filled.cells k
        · exact .inl same
        · exact .inr ⟨n, low, by omega, word, isId⟩
    · dsimp only
      omega
  · rw [if_neg generates, if_neg generates]
    exact ⟨filled, rfl, fun _ _ => rfl⟩

/-- The loop over the first `n` columns. -/
theorem filled_columns
    (room : limitOf table.nextAutoId + (range n).countP (fun i => Generates table row i) ≤ 2 ^ 32) :
    Filled row table.nextAutoId ((range n).foldl (fillAutoColumn table) (row, table.nextAutoId)) ∧
      limitOf ((range n).foldl (fillAutoColumn table) (row, table.nextAutoId)).2 =
        limitOf table.nextAutoId + (range n).countP (fun i => Generates table row i) ∧
      ∀ i, n ≤ i → ((range n).foldl (fillAutoColumn table)
        (row, table.nextAutoId)).1.getD i nullCell = row.getD i nullCell := by
  induction n with
  | zero => exact ⟨⟨le_refl _, fun _ => .inl rfl⟩, rfl, fun _ _ => rfl⟩
  | succ n ih =>
    rw [range_succ, countP_append, countP_singleton] at room ⊢
    rw [foldl_append, foldl_cons, foldl_nil]
    obtain ⟨filled, limit, untouched⟩ := ih (by omega)
    have left : Generates table row n → limitOf ((range n).foldl (fillAutoColumn table)
        (row, table.nextAutoId)).2 < 2 ^ 32 := by
      intro generates
      simp only [generates, decide_true, if_true] at room
      omega
    -- The loop tests the cell as it came: only cells before it are filled.
    obtain ⟨next, nextLimit, others⟩ := filled.column (untouched n (le_refl _)) left
    refine ⟨next, ?_, fun i behind => ?_⟩
    · rw [nextLimit, limit]
      simp only [decide_eq_true_eq, add_assoc]
    · rw [others i (by omega)]
      exact untouched i (by omega)

/-- The numbers a cell INSERT stores can have: the one that was given, or one of the ids from
the counter on. -/
theorem insertedRow_number (room : limitOf table.nextAutoId + generated table row ≤ 2 ^ 32)
    {j : Nat} (column : j < table.colCount)
    (isNumber : ((insertedRow table row).getD j nullCell).number = some n) :
    (row.getD j nullCell).copy.number = some n ∨
      limitOf table.nextAutoId ≤ n ∧ n < limitOf (fillAutoColumns table row).2 := by
  obtain ⟨filled, -⟩ := filled_columns room
  rw [insertedRow_getD column] at isNumber
  obtain same | ⟨id, low, high, word, isId⟩ := filled.cells j
  · left
    rw [← same]
    exact isNumber
  · right
    have isIdNumber : ((fillAutoColumns table row).1.getD j nullCell).copy.number = some id := by
      rw [fillAutoColumns, isId, idCell_copy, idCell_number word]
    obtain rfl : id = n := some.inj (isIdNumber.symm.trans isNumber)
    exact ⟨low, high⟩

/-! ## Numbers below the counter -/

/-- The numbers in the columns of a table that has these rows are below the limit. -/
def RowsBelow (colCount : Nat) (columns : Nat → Column) (limit : Nat) (rows : List (List Cell)) :
    Prop :=
  ∀ j < colCount, IdColumn columns j → ∀ row ∈ rows, ∀ n ∈ (row.getD j nullCell).number, n < limit

instance (colCount : Nat) (columns : Nat → Column) (limit : Nat) (rows : List (List Cell)) :
    Decidable (RowsBelow colCount columns limit rows) := by
  delta RowsBelow
  infer_instance

variable {columns : Option (Nat → Column)} {rows : List (List Cell)} {db' : Database}
  {clause : WhereClause} {heap : Nat → Nat → Nat → Chars} {fpu : FloatUnit}

theorem RowsBelow.mono {limit larger : Nat} {columns : Nat → Column}
    (below : RowsBelow colCount columns limit rows) (grows : limit ≤ larger) :
    RowsBelow colCount columns larger rows :=
  fun j column isId row member n isNumber =>
    lt_of_lt_of_le (below j column isId row member n isNumber) grows

/-- **The numbers in every auto-increment column are below the counter of the table.** -/
structure IdsBelow (db : Database) : Prop where
  sound : Sound (RowOk fun _ => True) db
  below : ∀ t < db.tableCount,
    RowsBelow (db.tables t).colCount (db.tables t).columns (limitOf (db.tables t).nextAutoId)
      (db.rows t)

theorem fundbInsert_nextAutoId (found : findTable db name = some t)
    (room : (db.tables t).rowCount < fundbMaxRows) :
    ((fundbInsert db name row).1.tables t).nextAutoId = (fillAutoColumns (db.tables t) row).2 := by
  rw [fundbInsert, found]
  dsimp only
  rw [if_neg (not_le.mpr room)]
  split <;> simp [storeRow, setTable]

theorem fundbUpdate_nextAutoId {given : List Cell} (found : findTable db name = some t) :
    ((fundbUpdate db name clause (some given)).1.tables t).nextAutoId =
      (db.tables t).nextAutoId := by
  rw [fundbUpdate, found]
  simp [setTable, updateLoop_tables]

theorem fundbDelete_nextAutoId (found : findTable db name = some t) :
    ((fundbDelete db name clause).1.tables t).nextAutoId = (db.tables t).nextAutoId := by
  have slot : ∀ (acc : Database × Nat) i,
      ((deleteSlot t name clause acc i).1.tables t).nextAutoId = (acc.1.tables t).nextAutoId := by
    intro acc i
    rw [deleteSlot]
    split
    · simp [setTable, Table.removeRow]
    · rfl
  have loop := foldl_invariant
    (P := fun acc : Database × Nat => (acc.1.tables t).nextAutoId = (db.tables t).nextAutoId)
    (s := (db, 0)) (fun acc i same => (slot acc i).trans same) rfl (range (db.tables t).rowCount).reverse
  rw [fundbDelete, found]
  dsimp only
  split
  · simpa [setTable] using loop
  · exact loop

theorem IdsBelow.opened {memory : Nat → Nat → WalEntry} : IdsBelow (openedDatabase memory) :=
  ⟨openedDatabase_ordered.sound, fun _ inUse => absurd inUse (not_lt_zero _)⟩

section

variable (ids : IdsBelow db)
include ids

/-- The numbers are below the counters again when those of table `t` are. -/
theorem IdsBelow.elsewhere {place : Nat → Nat} (elsewhere : Elsewhere t place db db')
    (sound : Sound (RowOk fun _ => True) db')
    (below : t < db'.tableCount → RowsBelow (db'.tables t).colCount (db'.tables t).columns
      (limitOf (db'.tables t).nextAutoId) (db'.rows t)) : IdsBelow db' := by
  refine ⟨sound, fun u used => ?_⟩
  by_cases here : u = t
  · subst here
    exact below used
  · rw [elsewhere.tables u used here, elsewhere.rows_eq used here]
    exact ids.below _ (elsewhere.inUse u used here)

theorem IdsBelow.newRows (new : NewRows (RowOk fun _ => True) t rows db db') (inUse : t < db.tableCount)
    (below : RowsBelow (db.tables t).colCount (db.tables t).columns
      (limitOf (db'.tables t).nextAutoId) rows) : IdsBelow db' := by
  refine ids.elsewhere (new.only.elsewhere ids.sound inUse) new.sound fun _ => ?_
  rw [new.rows, new.colCount, new.columns]
  exact below

/-! ## INSERT -/

/-- The numbers that come with the row are below the counter, and there are ids left for the
cells that come as NULL. -/
def InsertsBelow (db : Database) (name : Chars) (row : List Cell) : Prop :=
  ∀ t ∈ findTable db name, (db.tables t).rowCount < fundbMaxRows →
    limitOf (db.tables t).nextAutoId + generated (db.tables t) row ≤ 2 ^ 32 ∧
      ∀ j < (db.tables t).colCount, IdColumn (db.tables t).columns j →
        ∀ n ∈ (row.getD j nullCell).copy.number, n < limitOf (db.tables t).nextAutoId

instance (db : Database) (name : Chars) (row : List Cell) : Decidable (InsertsBelow db name row) := by
  delta InsertsBelow
  infer_instance

/-- **INSERT keeps the numbers below the counter.** -/
theorem IdsBelow.insert (inserts : InsertsBelow db name row) :
    IdsBelow (fundbInsert db name row).1 := by
  by_cases ok : (fundbInsert db name row).2 = fundbOk
  · obtain ⟨t, found, room⟩ := fundbInsert_stores ok
    obtain ⟨left, given⟩ := inserts t found room
    obtain ⟨filled, -⟩ := filled_columns left
    have new := (@newRows_fundbInsert _ _ _ _ ids.sound found row room fun _ _ => trivial).1
    refine ids.newRows new (findTable_lt found) ?_
    rw [fundbInsert_nextAutoId found room]
    intro j column isId stored member n isNumber
    obtain old | isNew := mem_append.mp member
    · exact (ids.below t (findTable_lt found)).mono filled.grows j column isId stored old n isNumber
    · rw [mem_singleton.mp isNew] at isNumber
      obtain isGiven | ⟨-, high⟩ := insertedRow_number left column isNumber
      · exact lt_of_lt_of_le (given j column isId n isGiven) filled.grows
      · exact high
  · rw [fundbInsert_refused ok]
    exact ids

/-- **The generated ids differ from the numbers in the table.** -/
def FreshIds (db : Database) (name : Chars) (row : List Cell) : Prop :=
  ∀ t ∈ findTable db name, (fundbInsert db name row).2 = fundbOk →
    ∀ j < (db.tables t).colCount, IdColumn (db.tables t).columns j →
      (row.getD j nullCell).type = fundbTypeNull →
      ∀ n ∈ ((((fundbInsert db name row).1.rows t).getD (db.tables t).rowCount []).getD j
        nullCell).number, ∀ stored ∈ db.rows t, (stored.getD j nullCell).number ≠ some n

instance (db : Database) (name : Chars) (row : List Cell) : Decidable (FreshIds db name row) :=
  inferInstanceAs (Decidable (∀ t ∈ findTable db name, _ → ∀ j < (db.tables t).colCount, _ → _ →
    ∀ n ∈ ((((fundbInsert db name row).1.rows t).getD (db.tables t).rowCount []).getD j
      nullCell).number, ∀ stored ∈ db.rows t, _))

/-- **INSERT generates fresh ids** when the numbers are below the counter. -/
theorem IdsBelow.fresh (inserts : InsertsBelow db name row) : FreshIds db name row := by
  intro t found ok j column isId isNull n isNumber stored member same
  obtain ⟨u, isTable, room⟩ := fundbInsert_stores ok
  obtain rfl : t = u := some.inj (found.symm.trans isTable)
  obtain ⟨left, -⟩ := inserts t found room
  have new := (@newRows_fundbInsert _ _ _ _ ids.sound found row room fun _ _ => trivial).1
  have last : ((fundbInsert db name row).1.rows t).getD (db.tables t).rowCount [] =
      insertedRow (db.tables t) row := by
    rw [new.rows, ← length_rows db t, getD_eq_getElem?_getD, List.getElem?_concat_length]
    rfl
  rw [last] at isNumber
  obtain isGiven | ⟨low, -⟩ := insertedRow_number left column isNumber
  · rw [Cell.number, show (row.getD j nullCell).copy.type = _ from isNull] at isGiven
    cases isGiven
  · have isBelow := ids.below t (findTable_lt found) j column isId stored member n same
    omega

/-! ## UPDATE and DELETE -/

/-- The numbers that go into selected rows are below the counter. -/
def UpdatesBelow (db : Database) (name : Chars) (clause : WhereClause) (row : Option (List Cell)) :
    Prop :=
  ∀ t ∈ findTable db name, ∀ given ∈ row,
    (∃ stored ∈ db.rows t, clause (db.tables t) stored) →
      ∀ j < (db.tables t).colCount, IdColumn (db.tables t).columns j →
        ∀ n ∈ (given.getD j nullCell).copy.number, n < limitOf (db.tables t).nextAutoId

instance (db : Database) (name : Chars) (clause : WhereClause) (row : Option (List Cell)) :
    Decidable (UpdatesBelow db name clause row) := by
  delta UpdatesBelow
  infer_instance

/-- **UPDATE keeps the numbers below the counter.** -/
theorem IdsBelow.update {row : Option (List Cell)} (updates : UpdatesBelow db name clause row) :
    IdsBelow (fundbUpdate db name clause row).1 := by
  cases found : findTable db name with
  | none =>
    rw [fundbUpdate, found]
    exact ids
  | some t =>
    cases row with
    | none =>
      rw [fundbUpdate, found]
      exact ids
    | some given =>
      have new := (@newRows_fundbUpdate _ _ _ _ ids.sound found clause given fun _ _ _ => trivial).1
      refine ids.newRows new (findTable_lt found) ?_
      rw [fundbUpdate_nextAutoId found]
      intro j column isId changed member n isNumber
      obtain ⟨stored, isStored, rfl⟩ := mem_map.mp member
      have old := ids.below t (findTable_lt found) j column isId stored isStored n
      rw [updatedRow] at isNumber
      split at isNumber
      case isFalse => exact old isNumber
      case isTrue selected =>
        obtain same | ⟨-, isGiven⟩ := updateCells_getD
        · rw [same] at isNumber
          exact old isNumber
        · rw [isGiven] at isNumber
          exact updates t found given rfl ⟨stored, isStored, selected⟩ j column isId n isNumber

/-- **DELETE keeps the numbers below the counter.** -/
theorem IdsBelow.delete (columnsOnly : ColumnsOnly clause) :
    IdsBelow (fundbDelete db name clause).1 := by
  cases found : findTable db name with
  | none =>
    rw [fundbDelete, found]
    exact ids
  | some t =>
    have new := (newRows_fundbDelete ids.sound found columnsOnly).1
    refine ids.newRows new (findTable_lt found) ?_
    rw [fundbDelete_nextAutoId found]
    intro j column isId stored member
    exact ids.below t (findTable_lt found) j column isId stored (mem_of_mem_filter member)

/-! ## New tables and loaded tables -/

/-- **A new table has no numbers.** -/
theorem IdsBelow.create (ok : (fundbCreateTable db name columns colCount).2 = fundbOk) :
    IdsBelow (fundbCreateTable db name columns colCount).1 := by
  have created := fundbCreateTable_created ok
  refine ids.elsewhere (created.more.elsewhere ids.sound) (created.sound ids.sound) fun _ => ?_
  rw [rows, created.refs]
  exact fun _ _ _ _ member => absurd member not_mem_nil

/-- What was read fits the row array, and the first column that is generated or a key has the
largest number. -/
def TableData.NumbersBelow (data : TableData) : Prop :=
  data.rowCount ≤ fundbMaxRows ∧
    RowsBelow data.colCount data.columns (limitOf (loadedAutoId data)) data.rows
deriving Decidable

def LoadsBelow (s : Session) (heap : Nat → Nat → Nat → Chars) (entry : List UInt8) : Prop :=
  ∀ k < fundbMaxTables, ∀ file ∈ tablePath s.path (chars (entryName entry)),
    ∀ bytes ∈ s.files file, ∀ read ∈ (fundbReadTable (heap k) zeroData).run bytes,
      read.1.NumbersBelow

instance (s : Session) (heap : Nat → Nat → Nat → Chars) (entry : List UInt8) :
    Decidable (LoadsBelow s heap entry) := by
  delta LoadsBelow
  infer_instance

/-- A slot that is not counted does not matter. -/
theorem IdsBelow.unusedSlot : IdsBelow (db.setTable db.tableCount table) := by
  have elsewhere : Elsewhere db.tableCount id db (db.setTable db.tableCount table) :=
    elsewhere_of_tables rfl (fun t inUse => Function.update_of_ne (Nat.ne_of_lt inUse) _ _) rfl rfl
  have unused := lt_irrefl db.tableCount
  exact ids.elsewhere elsewhere (elsewhere.sound_of_unused ids.sound unused) (absurd · unused)

theorem IdsBelow.loadTable {next : Database} (loads : LoadsBelow s heap entry)
    (room : db.tableCount < fundbMaxTables)
    (loaded : loadTable s.path s.files heap db entry = some next) : IdsBelow next := by
  obtain ⟨file, isFile, loaded⟩ := bind_eq_some_iff.mp loaded
  cases isBytes : s.files file with
  | none =>
    rw [isBytes] at loaded
    obtain rfl := some.inj loaded
    exact ids.unusedSlot
  | some bytes =>
    rw [isBytes] at loaded
    obtain ⟨read, isRead, isNext⟩ := bind_eq_some_iff.mp loaded
    obtain rfl := some.inj isNext
    obtain ⟨few, below⟩ := loads db.tableCount room file isFile bytes isBytes read isRead
    have width : ∀ row ∈ read.1.rows, RowOk (fun _ => True) read.1.colCount row := by
      intro row member
      obtain ⟨i, -, rfl⟩ := mem_map.mp member
      exact ⟨by rw [length_map, length_range], fun _ _ => trivial⟩
    refine ids.elsewhere ((oneMore_addTable _ _ _).elsewhere ids.sound)
      (sound_addTable _ _ few ids.sound width) fun _ => ?_
    rw [rows_addTable _ _ few, addTable_tables]
    exact below

end

theorem IdsBelow.createTable (ids : IdsBelow s.db) {name : List UInt8}
    (stepped : s.createTable name columns colCount = some next) : IdsBelow next.db := by
  rw [Session.createTable] at stepped
  split at stepped
  · rename_i ok
    have below := ids.create ok
    have inUse : s.db.tableCount <
        (fundbCreateTable s.db (chars name) columns colCount).1.tableCount := by
      rw [(fundbCreateTable_created ok).more.tableCount]
      exact lt_succ_self _
    obtain ⟨file, -, rfl⟩ := map_eq_some_iff.mp stepped
    refine below.newRows (NewRows.setDirty below.sound inUse false) inUse ?_
    have kept := below.below _ inUse
    simpa [setTable] using kept
  · rename_i refused
    obtain rfl := some.inj stepped
    rw [fundbCreateTable_refused refused]
    exact ids

theorem IdsBelow.loadLoop {entries : List (List UInt8)}
    (loads : codes.withEntry = 0 → ∀ entry ∈ entries, tableEntry entry →
      LoadsBelow s heap entry) {next : Database} (ids : IdsBelow db)
    (loaded : loadLoop codes (Fundb.loadTable s.path s.files heap) entries db = some next) :
    IdsBelow next := by
  induction entries generalizing db with
  | nil =>
    rw [Fundb.loadLoop] at loaded
    split at loaded
    · cases loaded
    · cases loaded
      exact ids
  | cons entry entries ih =>
    have later : codes.withEntry = 0 → ∀ entry ∈ entries, tableEntry entry →
        LoadsBelow s heap entry :=
      fun goesOn other member => loads goesOn other (mem_cons_of_mem _ member)
    rw [Fundb.loadLoop] at loaded
    split at loaded
    case isFalse =>
      cases loaded
      exact ids
    case isTrue goesOn =>
      split at loaded
      case isFalse => exact ih later ids loaded
      case isTrue isTable =>
        split at loaded
        case isTrue =>
          cases loaded
          exact ids
        case isFalse room =>
          obtain ⟨after, isAfter, behind⟩ := bind_eq_some_iff.mp loaded
          refine ih later (ids.loadTable ?_ (not_le.mp room) isAfter) behind
          exact loads goesOn entry mem_cons_self isTable

/-! ## Restoring -/

/-- Every INSERT that `fundb_restore` makes for an entry has the property. -/
def EntryInserts (Q : Database → Chars → List Cell → Prop) (dir : List UInt8)
    (memory : List UInt8 → Scratch) (s : Session) (entry : List UInt8) : Prop :=
  tableEntry entry → ∀ read ∈ s.restoreRead dir memory entry,
    Meets (insertRow (entryName entry))
      (fun db row => Q db (chars (entryName entry)) row) read.1.db read.2

instance (Q : Database → Chars → List Cell → Prop) [∀ db name row, Decidable (Q db name row)]
    (dir : List UInt8) (memory : List UInt8 → Scratch) (s : Session) (entry : List UInt8) :
    Decidable (EntryInserts Q dir memory s entry) := by
  delta EntryInserts
  infer_instance

theorem IdsBelow.restoreRead (ids : IdsBelow s.db) {read : Session × List (List Cell)}
    (isRead : s.restoreRead dir memory entry = some read) : IdsBelow read.1.db := by
  rw [Session.restoreRead] at isRead
  split at isRead
  · cases isRead
    exact ids
  · obtain ⟨header, -, isRead⟩ := bind_eq_some_iff.mp isRead
    obtain ⟨made, isMade, isRead⟩ := bind_eq_some_iff.mp isRead
    have below : IdsBelow made.db := by
      rw [restoreTable] at isMade
      split at isMade
      · cases isMade
        exact ids
      · exact ids.createTable isMade
    split at isRead
    · cases isRead
      exact below
    · obtain ⟨rows, -, isRead⟩ := bind_eq_some_iff.mp isRead
      cases isRead
      exact below

section

variable (ids : IdsBelow s.db) (inserts : EntryInserts InsertsBelow dir memory s entry)
include ids inserts

theorem IdsBelow.restoreEntry
    (stepped : restoreEntry dir memory s entry = some next) : IdsBelow next.db := by
  rw [Session.restoreEntry] at stepped
  split at stepped
  · rename_i isTable
    obtain ⟨read, isRead, rfl⟩ := map_eq_some_iff.mp stepped
    exact (inserts isTable read isRead).invariant (fun _ _ below => below.insert)
      (ids.restoreRead isRead)
  · cases stepped
    exact ids

theorem IdsBelow.entryFresh : EntryInserts FreshIds dir memory s entry := by
  intro isTable read isRead
  exact (inserts isTable read isRead).of_invariant (fun _ _ below => below.insert)
    (fun _ _ below => below.fresh) (ids.restoreRead isRead)

end

/-! ## Runs -/

/-- The calls, and closing and opening again. -/
inductive IdOp where
  | create (name : List UInt8) (columns : Option (Nat → Column)) (colCount : Nat)
  | insert (name : List UInt8) (row : List Cell)
  | update (name whereText : List UInt8) (row : Option (List Cell))
  | delete (name whereText : List UInt8)
  | backup (dir : List UInt8)
  | restore (dir : List UInt8) (memory : List UInt8 → Scratch) (entries : List (List UInt8))
  | reopen (entries : List (List UInt8)) (heap : Nat → Nat → Nat → Chars)
      (memory : Nat → Nat → WalEntry)

def Session.idStep (fpu : FloatUnit) (codes : ReaddirCodes) (s : Session) : IdOp → Option Session
  | .create name columns colCount => s.createTable name columns colCount
  | .insert name row => some { s with db := (fundbInsert s.db (chars name) row).1 }
  | .update name whereText row =>
    some { s with db := (fundbUpdate s.db (chars name) (evaluateWhere fpu whereText) row).1 }
  | .delete name whereText =>
    some { s with db := (fundbDelete s.db (chars name) (evaluateWhere fpu whereText)).1 }
  | .backup dir => some (s.backup dir)
  | .restore dir memory entries => s.restore codes dir memory entries
  | .reopen entries heap memory =>
    s.close.bind fun closed => closed.reopen codes entries heap memory

/-- Every INSERT that the call makes has the property. -/
def EachInsert (Q : Database → Chars → List Cell → Prop) (codes : ReaddirCodes) (s : Session) :
    IdOp → Prop
  | .insert name row => Q s.db (chars name) row
  | .restore dir memory entries =>
    codes.withEntry = 0 →
      MeetsPartial (restoreEntry dir memory) (EntryInserts Q dir memory) s entries
  | _ => True

/-- The call writes only numbers below the counter, and a database is closed and opened again
only when its files have their largest numbers in the first column that is generated or a
key. -/
def WritesBelow (fpu : FloatUnit) (codes : ReaddirCodes) (s : Session) : IdOp → Prop
  | .update name whereText row =>
    UpdatesBelow s.db (chars name) (evaluateWhere fpu whereText) row
  | .reopen entries heap _ =>
    ∀ closed ∈ s.close, codes.withEntry = 0 → ∀ entry ∈ entries, tableEntry entry →
      LoadsBelow closed heap entry
  | op => EachInsert InsertsBelow codes s op

instance (Q : Database → Chars → List Cell → Prop) [∀ db name row, Decidable (Q db name row)]
    (codes : ReaddirCodes) (s : Session) : (op : IdOp) → Decidable (EachInsert Q codes s op)
  | .insert name row => inferInstanceAs (Decidable (Q s.db (chars name) row))
  | .restore dir memory entries =>
    inferInstanceAs (Decidable (_ → MeetsPartial (restoreEntry dir memory)
      (EntryInserts Q dir memory) s entries))
  | .create _ _ _ | .update _ _ _ | .delete _ _ | .backup _ | .reopen _ _ _ =>
    inferInstanceAs (Decidable True)

instance (fpu : FloatUnit) (codes : ReaddirCodes) (s : Session) :
    (op : IdOp) → Decidable (WritesBelow fpu codes s op)
  | .update _ _ _ => inferInstanceAs (Decidable (UpdatesBelow _ _ _ _))
  | .reopen entries _ _ =>
    inferInstanceAs (Decidable (∀ closed ∈ s.close, _ → ∀ entry ∈ entries, _ → _))
  | .create _ _ _ | .delete _ _ | .backup _ => inferInstanceAs (Decidable True)
  | .insert _ _ => inferInstanceAs (Decidable (InsertsBelow _ _ _))
  | .restore dir memory entries =>
    inferInstanceAs (Decidable (EachInsert InsertsBelow codes s (.restore dir memory entries)))

/-- **A call keeps the numbers below the counters.** -/
theorem IdsBelow.step (ids : IdsBelow s.db) {op : IdOp} (writes : WritesBelow fpu codes s op)
    (stepped : s.idStep fpu codes op = some next) : IdsBelow next.db := by
  cases op with
  | create name columns colCount => exact ids.createTable stepped
  | insert name row =>
    cases stepped
    exact ids.insert writes
  | update name whereText row =>
    cases stepped
    exact ids.update writes
  | delete name whereText =>
    cases stepped
    exact ids.delete (columnsOnly_evaluateWhere fpu whereText)
  | backup dir =>
    cases stepped
    exact ids
  | restore dir memory entries =>
    rw [idStep, restore] at stepped
    split at stepped
    case isTrue =>
      cases stepped
      exact ids
    case isFalse goesOn =>
      split at stepped
      case isTrue => cases stepped
      case isFalse =>
        by_cases none : entries = []
        · subst none
          cases stepped
          exact ids
        · have isEntry : codes.withEntry = 0 := by
            by_contra other
            exact goesOn ⟨none, other⟩
          exact (writes isEntry).invariant_of_some (P := fun s => IdsBelow s.db)
            (fun _ _ _ below inserts => below.restoreEntry inserts) ids stepped
  | reopen entries heap memory =>
    -- Nothing is left of the tables that were open: all comes from the files.
    obtain ⟨closed, isClosed, opened⟩ := bind_eq_some_iff.mp stepped
    obtain ⟨db, loaded, rfl⟩ := map_eq_some_iff.mp opened
    exact IdsBelow.opened.loadLoop (writes closed isClosed) loaded

theorem IdsBelow.eachFresh (ids : IdsBelow s.db) {op : IdOp} (writes : WritesBelow fpu codes s op) :
    EachInsert FreshIds codes s op := by
  cases op with
  | insert name row => exact ids.fresh writes
  | restore dir memory entries =>
    intro isEntry
    exact (writes isEntry).of_invariant (P := fun s => IdsBelow s.db)
      (fun _ _ _ below inserts => below.restoreEntry inserts)
      (fun _ _ below => below.entryFresh) ids
  | create | update | delete | backup | reopen => exact trivial

/-- **Generated ids are fresh** in every run whose calls write numbers below the counters. -/
theorem generated_ids_are_fresh (fpu : FloatUnit) (codes : ReaddirCodes) (path : List UInt8)
    (files : Files) (memory : Nat → Nat → WalEntry) {ops : List IdOp}
    (meets : MeetsPartial (idStep fpu codes) (WritesBelow fpu codes)
      (opened path files memory) ops) :
    MeetsPartial (idStep fpu codes) (EachInsert FreshIds codes) (opened path files memory) ops :=
  meets.of_invariant (P := fun s => IdsBelow s.db)
    (fun _ _ _ ids writes stepped => ids.step writes stepped)
    (fun _ _ ids writes => ids.eachFresh writes) IdsBelow.opened

def emptySession : Session := opened [100] (fun _ => none) blankMemory

/-- A table `t` with the generated key `id`. -/
def keyedTable : IdOp :=
  .create [116] (some fun _ => ⟨chars [105, 100], fundbTypeInt, 4, 0, 1, 1, 0⟩) 1

/-- Two ids are backed up, one of them is deleted and comes back, and the next two ids come
before and after the table went through its file. -/
def backedUpIds : List IdOp :=
  [keyedTable, .insert [116] [nullCell], .insert [116] [nullCell], .backup [98],
    .delete [116] [105, 100, 61, 50],
    .restore [98] (fun _ => ⟨fun _ => zeroColumn, fun _ _ _ => 0⟩) [[116] ++ tblSuffix],
    .insert [116] [nullCell], .update [116] [105, 100, 61, 50] (some [idCell 0]),
    .reopen [[116] ++ tblSuffix] (fun _ _ _ _ => 0) blankMemory, .insert [116] [nullCell]]

theorem backedUpIds_fresh :
    MeetsPartial (idStep noFloats ⟨0, -1⟩) (EachInsert FreshIds ⟨0, -1⟩) emptySession backedUpIds :=
  generated_ids_are_fresh noFloats ⟨0, -1⟩ [100] (fun _ => none) blankMemory (by decide +kernel)

/-- The id 1 that came with the first row is generated for the second. -/
theorem given_id_is_generated :
    ¬MeetsPartial (idStep noFloats ⟨0, -1⟩) (EachInsert FreshIds ⟨0, -1⟩) emptySession
        [keyedTable, .insert [116] [idCell 1], .insert [116] [nullCell]] ∧
      (runPartial (idStep noFloats ⟨0, -1⟩) emptySession
        [keyedTable, .insert [116] [idCell 1], .insert [116] [nullCell]]).map
          (fun s => (s.db.rows 0).map fun row => (row.getD 0 nullCell).number) =
        some [some 1, some 1] := by
  decide +kernel

end FunsOS.Fundb
