import FunsOS.Foundation.Runs
import FunsOS.Fundb.Store

/-!
# What a rollback restores

`fundb_rollback` walks the log from its newest entry to its oldest. Undoing an
insert is exact: the row was the last one of its table, its slot is closed again
and its arrays, which no other slot shares, are freed. The two other entries are
not undone. A rolled-back delete counts one row more without putting the row
back, and a rolled-back update leaves the row in freed arrays. An insert is also
lost when the name in its log entry no longer names the table, because the bytes
of an older, longer name follow it.

So a rollback restores every table when no update or delete of the transaction
selects a row and every logged name still names its table
(`rollback_restores_rows`). One delete of one row among two is enough to break
it (`rollback_loses_deleted_row`).
-/

set_option autoImplicit false

namespace FunsOS.Fundb

open Foundation List Nat Database Table
open Function (update update_apply update_of_ne update_self)

/-! ## Transactions and their condition -/

/-- The calls a transaction is made of. -/
inductive TxnOp where
  | insert (name : Chars) (row : List Cell)
  | update (name : Chars) (clause : WhereClause) (row : Option (List Cell))
  | delete (name : Chars) (clause : WhereClause)

variable (db : Database)

def txnStep : TxnOp → Database
  | .insert name row => (fundbInsert db name row).1
  | .update name clause row => (fundbUpdate db name clause row).1
  | .delete name clause => (fundbDelete db name clause).1

/-- The name the next log entry holds after `name` was copied into it. -/
def loggedName (name : Chars) : Chars :=
  copyName ((walExtend db).wal db.walCount).table name

def SelectsNothing (name : Chars) (clause : WhereClause) : Prop :=
  ∀ t, findTable db name = some t → ∀ i < (db.tables t).rowCount, selects db t clause i = false

/-- The calls that a rollback undoes: an insert whose log entry names its table,
an update or a delete that selects no row. -/
def Undoable : TxnOp → Prop
  | .insert name _ => ∀ t, findTable db name = some t → (db.tables t).rowCount < fundbMaxRows →
      findTable db (loggedName db name) = some t
  | .update name clause _ => SelectsNothing db name clause
  | .delete name clause => SelectsNothing db name clause

/-- Two databases hold the same tables with the same rows, cell for cell. -/
def SameRows (db db' : Database) : Prop :=
  db'.tableCount = db.tableCount ∧ ∀ t < db.tableCount,
    (db'.tables t).name = (db.tables t).name ∧ db'.tableRows t = db.tableRows t

/-! ## States of the public interface -/

/-- The calls of the public interface that change tables or the log. -/
inductive ApiOp where
  | createTable (name : Chars) (columns : Option (Nat → Column)) (colCount : Nat)
  | dropTable (name : Chars)
  | alterTable (name : Chars) (columns : Nat → Column) (colCount : Nat)
  | data (op : TxnOp)
  | begin
  | commit (written : Nat → Bool)
  | rollback

def apiStep : ApiOp → Database
  | .createTable name columns colCount => (fundbCreateTable db name columns colCount).1
  | .dropTable name => (fundbDropTable db name).1
  | .alterTable name columns colCount => (fundbAlterTable db name columns colCount).1
  | .data op => txnStep db op
  | .begin => fundbBegin db
  | .commit written => fundbCommit db written
  | .rollback => fundbRollback db

/-- Every slot, in use or left behind, holds a reference that was given out. -/
def StoreOk : Prop := ∀ t i, (db.tables t).rows i < db.nextRow

/-- A database as `fundb_open` returns it: some tables read from disk, an empty
log whose buffer holds anything, no transaction. -/
structure Opened (db : Database) : Prop where
  store : StoreOk db
  log : db.walCount = 0
  idle : db.inTransaction = false

/-- The states the public interface reaches from an opened database. -/
def Reachable : Prop :=
  ∃ start ops, Opened start ∧ db = foldl apiStep start ops

/-! ## References stay below the next one -/

variable {db db' : Database} {name : Chars} {table : Table}
  {entry : WalEntry} {row : List Cell} {clause : WhereClause} {operation : WalOperation}
  {rowIndex colCount t index i : Nat} {oldData : Option (List Cell)} {op : TxnOp}

theorem removeRow_rows : ∃ i', (table.removeRow index).rows i = table.rows i' := by
  by_cases moved : index ≤ i ∧ i < table.rowCount - 1
  · exact ⟨i + 1, by simp only [removeRow, if_pos moved]⟩
  · exact ⟨i, by simp only [removeRow, if_neg moved]⟩

/-- The extension changes nothing but the log. -/
@[simp] theorem walExtend_frame : (walExtend db).tables = db.tables ∧
    (walExtend db).tableCount = db.tableCount ∧ (walExtend db).nextRow = db.nextRow ∧
    (walExtend db).rowStore = db.rowStore ∧ (walExtend db).walCount = db.walCount ∧
    (walExtend db).inTransaction = db.inTransaction := by
  unfold walExtend; split <;> simp

/-- An extension keeps the entries in use. -/
theorem walExtend_wal {k : Nat} (used : k < db.walCount) : (walExtend db).wal k = db.wal k := by
  unfold walExtend
  split
  · simp [used]
  · rfl

section

variable (ok : StoreOk db)
include ok

theorem StoreOk.of_rows (next : db.nextRow ≤ db'.nextRow)
    (rows : ∀ t i, ∃ t' i', (db'.tables t).rows i = (db.tables t').rows i') : StoreOk db' := by
  intro t i
  obtain ⟨t', i', same⟩ := rows t i
  rw [same]
  exact lt_of_lt_of_le (ok t' i') next

theorem StoreOk.of_tables_eq (next : db'.nextRow = db.nextRow) (tables : db'.tables = db.tables) :
    StoreOk db' :=
  ok.of_rows (le_of_eq next.symm) fun t i => ⟨t, i, by rw [tables]⟩

/-- Replacing a table by one whose slots hold slots of the old one. -/
theorem StoreOk.setTable (rows : ∀ i, ∃ i', table.rows i = (db.tables t).rows i') :
    StoreOk (db.setTable t table) := by
  refine ok.of_rows (le_refl _) fun t' i => ?_
  by_cases here : t' = t
  · subst here
    obtain ⟨i', same⟩ := rows i
    exact ⟨t', i', by simpa [Database.setTable] using same⟩
  · exact ⟨t', i, by simp [Database.setTable, here]⟩

theorem StoreOk.walAppend : StoreOk (walAppend db operation name rowIndex oldData colCount) :=
  ok.of_tables_eq (by simp) (by simp)

theorem StoreOk.freeRow {ref : RowRef} : StoreOk (db.freeRow ref) :=
  ok.of_tables_eq rfl rfl

theorem StoreOk.storeRow : StoreOk (storeRow db t row) := by
  intro t' i
  show ((update db.tables t _ t').rows i) < db.nextRow + 1
  by_cases here : t' = t
  · subst here
    rw [update_self]
    by_cases slot : i = (db.tables t').rowCount
    · subst slot
      simp
    · simp only [update_of_ne slot]
      exact lt_succ_of_lt (ok t' i)
  · rw [update_of_ne here]
    exact lt_succ_of_lt (ok t' i)

theorem StoreOk.updateSlot {n : Nat} : StoreOk (updateSlot t name clause row (db, n) i).1 := by
  unfold Fundb.updateSlot
  dsimp only
  split
  · split
    · exact ok.of_tables_eq (by simp) (by simp)
    · exact ok.of_tables_eq rfl rfl
  · exact ok

theorem StoreOk.deleteSlot {n : Nat} : StoreOk (deleteSlot t name clause (db, n) i).1 := by
  unfold Fundb.deleteSlot
  dsimp only
  split
  · split
    · exact ok.walAppend.freeRow.setTable fun k => by
        simpa [Database.freeRow] using removeRow_rows
    · exact ok.freeRow.setTable fun k => removeRow_rows
  · exact ok

theorem StoreOk.undoEntry : StoreOk (undoEntry db entry) := by
  unfold Fundb.undoEntry
  split
  · exact ok
  · dsimp only
    split
    · split
      · exact ok.freeRow.setTable fun k => removeRow_rows
      · exact ok
    · split
      · exact ok.freeRow
      · exact ok
    · exact ok.setTable fun i => ⟨i, rfl⟩

theorem StoreOk.fundbInsert : StoreOk (fundbInsert db name row).1 := by
  unfold Fundb.fundbInsert
  split
  · exact ok
  · split
    · exact ok
    · split
      · exact ok.walAppend.storeRow
      · exact ok.storeRow

theorem StoreOk.fundbUpdate {row : Option (List Cell)} :
    StoreOk (fundbUpdate db name clause row).1 := by
  unfold Fundb.fundbUpdate
  split
  · exact ok
  · split
    · exact ok
    · refine StoreOk.setTable ?_ fun i => ⟨i, rfl⟩
      exact foldl_invariant (P := fun acc : Database × Nat => StoreOk acc.1)
        (fun _ _ accOk => accOk.updateSlot) ok _

theorem StoreOk.fundbDelete : StoreOk (fundbDelete db name clause).1 := by
  unfold Fundb.fundbDelete
  split
  · exact ok
  · rename_i t _
    have kept := foldl_invariant (P := fun acc : Database × Nat => StoreOk acc.1)
      (f := Fundb.deleteSlot t name clause) (fun _ _ accOk => accOk.deleteSlot)
      (s := (db, 0)) ok (range (db.tables t).rowCount).reverse
    dsimp only
    split
    · exact kept.setTable fun i => ⟨i, rfl⟩
    · exact kept

theorem StoreOk.txnStep : StoreOk (txnStep db op) := by
  cases op with
  | insert => exact ok.fundbInsert
  | update => exact ok.fundbUpdate
  | delete => exact ok.fundbDelete

theorem StoreOk.fundbCreateTable {columns : Option (Nat → Column)} :
    StoreOk (fundbCreateTable db name columns colCount).1 := by
  unfold Fundb.fundbCreateTable
  split
  · exact ok
  · split
    · exact ok
    · refine StoreOk.of_tables_eq (ok.setTable fun i => ⟨i, ?_⟩) rfl rfl
      cases columns with
      | none => rfl
      | some given => dsimp only; split <;> rfl

theorem StoreOk.fundbDropTable : StoreOk (fundbDropTable db name).1 := by
  unfold Fundb.fundbDropTable
  split
  · exact ok
  · rename_i t _
    have next : ((range (db.tables t).rowCount).foldl
        (fun acc i => acc.freeRow ((db.tables t).rows i)) db).nextRow = db.nextRow :=
      foldl_invariant (P := fun acc : Database => acc.nextRow = db.nextRow)
        (f := fun acc i => acc.freeRow ((db.tables t).rows i))
        (fun _ _ same => same) rfl _
    refine ok.of_rows (le_of_eq next.symm) fun t' i => ?_
    by_cases moved : t ≤ t' ∧ t' < db.tableCount - 1
    · exact ⟨t' + 1, i, by simp only [if_pos moved]⟩
    · exact ⟨t', i, by simp only [if_neg moved]⟩

theorem StoreOk.fundbAlterTable {columns : Nat → Column} :
    StoreOk (fundbAlterTable db name columns colCount).1 := by
  unfold Fundb.fundbAlterTable
  split
  · exact ok
  · exact ok.setTable fun i => ⟨i, rfl⟩

theorem StoreOk.fundbCommit {written : Nat → Bool} : StoreOk (fundbCommit db written) := by
  refine ok.of_rows (le_refl _) fun t i => ⟨t, i, ?_⟩
  simp only [Fundb.fundbCommit, walClear]
  split <;> rfl

theorem StoreOk.fundbRollback : StoreOk (fundbRollback db) :=
  (foldl_invariant (P := StoreOk) (fun _ _ accOk => accOk.undoEntry) ok
    db.log.reverse).of_tables_eq rfl rfl

theorem StoreOk.apiStep {op : ApiOp} : StoreOk (apiStep db op) := by
  cases op with
  | createTable => exact ok.fundbCreateTable
  | dropTable => exact ok.fundbDropTable
  | alterTable => exact ok.fundbAlterTable
  | data => exact ok.txnStep
  | begin => exact ok.of_tables_eq rfl rfl
  | commit => exact ok.fundbCommit
  | rollback => exact ok.fundbRollback

end

theorem Reachable.storeOk (reachable : Reachable db) : StoreOk db := by
  obtain ⟨start, ops, opened, rfl⟩ := reachable
  exact foldl_invariant (fun _ op ok => ok.apiStep) opened.store ops

/-! ## Undoing an insert -/

/-- Two databases show a reader the same tables: the same names and counts, the
same references in the slots in use and the same cells behind them. -/
structure SameTables (db db' : Database) : Prop where
  tableCount : db'.tableCount = db.tableCount
  name : ∀ t, (db'.tables t).name = (db.tables t).name
  rowCount : ∀ t, (db'.tables t).rowCount = (db.tables t).rowCount
  rows : ∀ t, ∀ i < (db.tables t).rowCount, (db'.tables t).rows i = (db.tables t).rows i
  stored : ∀ t, ∀ i < (db.tables t).rowCount,
    db'.rowStore ((db.tables t).rows i) = db.rowStore ((db.tables t).rows i)

namespace SameTables

theorem refl : SameTables db db :=
  ⟨rfl, fun _ => rfl, fun _ => rfl, fun _ _ _ => rfl, fun _ _ _ => rfl⟩

theorem trans {first second third : Database} (earlier : SameTables first second)
    (later : SameTables second third) : SameTables first third where
  tableCount := later.tableCount.trans earlier.tableCount
  name t := (later.name t).trans (earlier.name t)
  rowCount t := (later.rowCount t).trans (earlier.rowCount t)
  rows t i inUse := by
    have inUse' : i < (second.tables t).rowCount := by rw [earlier.rowCount t]; exact inUse
    exact (later.rows t i inUse').trans (earlier.rows t i inUse)
  stored t i inUse := by
    have inUse' : i < (second.tables t).rowCount := by rw [earlier.rowCount t]; exact inUse
    have further := later.stored t i inUse'
    rw [earlier.rows t i inUse] at further
    exact further.trans (earlier.stored t i inUse)

/-- A change of flags and of the log shows a reader nothing. -/
theorem of_eq (tableCount : db'.tableCount = db.tableCount) (tables : db'.tables = db.tables)
    (store : db'.rowStore = db.rowStore) : SameTables db db' where
  tableCount
  name t := by rw [tables]
  rowCount t := by rw [tables]
  rows t i _ := by rw [tables]
  stored t i _ := by rw [store]

section

variable (same : SameTables db db')
include same

theorem sameRows : SameRows db db' := by
  refine ⟨same.tableCount, fun t _ => ⟨same.name t, ?_⟩⟩
  unfold tableRows
  rw [same.rowCount t]
  refine map_congr_left fun i member => ?_
  have inUse := mem_range.mp member
  rw [same.rows t i inUse, same.stored t i inUse]

/-- Tables that look the same are found under the same names. -/
theorem findTable_eq (name : Chars) : findTable db' name = findTable db name := by
  have names : (fun t => namesMatch name (db'.tables t).name) =
      fun t => namesMatch name (db.tables t).name := by
    funext t
    rw [same.name t]
  rw [findTable, findTable, same.tableCount, names]

/-- Replacing a table on both sides. -/
theorem setTable (t : Nat) {table table' : Table}
    (name : table'.name = table.name) (rowCount : table'.rowCount = table.rowCount)
    (rows : ∀ i < table.rowCount, table'.rows i = table.rows i)
    (stored : ∀ i < table.rowCount, db'.rowStore (table.rows i) = db.rowStore (table.rows i)) :
    SameTables (db.setTable t table) (db'.setTable t table') := by
  refine ⟨same.tableCount, fun t' => ?_, fun t' => ?_, fun t' => ?_, fun t' => ?_⟩
  all_goals
    simp only [Database.setTable, update_apply]
    split
  exacts [name, same.name t', rowCount, same.rowCount t', rows, same.rows t', stored,
    same.stored t']

/-- Freeing the same row on both sides. -/
theorem freeRow (ref : RowRef) : SameTables (db.freeRow ref) (db'.freeRow ref) := by
  refine ⟨same.tableCount, same.name, same.rowCount, same.rows, fun t i inUse => ?_⟩
  simp only [Database.freeRow, update_apply]
  split
  · rfl
  · exact same.stored t i inUse

end

end SameTables

/-- A slot of a closed gap holds a slot that was in use. -/
theorem removeRow_inUse (inUse : i < (table.removeRow index).rowCount) :
    ∃ i' < table.rowCount, (table.removeRow index).rows i = table.rows i' ∧
      ∀ other : Table, other.rowCount = table.rowCount →
        (other.removeRow index).rows i = other.rows i' := by
  have below : i < table.rowCount - 1 := inUse
  by_cases moved : index ≤ i
  · refine ⟨i + 1, by omega, ?_, fun other count => ?_⟩
    · simp only [removeRow, if_pos (And.intro moved below)]
    · have below' : i < other.rowCount - 1 := by rw [count]; exact below
      simp only [removeRow, if_pos (And.intro moved below')]
  · refine ⟨i, by omega, ?_, fun other _ => ?_⟩
    all_goals simp only [removeRow, if_neg (fun both : index ≤ i ∧ _ => moved both.1)]

/-- **Undoing an insert respects what a reader sees.** The same row is freed on
both sides, so slots that share it lose it on both sides. -/
theorem SameTables.undoInsert (same : SameTables db db') (isInsert : entry.operation = .insert) :
    SameTables (undoEntry db entry) (undoEntry db' entry) := by
  have found := same.findTable_eq entry.table
  cases lookup : findTable db entry.table with
  | none =>
    simp only [undoEntry, lookup, found]
    exact same
  | some t =>
    simp only [undoEntry, lookup, found, isInsert, same.rowCount t]
    by_cases inUse : entry.rowIndex < (db.tables t).rowCount
    · rw [if_pos inUse, if_pos inUse, same.rows t entry.rowIndex inUse]
      have freed := same.freeRow ((db.tables t).rows entry.rowIndex)
      refine freed.setTable t (same.name t) (congrArg (· - 1) (same.rowCount t))
        (fun i below => ?_) fun i below => ?_
      · obtain ⟨i', inUse', slot, slotOther⟩ := removeRow_inUse below
        rw [slot, slotOther _ (same.rowCount t)]
        exact same.rows t i' inUse'
      · obtain ⟨i', inUse', slot, -⟩ := removeRow_inUse below
        rw [slot]
        exact freed.stored t i' inUse'
    · rw [if_neg inUse, if_neg inUse]
      exact same

/-- Undoing a list of inserts respects what a reader sees. -/
theorem SameTables.undoInserts {entries : List WalEntry}
    (inserts : ∀ entry ∈ entries, entry.operation = .insert) :
    ∀ {db db' : Database}, SameTables db db' →
      SameTables (entries.foldl undoEntry db) (entries.foldl undoEntry db') := by
  induction entries with
  | nil => exact fun same => same
  | cons entry entries ih =>
    intro db db' same
    have isInsert := inserts entry mem_cons_self
    exact ih (forall_mem_cons.mp inserts).2 (same.undoInsert isInsert)

/-- **Undoing the insert that was just done gives back what a reader saw.** The
row is the last one of its table and its reference is in no other slot. -/
theorem undo_storeRow (ok : StoreOk db) (isInsert : entry.operation = .insert)
    (found : findTable (storeRow db t row) entry.table = some t)
    (index : entry.rowIndex = (db.tables t).rowCount) :
    SameTables db (undoEntry (storeRow db t row) entry) := by
  have undone : undoEntry (storeRow db t row) entry =
      ((storeRow db t row).freeRow db.nextRow).setTable t
        (((storeRow db t row).tables t).removeRow (db.tables t).rowCount) := by
    simp only [undoEntry, found, isInsert, index]
    simp [storeRow, setTable]
  -- with its old table put back, the database differs in the arrays of the new row only
  have cleared : SameTables db
      (((storeRow db t row).freeRow db.nextRow).setTable t (db.tables t)) := by
    have tables : (((storeRow db t row).freeRow db.nextRow).setTable t (db.tables t)).tables =
        db.tables := by
      simp [storeRow, setTable, freeRow]
    refine ⟨rfl, fun t' => by rw [tables], fun t' => by rw [tables], fun t' i _ => by rw [tables],
      fun t' i _ => ?_⟩
    simp [storeRow, setTable, freeRow, Nat.ne_of_lt (ok t' i)]
  have last : (storeRow db t row).tables t =
      { db.tables t with
        rows := update (db.tables t).rows (db.tables t).rowCount db.nextRow
        rowCount := (db.tables t).rowCount + 1
        nextAutoId := (fillAutoColumns (db.tables t) row).2
        dirty := true } := by
    simp [storeRow, setTable]
  have closed : ∀ i < (db.tables t).rowCount,
      (((storeRow db t row).tables t).removeRow (db.tables t).rowCount).rows i =
        (db.tables t).rows i := by
    intro i inUse
    have notMoved : ¬ ((db.tables t).rowCount ≤ i ∧ i < (db.tables t).rowCount + 1 - 1) := by
      omega
    rw [last]
    simp only [removeRow, if_neg notMoved, update_of_ne (Nat.ne_of_lt inUse)]
  have restored := cleared.setTable t (by rw [last]; rfl) (by rw [last]; rfl) closed
    (cleared.stored t)
  rw [undone]
  simpa [setTable] using restored

/-! ## The log of a transaction -/

theorem walAppend_log :
    ∃ entry : WalEntry, (walAppend db operation name rowIndex oldData colCount).log =
        db.log ++ [entry] ∧
      entry.operation = operation ∧ entry.table = loggedName db name ∧
      entry.rowIndex = rowIndex := by
  refine ⟨(walAppend db operation name rowIndex oldData colCount).wal db.walCount, ?_, ?_⟩
  · rw [Database.log, walAppend_walCount, walExtend_frame.2.2.2.2.1, range_succ, map_append]
    refine congrArg (· ++ _) (map_congr_left fun k member => ?_)
    have used := mem_range.mp member
    simp only [walAppend, walExtend_frame, update_of_ne (Nat.ne_of_lt used)]
    exact walExtend_wal used
  · simp [walAppend, loggedName]

@[simp] theorem storeRow_log : (storeRow db t row).log = db.log := rfl

theorem findTable_storeRow : findTable (storeRow db t row) name = findTable db name := by
  have names : (fun t' => namesMatch name ((storeRow db t row).tables t').name) =
      fun t' => namesMatch name (db.tables t').name := by
    funext t'
    by_cases here : t' = t
    · subst here
      simp [storeRow, setTable]
    · simp [storeRow, setTable, here]
  rw [findTable, names]
  rfl

/-- Marking a table dirty shows a reader nothing. -/
theorem sameTables_setDirty : SameTables db (db.setTable t { db.tables t with dirty := true }) := by
  have marked : SameTables (db.setTable t (db.tables t))
      (db.setTable t { db.tables t with dirty := true }) :=
    SameTables.refl.setTable t rfl rfl (fun _ _ => rfl) fun _ _ => rfl
  simpa [setTable] using marked

/-! ## The invariant of a transaction -/

/-- In a transaction that started at `start`: every entry is an insert, and
undoing the log gives what a reader saw at the start. -/
structure TxnInv (start db : Database) : Prop where
  store : StoreOk db
  active : db.inTransaction
  inserts : ∀ entry ∈ db.log, entry.operation = .insert
  undone : SameTables start (db.log.reverse.foldl undoEntry db)

theorem TxnInv.initial (ok : StoreOk db) : TxnInv db (fundbBegin db) where
  store := ok.of_tables_eq rfl rfl
  active := rfl
  inserts entry member := by simp [fundbBegin, walClear, Database.log] at member
  undone := SameTables.of_eq rfl rfl rfl

variable {start : Database}

section

variable (inv : TxnInv start db)
include inv

/-- A step that shows a reader nothing and logs nothing keeps the invariant. -/
theorem TxnInv.of_same (ok : StoreOk db') (active : db'.inTransaction = db.inTransaction)
    (log : db'.log = db.log) (same : SameTables db db') : TxnInv start db' where
  store := ok
  active := active.trans inv.active
  inserts := by rw [log]; exact inv.inserts
  undone := by
    rw [log]
    have inserts : ∀ entry ∈ db.log.reverse, entry.operation = .insert :=
      fun entry member => inv.inserts entry (mem_reverse.mp member)
    exact inv.undone.trans (SameTables.undoInserts inserts same)

theorem TxnInv.insert (undoable : Undoable db (.insert name row)) :
    TxnInv start (fundbInsert db name row).1 := by
  cases found : findTable db name with
  | none => simpa only [fundbInsert, found] using inv
  | some t =>
    by_cases full : fundbMaxRows ≤ (db.tables t).rowCount
    · simpa only [fundbInsert, found, if_pos full] using inv
    · have resolves := undoable t found (Nat.lt_of_not_le full)
      simp only [fundbInsert, found, if_neg full, inv.active, if_true]
      obtain ⟨entry, log, isInsert, table, index⟩ :=
        @walAppend_log db name .insert (db.tables t).rowCount 0 none
      have ok := @StoreOk.walAppend db name .insert (db.tables t).rowCount 0 none inv.store
      have same : SameTables db (walAppend db .insert name (db.tables t).rowCount none 0) :=
        SameTables.of_eq (by simp) (by simp) (by simp)
      have named : findTable (storeRow (walAppend db .insert name (db.tables t).rowCount none 0)
          t row) entry.table = some t := by
        rw [findTable_storeRow, same.findTable_eq, table]
        exact resolves
      -- the newest entry is undone first, and undoing it gives the state before the call
      have newest := undo_storeRow ok isInsert named (by simp [index])
      refine ⟨ok.storeRow, ?_, ?_, ?_⟩
      · simpa [storeRow, setTable] using inv.active
      · rw [storeRow_log, log]
        intro e member
        rcases mem_append.mp member with older | isNew
        · exact inv.inserts e older
        · rw [mem_singleton.mp isNew]
          exact isInsert
      · rw [storeRow_log, log, reverse_append, reverse_singleton, singleton_append]
        have inserts : ∀ e ∈ db.log.reverse, e.operation = .insert :=
          fun e member => inv.inserts e (mem_reverse.mp member)
        exact inv.undone.trans (SameTables.undoInserts inserts (same.trans newest))

theorem TxnInv.update (nothing : SelectsNothing db name clause) {row : Option (List Cell)} :
    TxnInv start (fundbUpdate db name clause row).1 := by
  have ok : StoreOk (fundbUpdate db name clause row).1 := inv.store.fundbUpdate
  cases found : findTable db name with
  | none => simpa only [fundbUpdate, found] using inv
  | some t =>
    cases row with
    | none => simpa only [fundbUpdate, found] using inv
    | some cells =>
      have unchanged : (range (db.tables t).rowCount).foldl
          (updateSlot t name clause cells) (db, 0) = (db, 0) := by
        refine foldl_of_fixed fun i member => ?_
        have none := nothing t found i (mem_range.mp member)
        simp [updateSlot, none]
      simp only [fundbUpdate, found, unchanged] at ok ⊢
      exact inv.of_same ok rfl rfl sameTables_setDirty

theorem TxnInv.delete (nothing : SelectsNothing db name clause) :
    TxnInv start (fundbDelete db name clause).1 := by
  cases found : findTable db name with
  | none => simpa only [fundbDelete, found] using inv
  | some t =>
    have unchanged : (range (db.tables t).rowCount).reverse.foldl
        (deleteSlot t name clause) (db, 0) = (db, 0) := by
      refine foldl_of_fixed fun i member => ?_
      have none := nothing t found i (mem_range.mp (mem_reverse.mp member))
      simp [deleteSlot, none]
    simpa only [fundbDelete, found, unchanged, lt_irrefl, if_false] using inv

theorem TxnInv.step (undoable : Undoable db op) : TxnInv start (txnStep db op) := by
  cases op with
  | insert name row => exact inv.insert undoable
  | update name clause row => exact inv.update undoable
  | delete name clause => exact inv.delete undoable

end

/-- **A rollback restores every table of a transaction whose calls can be
undone**: after any such calls the tables hold the rows they held at
`fundb_begin`, in order and cell for cell. -/
theorem rollback_restores_rows (db : Database) (reachable : Reachable db) (ops : List TxnOp)
    (undoable : Meets txnStep Undoable (fundbBegin db) ops) :
    SameRows db (fundbRollback (ops.foldl txnStep (fundbBegin db))) := by
  have inv : TxnInv db (ops.foldl txnStep (fundbBegin db)) :=
    Meets.invariant (fun _ _ inv undoable => inv.step undoable)
      (TxnInv.initial reachable.storeOk) undoable
  have undone : SameTables db (fundbRollback (ops.foldl txnStep (fundbBegin db))) :=
    inv.undone.trans (SameTables.of_eq rfl rfl rfl)
  exact undone.sameRows

/-! ## A transaction on two rows -/

/-- An opened database without tables, its log buffer zeroed. -/
def emptyDatabase : Database where
  tables _ := ⟨chars [], fun _ => ⟨chars [], 0, 0, 0, 0, 0, 0⟩, 0, fun _ => 0, 0, 0, false⟩
  tableCount := 0
  wal _ := ⟨.insert, chars [], 0, [], false⟩
  walCount := 0
  walCapacity := 64
  inTransaction := false
  rowStore _ := none
  nextRow := 1
  bufferMemory _ _ := ⟨.insert, chars [], 0, [], false⟩
  buffers := 1

def nameT : Chars := chars [116]

def intCell (n : Nat) : Cell := ⟨fundbTypeInt, 4, some (uint32Bytes n)⟩

/-- The calls that make a table `t` with one INT column `id` and the rows 1 and 2. -/
def twoRowCalls : List ApiOp :=
  [.createTable nameT (some fun _ => ⟨chars [105, 100], fundbTypeInt, 0, 0, 0, 0, 0⟩) 1,
    .data (.insert nameT [intCell 1]), .data (.insert nameT [intCell 2])]

def twoRows : Database := twoRowCalls.foldl apiStep emptyDatabase

theorem twoRows_reachable : Reachable twoRows :=
  ⟨emptyDatabase, twoRowCalls, ⟨fun _ _ => zero_lt_one, rfl, rfl⟩, rfl⟩

def idIsOne : WhereClause := fun _ row => row.getD 0 nullCell == intCell 1

/-- **A rolled-back delete does not bring its row back.** With rows 1 and 2,
deleting row 1 and rolling back leaves row 2 twice. -/
theorem rollback_loses_deleted_row :
    ¬ ∀ (db : Database) (ops : List TxnOp), Reachable db →
      SameRows db (fundbRollback (ops.foldl txnStep (fundbBegin db))) := by
  intro restores
  have same := restores twoRows [.delete nameT idIsOne] twoRows_reachable
  have rows := (same.2 0 (by decide)).2
  exact absurd rows (by decide)

/-- On the same two rows, a transaction of two inserts and a delete that selects
nothing is undone. -/
theorem rollback_restores_two_rows :
    SameRows twoRows (fundbRollback ([TxnOp.insert nameT [intCell 3],
      .delete nameT fun _ _ => false, .insert nameT [intCell 4]].foldl txnStep
        (fundbBegin twoRows))) := by
  refine rollback_restores_rows twoRows twoRows_reachable _ ⟨?_, ?_, ?_, trivial⟩
  · intro t found _
    refine Eq.trans ?_ found
    decide
  · intro t _ i _
    rfl
  · intro t found _
    refine Eq.trans ?_ found
    decide

end FunsOS.Fundb
