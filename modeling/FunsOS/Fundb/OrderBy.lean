import FunsOS.Fundb.Agreement

/-!
# ORDER BY with LIMIT

`fundb_select` copies the first `limit` matching rows into the result and sorts these. `sort_result`
does sort them (`sortResult_sorted`), but a row behind the limit is lost even if it sorts before
them (`select_top_iff`).
-/

set_option autoImplicit false

namespace FunsOS.Fundb

open Foundation List

/-! ## Sorting -/

variable {rows start : List (List Cell)} {key : List Cell → Int} {i j : Nat} (fpu : FloatUnit)
  {sortCol : Nat} {ascending : Bool}

/-- The pairs of rows up to `(i, j)` in the order of the loops are sorted by the key. -/
structure Sorting (key : List Cell → Int) (start : List (List Cell)) (i j : Nat)
    (rows : List (List Cell)) : Prop where
  perm : rows.Perm start
  sorted : ∀ a b, a < b → b < start.length → a < i ∨ a = i ∧ b < j →
    key (rows.getD a []) ≤ key (rows.getD b [])

/-- The value that the rows are sorted by, negated for DESC. -/
def rank (sortCol : Nat) (ascending : Bool) (row : List Cell) : Int :=
  if ascending then int32At (row.getD sortCol nullCell) else -int32At (row.getD sortCol nullCell)

/-- The column holds integers. -/
def Ints (sortCol : Nat) (rows : List (List Cell)) : Prop :=
  ∀ row ∈ rows, (row.getD sortCol nullCell).type = fundbTypeInt

section

variable (ints : Ints sortCol start)
include ints

theorem outOfOrder_iff {x y : List Cell} (first : x ∈ start) (second : y ∈ start) :
    OutOfOrder fpu (sortCol, ascending) x y ↔
      rank sortCol ascending y < rank sortCol ascending x := by
  simp only [OutOfOrder, compareValues, ints x first, ints y second, rank, fundbTypeNull,
    fundbTypeInt]
  grind

theorem Sorting.step (sorting : Sorting (rank sortCol ascending) start i j rows) (before : i < j)
    (inside : j < start.length) :
    Sorting (rank sortCol ascending) start i (j + 1)
      (sortStep fpu sortCol ascending rows (i, j)) := by
  obtain ⟨perm, sorted⟩ := sorting
  have second : j < rows.length := perm.length_eq ▸ inside
  have first : i < rows.length := before.trans second
  have swaps := @outOfOrder_iff _ fpu _ ascending ints _ _
    (perm.subset (getD_mem first)) (perm.subset (getD_mem second))
  rw [sortStep_eq (sortCol, ascending)]
  split
  case isTrue out =>
    have less := swaps.mp out
    refine ⟨(perm_swapRows first second).trans perm, fun a b lt bound seen => ?_⟩
    rw [getD_swapRows first second, getD_swapRows first second]
    have withFirst := sorted a i
    have withSecond := sorted a j
    have same := sorted a b
    have fromFirst := sorted i b
    split_ifs <;> subst_vars <;> omega
  case isFalse stays =>
    refine ⟨perm, fun a b lt bound seen => ?_⟩
    by_cases last : a = i ∧ b = j
    · rw [last.1, last.2]
      exact Int.not_lt.mp (mt swaps.mpr stays)
    · exact sorted a b lt bound (by omega)

/-- **`sort_result` sorts** a column of integers. -/
theorem sortResult_sorted (ascending : Bool) :
    (sortResult fpu sortCol ascending start).Pairwise fun x y =>
      rank sortCol ascending x ≤ rank sortCol ascending y := by
  have done : Sorting (rank sortCol ascending) start start.length (start.length + 1)
      (sortResult fpu sortCol ascending start) := by
    refine sortPairs_invariant (fun i j rows before inside sorting => ?_)
      (fun i rows sorting => ?_) ?_
    · exact sorting.step fpu ints before inside
    · exact ⟨sorting.perm, fun a b lt bound seen => sorting.sorted a b lt bound (by omega)⟩
    · exact ⟨Perm.refl start, fun a b lt _ seen => by omega⟩
  refine pairwise_iff_getElem.mpr fun a b first second lt => ?_
  have sorted := done.sorted a b lt (done.perm.length_eq ▸ second)
    (.inl (done.perm.length_eq ▸ first))
  rwa [getD_eq_getElem _ _ first, getD_eq_getElem _ _ second] at sorted

end

/-! ## The limit -/

variable {db : Database} {t limit : Nat} {name orderBy : List UInt8}

/-- The rows that the where clause selects. -/
def matching (db : Database) (t : Nat) (whereText : List UInt8) : List (List Cell) :=
  (db.rows t).filter (evaluateWhere fpu whereText (db.tables t))

/-- The result has as many rows as it may have, sorted by the key, and no row that is left out sorts
before one of them. -/
def Top (key : List Cell → Int) (limit : Nat) (rows result : List (List Cell)) : Prop :=
  result.length = min limit rows.length ∧ (result.Pairwise fun x y => key x ≤ key y) ∧
    ∃ left, (result ++ left).Perm rows ∧ ∀ x ∈ result, ∀ y ∈ left, key x ≤ key y

theorem top_iff {result : List (List Cell)} (sorted : result.Pairwise fun x y => key x ≤ key y)
    (perm : result.Perm (rows.take limit)) :
    Top key limit rows result ↔ ∀ x ∈ rows.take limit, ∀ y ∈ rows.drop limit, key x ≤ key y := by
  constructor
  · rintro ⟨-, -, left, all, behind⟩ x inside y outside
    have same : (rows.take limit ++ left).Perm (rows.take limit ++ rows.drop limit) := by
      rw [take_append_drop]
      exact (perm.symm.append_right left).trans all
    exact behind x (perm.symm.subset inside) y
      (((perm_append_left_iff _).mp same).symm.subset outside)
  · intro behind
    refine ⟨by rw [perm.length_eq, length_take], sorted, rows.drop limit, ?_, ?_⟩
    · exact (perm.append_right _).trans (.of_eq (take_append_drop limit rows))
    · exact fun x inside => behind x (perm.subset inside)

/-- **A SELECT with ORDER BY and LIMIT returns the first rows in the order exactly if** some row
matches, and no matching row behind the limit sorts before one within it. -/
theorem select_top_iff (found : findTable db (chars name) = some t)
    (ok : ∀ row ∈ db.rows t, RowOk (fun cell => cell.copy = cell) (db.tables t).colCount row)
    (columns whereText : List UInt8)
    (order : orderOf (db.tables t) orderBy = some (sortCol, ascending))
    (ints : Ints sortCol (db.rows t)) (positive : 0 < limit) :
    (∃ result, fundbSelect fpu db name columns whereText orderBy limit = some result ∧
      Top (rank sortCol ascending) limit (matching fpu db t whereText) result.rows) ↔
    matching fpu db t whereText ≠ [] ∧
      ∀ x ∈ (matching fpu db t whereText).take limit,
        ∀ y ∈ (matching fpu db t whereText).drop limit,
          rank sortCol ascending x ≤ rank sortCol ascending y := by
  have inTable : ∀ row ∈ matching fpu db t whereText, row ∈ db.rows t := fun row member =>
    (mem_filter.mp member).1
  rw [fundbSelect_rows fpu found ok, ← matching]
  generalize matching fpu db t whereText = rows at inTable ⊢
  have cut : limited limit rows = rows.take limit := by
    rw [limited]
    split
    · rfl
    · exact (take_of_length_le (by omega)).symm
  have sorts : orderRows fpu (db.tables t) orderBy (rows.take limit) =
      sortResult fpu sortCol ascending (rows.take limit) := by
    rw [orderRows_eq, order]
    rfl
  have sorted := sortResult_sorted fpu (fun row (member : row ∈ rows.take limit) =>
    ints row (inTable row (mem_of_mem_take member))) ascending
  dsimp only
  rw [cut, sorts, ← top_iff sorted (perm_sortResult fpu (sortCol, ascending) _)]
  by_cases nothing : rows = []
  · simp [nothing]
  · have something : rows.take limit ≠ [] := by simp [nothing, Nat.ne_of_gt positive]
    simp [nothing, something]

/-- ORDER BY a LIMIT 1. -/
theorem first_mark :
    ∃ result, fundbSelect noFloats marks [116] [] [] [97] 1 = some result ∧
      Top (rank 0 true) 1 (matching noFloats marks 0 []) result.rows :=
  (select_top_iff noFloats (by decide +kernel)
    (fun _ member => marks_kept.sound.row_ok (by decide) member) [] [] (by decide +kernel) (show ∀ row ∈ marks.rows 0, _ by decide +kernel)
    (by decide)).mpr
    (by decide +kernel)

/-- With DESC the row `2` is lost. -/
theorem last_mark_lost :
    (fundbSelect noFloats marks [116] [] [] [97, 32, 68, 69, 83, 67] 1).map (·.rows) =
        some [[⟨fundbTypeInt, 4, some [1, 0, 0, 0]⟩]] ∧
      [⟨fundbTypeInt, 4, some [2, 0, 0, 0]⟩] ∈ matching noFloats marks 0 [] := by
  decide +kernel

end FunsOS.Fundb
