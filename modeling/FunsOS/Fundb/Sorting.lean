import FunsOS.Foundation.Runs
import FunsOS.Fundb.Sql
import Mathlib.Data.List.GetD
import Mathlib.Data.List.Perm.Basic

/-!
# The loops of `sort_result`

`sort_result` compares the rows `i < j` in two loops and swaps them when they are out of
order. `sortPairs_invariant` is the rule for these loops. Rows in order stay as they are;
when the comparison is transitive, rows out of order do not, and the first row that is
another one afterwards sorted behind the one that took its place (`sortResult_cases`). So
sorting the two ways gives the same rows only if neither moves any.
-/

set_option autoImplicit false

namespace FunsOS.Fundb

open Foundation List

variable {rows start : List (List Cell)} {i j n : Nat} {fpu : FloatUnit}

/-! ## Swaps -/

theorem perm_swapRows (first : i < rows.length) (second : j < rows.length) :
    (swapRows rows i j).Perm rows := by
  have swapped : swapRows rows i j = (rows.set i rows[j]).set j rows[i] := by
    simp [swapRows, getD_eq_getElem?_getD, first, second]
  rw [swapped]
  exact set_set_perm first second

theorem getD_swapRows (first : i < rows.length) (second : j < rows.length) {k : Nat} :
    (swapRows rows i j).getD k [] = rows.getD (if k = j then i else if k = i then j else k) [] := by
  simp only [swapRows, getD_eq_getElem?_getD, getElem?_set, length_set]
  grind

theorem getD_mem (inside : i < rows.length) : rows.getD i [] ∈ rows := by
  rw [getD_eq_getElem _ _ inside]
  exact getElem_mem inside

theorem mem_sortPairs {pair : Nat × Nat} (member : pair ∈ sortPairs n) :
    pair.1 < pair.2 ∧ pair.2 < n := by
  obtain ⟨i, inside, there⟩ := mem_flatMap.mp member
  obtain ⟨j, between, rfl⟩ := mem_map.mp there
  have row := mem_range.mp inside
  have column := mem_range'_1.mp between
  dsimp only
  omega

/-! ## The loops -/

section Loops

variable {f : List (List Cell) → Nat × Nat → List (List Cell)}
  {P : Nat → Nat → List (List Cell) → Prop}
  (step : ∀ i j rows, i < j → j < n → P i j rows → P i (j + 1) (f rows (i, j)))
include step

theorem sortPairs_inner {left : Nat} (before : i < j) (count : j + left = n) (holds : P i j rows) :
    P i n (((range' j left).map (i, ·)).foldl f rows) := by
  induction left generalizing j rows with
  | zero => exact count ▸ holds
  | succ left ih =>
    rw [range'_succ, map_cons, foldl_cons]
    exact ih (by omega) (by omega) (step i j rows before (by omega) holds)

/-- **The rule for the loops.** What holds before the pair `(i, j)` holds before the next one. -/
theorem sortPairs_invariant (next : ∀ i rows, P i n rows → P (i + 1) (i + 2) rows)
    (holds : P 0 1 rows) : P n (n + 1) ((sortPairs n).foldl f rows) := by
  have outer : ∀ left i rows, i + left = n → P i (i + 1) rows →
      P n (n + 1) (((range' i left).flatMap fun i =>
        (range' (i + 1) (n - (i + 1))).map (i, ·)).foldl f rows) := by
    intro left
    induction left with
    | zero => exact fun i rows count holds => count ▸ holds
    | succ left ih =>
      intro i rows count holds
      rw [range'_succ, flatMap_cons, foldl_append]
      exact ih (i + 1) _ (by omega)
        (next i _ (sortPairs_inner step (Nat.lt_succ_self i) (by omega) holds))
  rw [sortPairs, range_eq_range']
  exact outer n 0 rows (Nat.zero_add n) holds

end Loops

/-! ## Comparisons -/

/-- The rows are swapped when they stand in this order: the column and whether it ascends. -/
def OutOfOrder (fpu : FloatUnit) (order : Nat × Bool) (x y : List Cell) : Prop :=
  let cmp := compareValues fpu (x.getD order.1 nullCell) (y.getD order.1 nullCell)
  if order.2 then cmp > 0 else cmp < 0
deriving Decidable

/-- The column holds no floating point numbers, the comparison of which is up to the FPU. -/
def FloatFree (column : Nat) (rows : List (List Cell)) : Prop :=
  ∀ row ∈ rows, (row.getD column nullCell).type ≠ fundbTypeFloat

variable {order : Nat × Bool} {x y z : List Cell}

theorem strcmp_swap (first second : List UInt8) : strcmp second first = -strcmp first second := by
  induction first generalizing second with
  | nil => cases second <;> simp [strcmp]
  | cons a first ih =>
    cases second with
    | nil => simp [strcmp]
    | cons b second =>
      simp only [strcmp, headD_cons, tail_cons]
      grind

theorem strcmp_trans {first second third : List UInt8} (less : 0 < strcmp first second)
    (less' : 0 < strcmp second third) : 0 < strcmp first third := by
  induction first generalizing second third with
  | nil =>
    rw [strcmp] at less
    omega
  | cons a first ih =>
    cases second with
    | nil =>
      rw [strcmp] at less'
      omega
    | cons b second =>
      simp only [strcmp, headD_cons, tail_cons, ne_eq, ← UInt8.toNat_inj] at less less' ⊢
      split_ifs at less less' ⊢
      · exact ih less less'
      all_goals omega

theorem compareValues_swap (fpu : FloatUnit) {first second : Cell}
    (noFloat : first.type ≠ fundbTypeFloat) (noFloat' : second.type ≠ fundbTypeFloat) :
    compareValues fpu second first = -compareValues fpu first second := by
  have texts := strcmp_swap (first.value.getD []) (second.value.getD [])
  simp only [compareValues, numeric, Bool.and_eq_true, Bool.or_eq_true, beq_iff_eq]
  grind

theorem compareValues_trans (fpu : FloatUnit) {first second third : Cell}
    (noFloat : first.type ≠ fundbTypeFloat) (noFloat' : second.type ≠ fundbTypeFloat)
    (noFloat'' : third.type ≠ fundbTypeFloat)
    (less : 0 < compareValues fpu first second) (less' : 0 < compareValues fpu second third) :
    0 < compareValues fpu first third := by
  have texts := @strcmp_trans (first.value.getD []) (second.value.getD []) (third.value.getD [])
  simp only [compareValues, numeric, Bool.and_eq_true, Bool.or_eq_true, beq_iff_eq] at less less' ⊢
  grind

/-! ## Sorted rows -/

theorem sortStep_eq (order : Nat × Bool) {pair : Nat × Nat} :
    sortStep fpu order.1 order.2 rows pair =
      if OutOfOrder fpu order (rows.getD pair.1 []) (rows.getD pair.2 []) then
        swapRows rows pair.1 pair.2
      else rows := rfl

/-- `sort_result` only moves rows. -/
theorem perm_sortResult (fpu : FloatUnit) (order : Nat × Bool) (rows : List (List Cell)) :
    (sortResult fpu order.1 order.2 rows).Perm rows := by
  refine foldl_invariant_of_mem (P := fun sorted => List.Perm sorted rows) ?_ (List.Perm.refl rows)
  intro sorted pair member perm
  have bounds := mem_sortPairs member
  rw [← perm.length_eq] at bounds
  rw [sortStep_eq order]
  split
  · exact (perm_swapRows (bounds.1.trans bounds.2) bounds.2).trans perm
  · exact perm

/-- Rows in order stay where they are. -/
theorem sortResult_of_pairwise (inOrder : rows.Pairwise fun x y => ¬OutOfOrder fpu order x y) :
    sortResult fpu order.1 order.2 rows = rows := by
  refine foldl_of_fixed fun pair member => ?_
  obtain ⟨before, inside⟩ := mem_sortPairs member
  rw [sortStep_eq order, getD_eq_getElem _ _ (before.trans inside), getD_eq_getElem _ _ inside]
  exact if_neg (pairwise_iff_getElem.mp inOrder _ _ _ _ before)

/-- The first row that is another one now sorted behind the one in its place. -/
def Overtaken (fpu : FloatUnit) (order : Nat × Bool) (start rows : List (List Cell)) (k : Nat) :
    Prop :=
  k < start.length ∧ (∀ m < k, rows.getD m [] = start.getD m []) ∧
    OutOfOrder fpu order (start.getD k []) (rows.getD k [])

/-- Before the pair `(i, j)`: no pair up to it was out of order, or the place of a row up to
`i` was taken. -/
def SoFar (fpu : FloatUnit) (order : Nat × Bool) (start : List (List Cell)) (i j : Nat)
    (rows : List (List Cell)) : Prop :=
  rows.Perm start ∧
    ((rows = start ∧ ∀ a b, a < b → b < start.length → a < i ∨ a = i ∧ b < j →
        ¬OutOfOrder fpu order (start.getD a []) (start.getD b [])) ∨
      ∃ k ≤ i, Overtaken fpu order start rows k)

section FloatFree

variable (floatFree : FloatFree order.1 start)
include floatFree

theorem OutOfOrder.irrefl (member : x ∈ start) : ¬OutOfOrder fpu order x x := by
  have same := compareValues_swap fpu (floatFree x member) (floatFree x member)
  unfold OutOfOrder
  grind

theorem OutOfOrder.trans (inX : x ∈ start) (inY : y ∈ start) (inZ : z ∈ start)
    (first : OutOfOrder fpu order x y) (second : OutOfOrder fpu order y z) :
    OutOfOrder fpu order x z := by
  unfold OutOfOrder at first second ⊢
  have up := compareValues_trans fpu (floatFree x inX) (floatFree y inY) (floatFree z inZ)
  have down := compareValues_trans fpu (floatFree z inZ) (floatFree y inY) (floatFree x inX)
  have swapXY := compareValues_swap fpu (floatFree x inX) (floatFree y inY)
  have swapYZ := compareValues_swap fpu (floatFree y inY) (floatFree z inZ)
  have swapXZ := compareValues_swap fpu (floatFree x inX) (floatFree z inZ)
  grind

theorem SoFar.step (soFar : SoFar fpu order start i j rows) (before : i < j)
    (inside : j < start.length) :
    SoFar fpu order start i (j + 1) (sortStep fpu order.1 order.2 rows (i, j)) := by
  obtain ⟨perm, cases_⟩ := soFar
  have second : j < rows.length := perm.length_eq ▸ inside
  have first : i < rows.length := before.trans second
  rw [sortStep_eq order]
  split
  case isTrue swaps =>
    refine ⟨(perm_swapRows first second).trans perm, .inr ?_⟩
    have there : ∀ k, (swapRows rows i j).getD k [] = _ := fun k => getD_swapRows first second
    obtain ⟨rfl, -⟩ | ⟨k, low, bound, same, out⟩ := cases_
    · refine ⟨i, le_refl i, first, fun m below => ?_, ?_⟩
      · rw [there, if_neg (by omega), if_neg (by omega)]
      · rw [there, if_neg (by omega), if_pos rfl]
        exact swaps
    · refine ⟨k, low, bound, fun m below => ?_, ?_⟩
      · rw [there, if_neg (by omega), if_neg (by omega)]
        exact same m below
      · rw [there, if_neg (by omega)]
        split
        case isFalse => exact out
        case isTrue here =>
          -- The row in place `i` goes on to place `j`, and one that sorts before it comes.
          subst here
          exact out.trans floatFree (getD_mem bound) (perm.subset (getD_mem first))
            (perm.subset (getD_mem second)) swaps
  case isFalse stays =>
    refine ⟨perm, cases_.imp (fun unmoved => ⟨unmoved.1, fun a b lt bound seen => ?_⟩) id⟩
    obtain ⟨rfl, inOrder⟩ := unmoved
    by_cases last : a = i ∧ b = j
    · rw [last.1, last.2]
      exact stays
    · exact inOrder a b lt bound (by omega)

/-- **What sorting does to rows**: it leaves them when they are in order, and otherwise the
place of some row is taken by one that sorts before it. -/
theorem sortResult_cases (fpu : FloatUnit) :
    sortResult fpu order.1 order.2 start = start ∧
        (start.Pairwise fun x y => ¬OutOfOrder fpu order x y) ∨
      ∃ k, Overtaken fpu order start (sortResult fpu order.1 order.2 start) k := by
  have done : SoFar fpu order start start.length (start.length + 1)
      (sortResult fpu order.1 order.2 start) := by
    refine sortPairs_invariant (fun i j rows before inside soFar => ?_) (fun i rows soFar => ?_) ?_
    · exact soFar.step floatFree before inside
    · obtain ⟨perm, ⟨unmoved, inOrder⟩ | ⟨k, low, taken⟩⟩ := soFar
      · exact ⟨perm, .inl ⟨unmoved, fun a b lt bound seen => inOrder a b lt bound (by omega)⟩⟩
      · exact ⟨perm, .inr ⟨k, by omega, taken⟩⟩
    · exact ⟨List.Perm.refl _, .inl ⟨rfl, fun a b lt bound seen => by omega⟩⟩
  obtain ⟨-, ⟨unmoved, inOrder⟩ | ⟨k, -, taken⟩⟩ := done
  · refine .inl ⟨unmoved, pairwise_iff_getElem.mpr fun a b first second lt => ?_⟩
    have there := inOrder a b lt second (.inl first)
    rwa [getD_eq_getElem _ _ first, getD_eq_getElem _ _ second] at there
  · exact .inr ⟨k, taken⟩

theorem Overtaken.moved {k : Nat} (taken : Overtaken fpu order start rows k) :
    rows.getD k [] ≠ start.getD k [] := by
  obtain ⟨bound, -, out⟩ := taken
  intro same
  rw [same] at out
  exact OutOfOrder.irrefl floatFree (getD_mem bound) out

/-- Sorting that moves no row finds the rows in order. -/
theorem pairwise_of_sortResult (unmoved : sortResult fpu order.1 order.2 start = start) :
    start.Pairwise fun x y => ¬OutOfOrder fpu order x y := by
  obtain ⟨-, inOrder⟩ | ⟨k, taken⟩ := sortResult_cases floatFree fpu
  · exact inOrder
  · exact absurd (by rw [unmoved]) (taken.moved floatFree)

end FloatFree

/-- The two directions of a column give the same rows only if the rows are in both orders. -/
theorem sortResult_both {sortCol : Nat} (floatFree : FloatFree sortCol start)
    (same : sortResult fpu sortCol true start = sortResult fpu sortCol false start) :
    ∀ ascending, start.Pairwise fun x y => ¬OutOfOrder fpu (sortCol, ascending) x y := by
  have up := @sortResult_cases start (sortCol, true) floatFree fpu
  have down := @sortResult_cases start (sortCol, false) floatFree fpu
  dsimp only at up down
  rw [← same] at down
  obtain ⟨unmoved, inOrder⟩ | ⟨k, taken⟩ := up
  · obtain ⟨-, inOrder'⟩ | ⟨l, taken'⟩ := down
    · intro ascending
      cases ascending
      · exact inOrder'
      · exact inOrder
    · exact absurd (by rw [unmoved]) (taken'.moved floatFree)
  · obtain ⟨unmoved, -⟩ | ⟨l, taken'⟩ := down
    · exact absurd (by rw [unmoved]) (taken.moved floatFree)
    · -- Both orders have their first new row at the same place, where only one can want it.
      have here : k = l := by
        by_contra differ
        obtain before | behind := Nat.lt_or_gt_of_ne differ
        · exact taken.moved floatFree (taken'.2.1 k before)
        · exact taken'.moved floatFree (taken.2.1 l behind)
      subst here
      have above := taken.2.2
      have below := taken'.2.2
      simp only [OutOfOrder] at above below
      grind

/-! ## ORDER BY -/

/-- The column that an ORDER BY text names, and whether it ascends. -/
def orderOf (table : Table) (orderBy : List UInt8) : Option (Nat × Bool) :=
  if orderBy = [] then none
  else
    let name := scan (fun c => !blank c) 63 (orderBy.dropWhile blank)
    (findColumnIndex table name.1).map fun sortCol =>
      (sortCol, !strPrefixCi (name.2.dropWhile blank) kwDesc)

variable (fpu) {table : Table} {orderBy first second : List UInt8}

theorem orderRows_eq : orderRows fpu table orderBy rows =
    (orderOf table orderBy).elim rows fun order => sortResult fpu order.1 order.2 rows := by
  rw [orderRows, orderOf]
  split
  · rfl
  · dsimp only
    split <;> simp [*]

theorem perm_orderRows : (orderRows fpu table orderBy rows).Perm rows := by
  rw [orderRows_eq]
  cases orderOf table orderBy with
  | none => exact List.Perm.refl rows
  | some order => exact perm_sortResult fpu order rows

/-- The texts name the same column and direction, or the rows are in order already for each
that names one. -/
def SameOrder (table : Table) (first second : List UInt8) (rows : List (List Cell)) : Prop :=
  orderOf table first = orderOf table second ∨
    ∀ text ∈ [first, second], ∀ order ∈ orderOf table text,
      rows.Pairwise fun x y => ¬OutOfOrder fpu order x y

/-- The texts name one column at most, which holds no floating point numbers. -/
def OneColumn (table : Table) (first second : List UInt8) (rows : List (List Cell)) : Prop :=
  ∃ column, FloatFree column rows ∧
    ∀ text ∈ [first, second], ∀ order ∈ orderOf table text, order.1 = column

theorem SameOrder.orderRows_eq (same : SameOrder fpu table first second rows) :
    orderRows fpu table first rows = orderRows fpu table second rows := by
  obtain equal | inOrder := same
  · rw [Fundb.orderRows_eq, Fundb.orderRows_eq, equal]
  · have stays : ∀ text ∈ [first, second], orderRows fpu table text rows = rows := by
      intro text member
      rw [Fundb.orderRows_eq]
      cases isOrder : orderOf table text with
      | none => rfl
      | some order => exact sortResult_of_pairwise (inOrder text member order isOrder)
    rw [stays first (by simp), stays second (by simp)]

/-- **Two orders by one column give the same rows only if** they are the same, or the rows
are in order already. -/
theorem OneColumn.sameOrder (one : OneColumn table first second rows)
    (equal : orderRows fpu table first rows = orderRows fpu table second rows) :
    SameOrder fpu table first second rows := by
  obtain ⟨column, floatFree, named⟩ := one
  simp only [SameOrder, forall_mem_cons, not_mem_nil, false_imp_iff, implies_true, and_true]
    at named ⊢
  rw [orderRows_eq, orderRows_eq] at equal
  have unmoved {order : Nat × Bool} (here : order.1 = column)
      (same : sortResult fpu order.1 order.2 rows = rows) :
      ∀ other ∈ some order, rows.Pairwise fun x y => ¬OutOfOrder fpu other x y := by
    rintro _ ⟨⟩
    exact pairwise_of_sortResult (here ▸ floatFree) same
  cases isFirst : orderOf table first with
  | none =>
    cases isSecond : orderOf table second with
    | none => exact .inl rfl
    | some order =>
      rw [isFirst, isSecond] at equal
      exact .inr ⟨by simp, unmoved (named.2 order isSecond) equal.symm⟩
  | some order =>
    rw [isFirst] at equal
    cases isSecond : orderOf table second with
    | none =>
      rw [isSecond] at equal
      exact .inr ⟨unmoved (named.1 order isFirst) equal, by simp⟩
    | some other =>
      rw [isSecond] at equal
      have here := named.1 order isFirst
      have here' := named.2 other isSecond
      obtain ⟨_, ascending⟩ := order
      obtain ⟨sortCol, ascending'⟩ := other
      subst here here'
      by_cases same : ascending = ascending'
      · exact .inl (by rw [same])
      · have both : sortResult fpu sortCol true rows = sortResult fpu sortCol false rows := by
          cases ascending <;> cases ascending'
          · exact absurd rfl same
          · exact equal.symm
          · exact equal
          · exact absurd rfl same
        have inOrder := sortResult_both floatFree both
        refine .inr ⟨?_, ?_⟩ <;> rintro _ ⟨⟩ <;> exact inOrder _

end FunsOS.Fundb
