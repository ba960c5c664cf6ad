import FunsOS.Foundation.TextScan
import FunsOS.Foundation.ByteReader
import FunsOS.Fundb.Store
import Mathlib.Data.List.Forall2

/-!
# Where clauses of FunDB

The where part of `kernel/fundb.c`: the values a literal stands for, the comparison of a
cell with a value, the parser of one condition and the loop over a clause. The parser of a
condition and the loop each keep their own cursor: the parser reads a whole condition and
looks at the connective behind it, the loop then moves over one blank-free word and over
the connective if it stands there.

A text is the list of its characters up to the NUL. Reading a cell past its bytes, which C
leaves undefined, reads zeros here. What the floating point unit does is not part of the
sources: it is a parameter.
-/

set_option autoImplicit false

namespace FunsOS.Fundb

open Foundation

def fundbTypeFloat : Nat := 2
def fundbTypeText : Nat := 3
def fundbTypeBool : Nat := 5

/-! ## Characters -/

def blank (c : UInt8) : Bool := c == 32 || c == 9

def digit (c : UInt8) : Bool := 48 ≤ c && c ≤ 57

def lower (c : UInt8) : UInt8 := if 65 ≤ c ∧ c ≤ 90 then c + 32 else c

def strPrefixCi : List UInt8 → List UInt8 → Bool
  | _, [] => true
  | [], _ :: _ => false
  | a :: text, b :: keyword => lower a == lower b && strPrefixCi text keyword

theorem strPrefixCi_append (keyword rest : List UInt8) : strPrefixCi (keyword ++ rest) keyword := by
  induction keyword with
  | nil => simp [strPrefixCi]
  | cons c keyword ih => simp [strPrefixCi, ih]

theorem strPrefixCi_of_head {a b : UInt8} {text keyword : List UInt8}
    (differ : lower a ≠ lower b) : strPrefixCi (a :: text) (b :: keyword) = false := by
  simp [strPrefixCi, differ]

def keywordAnd : List UInt8 := [65, 78, 68]
def keywordOr : List UInt8 := [79, 82]
def keywordLike : List UInt8 := [76, 73, 75, 69]
def keywordNull : List UInt8 := [78, 85, 76, 76]
def keywordTrue : List UInt8 := [84, 82, 85, 69]
def keywordFalse : List UInt8 := [70, 65, 76, 83, 69]

/-! ## Values -/

/-- What the floating point unit and `strtod` compute, on the eight bytes of a `double`. -/
structure FloatUnit where
  strtod : List UInt8 → List UInt8
  ofInt : Int → List UInt8
  equal : List UInt8 → List UInt8 → Bool
  less : List UInt8 → List UInt8 → Bool

/-- A unit for texts in which no floating point number occurs. -/
def noFloats : FloatUnit := ⟨fun _ => [], fun _ => [], fun _ _ => true, fun _ _ => false⟩

/-- The digits of a number from the left; `atoi` wraps at 32 bits, as its callers do. -/
def digitsValue (text : List UInt8) : Int :=
  (text.takeWhile digit).foldl (fun result c => result * 10 + (c.toNat - 48 : Int)) 0

/-- `atoi`, on a text that does not start with white space. -/
def atoi : List UInt8 → Int
  | 45 :: text => -digitsValue text
  | 43 :: text => digitsValue text
  | text => digitsValue text

variable (fpu : FloatUnit)

def parseValue (text : List UInt8) : Cell :=
  if text = [] then nullCell
  else
    let p := text.dropWhile blank
    let first := p.headD 0
    if first = 39 then
      let body := (scan (· != 39) 255 p.tail).1
      ⟨fundbTypeText, body.length + 1, some (body ++ [0])⟩
    else if digit first ∨ first = 45 then
      if 46 ∈ p then ⟨fundbTypeFloat, 8, some (fpu.strtod p)⟩
      else ⟨fundbTypeInt, 4, some (uint32Bytes (atoi p % 2 ^ 32).toNat)⟩
    else if strPrefixCi p keywordNull then nullCell
    else if strPrefixCi p keywordTrue || strPrefixCi p keywordFalse then
      ⟨fundbTypeBool, 1, some [if strPrefixCi p keywordTrue then 1 else 0]⟩
    else ⟨fundbTypeText, p.length + 1, some (p ++ [0])⟩

/-- `*(int32_t *)val`. -/
def int32At (cell : Cell) : Int :=
  let word := wordOfBytes (cell.value.getD [])
  if word < 2 ^ 31 then word else (word : Int) - 2 ^ 32

/-- `*(double *)val` of a float, or the integer as a `double`. -/
def doubleAt (cell : Cell) : List UInt8 :=
  if cell.type = fundbTypeInt then fpu.ofInt (int32At cell) else cell.value.getD []

def strcmp : List UInt8 → List UInt8 → Int
  | [], second => -(second.headD 0).toNat
  | a :: first, second =>
    let b := second.headD 0
    if a ≠ 0 ∧ a = b then strcmp first second.tail else (a.toNat : Int) - b.toNat

def numeric (type : Nat) : Bool := type == fundbTypeInt || type == fundbTypeFloat

def compareValues (first second : Cell) : Int :=
  if first.type = fundbTypeNull ∨ second.type = fundbTypeNull then 0
  else if first.type = fundbTypeInt ∧ second.type = fundbTypeInt then
    if int32At first = int32At second then 0
    else if int32At first < int32At second then -1 else 1
  else if numeric first.type && numeric second.type then
    if fpu.equal (doubleAt fpu first) (doubleAt fpu second) then 0
    else if fpu.less (doubleAt fpu first) (doubleAt fpu second) then -1 else 1
  else if first.type = fundbTypeText ∧ second.type = fundbTypeText then
    strcmp (first.value.getD []) (second.value.getD [])
  else 0

/-- The loop of `like_match` behind a `%`: the rest of the pattern at every place. -/
def likeAnywhere (rest : List UInt8 → Bool) : List UInt8 → Bool
  | [] => rest []
  | c :: str => if c = 0 then rest (c :: str) else rest (c :: str) || likeAnywhere rest str

/-- `like_match`, with the pattern first. -/
def likeMatch : List UInt8 → List UInt8 → Bool
  | [], str => str.headD 0 == 0
  | c :: pattern, str =>
    if c = 0 then str.headD 0 == 0
    else if c = 37 then likeAnywhere (likeMatch pattern) str
    else if c = 95 then if str.headD 0 = 0 then false else likeMatch pattern str.tail
    else if str.headD 0 = 0 then false
    else if str.headD 0 ≠ c then false
    else likeMatch pattern str.tail

section Like

open List

/-- What a character of a pattern stands for: `%` for any piece, `_` for one character and any
other character for itself. -/
def LikePiece (c : UInt8) (piece : List UInt8) : Prop :=
  c = 37 ∨ ∃ d, piece = [d] ∧ (c = 95 ∨ d = c)

theorem likeAnywhere_iff {rest : List UInt8 → Bool} {str : List UInt8} (ended : 0 ∉ str) :
    likeAnywhere rest str ↔ ∃ piece tail, piece ++ tail = str ∧ rest tail := by
  induction str with
  | nil => simp [likeAnywhere]
  | cons c str ih =>
    obtain ⟨here, later⟩ := not_or.mp (mt mem_cons.mpr ended)
    rw [likeAnywhere, if_neg (Ne.symm here), Bool.or_eq_true, ih later]
    constructor
    · rintro (now | ⟨piece, tail, rfl, found⟩)
      · exact ⟨[], c :: str, rfl, now⟩
      · exact ⟨c :: piece, tail, rfl, found⟩
    · rintro ⟨piece, tail, cut, found⟩
      cases piece with
      | nil => exact .inl (cut ▸ found)
      | cons _ piece => exact .inr ⟨piece, tail, (cons.inj cut).2, found⟩

/-- **`like_match` decides LIKE**: the string can be cut into one piece for each character of the
pattern. -/
theorem likeMatch_iff {pattern str : List UInt8} (whole : 0 ∉ pattern) (ended : 0 ∉ str) :
    likeMatch pattern str ↔ ∃ pieces, Forall₂ LikePiece pattern pieces ∧ pieces.flatten = str := by
  induction pattern generalizing str with
  | nil => cases str with
    | nil => simp [likeMatch]
    | cons c str => simpa [likeMatch] using (ne_of_not_mem_cons ended).symm
  | cons c pattern ih =>
    obtain ⟨here, later⟩ := not_or.mp (mt mem_cons.mpr whole)
    have cut : (∃ pieces, Forall₂ LikePiece (c :: pattern) pieces ∧ pieces.flatten = str) ↔
        ∃ piece tail, piece ++ tail = str ∧ LikePiece c piece ∧ likeMatch pattern tail := by
      constructor
      · rintro ⟨_, matched, rfl⟩
        obtain ⟨piece, pieces, first, others, rfl⟩ := forall₂_cons_left_iff.mp matched
        refine ⟨piece, pieces.flatten, rfl, first, (ih later ?_).mpr ⟨pieces, others, rfl⟩⟩
        exact fun zero => ended (mem_append_right _ zero)
      · rintro ⟨piece, tail, rfl, first, found⟩
        have ended' : 0 ∉ tail := fun zero => ended (mem_append_right _ zero)
        obtain ⟨pieces, others, rfl⟩ := (ih later ended').mp found
        exact ⟨piece :: pieces, .cons first others, rfl⟩
    rw [cut, likeMatch, if_neg (Ne.symm here)]
    by_cases percent : c = 37
    · rw [if_pos percent, likeAnywhere_iff ended]
      simp [LikePiece, percent]
    · cases str with
      | nil => simp [LikePiece, percent]
      | cons d str =>
        have inside : d ≠ 0 := (ne_of_not_mem_cons ended).symm
        have one : (∃ piece tail, piece ++ tail = d :: str ∧ LikePiece c piece ∧
            likeMatch pattern tail) ↔ (c = 95 ∨ d = c) ∧ likeMatch pattern str := by
          constructor
          · rintro ⟨_, tail, cut, isAny | ⟨_, rfl, fits⟩, found⟩
            · exact absurd isAny percent
            · cases cut
              exact ⟨fits, found⟩
          · rintro ⟨fits, found⟩
            exact ⟨[d], str, rfl, .inr ⟨d, rfl, fits⟩, found⟩
        rw [one]
        by_cases any : c = 95
        · simp [any, inside]
        · by_cases same : d = c
          · subst same
            simp [any, percent, inside]
          · simp [any, percent, inside, same]

/-- `abc` is like `a%_`. -/
theorem like_with_wildcards :
    ∃ pieces, Forall₂ LikePiece [97, 37, 95] pieces ∧ pieces.flatten = [97, 98, 99] :=
  (likeMatch_iff (by decide) (by decide)).mp (by decide)

end Like

/-! ## One condition -/

/-- The `OP_` codes. -/
inductive WhereOp where
  | eq
  | ne
  | gt
  | lt
  | ge
  | le
  | like
  deriving DecidableEq, Repr

/-- The `logical_op` behind a condition. -/
inductive Connective where
  | and
  | or
  deriving DecidableEq, Repr

/-- The column, operator and value of a `where_condition_t`. -/
structure WhereCondition where
  column : List UInt8
  op : WhereOp
  value : List UInt8
  deriving DecidableEq, Repr

/-- A column character of `parse_single_condition`. -/
def columnChar (c : UInt8) : Bool := !(blank c || c == 61 || c == 33 || c == 60 || c == 62)

/-- A character of a literal without quotes. -/
def literalChar (c : UInt8) : Bool := !(blank c || c == 59)

/-- The operator at the cursor and the text behind it. `LIKE` is not among them. -/
def operatorAt : List UInt8 → Option (WhereOp × List UInt8)
  | 61 :: p => some (.eq, p)
  | 33 :: 61 :: p => some (.ne, p)
  | 60 :: 62 :: p => some (.ne, p)
  | 62 :: 61 :: p => some (.ge, p)
  | 60 :: 61 :: p => some (.le, p)
  | 62 :: p => some (.gt, p)
  | 60 :: p => some (.lt, p)
  | _ => none

/-- The literal at the cursor as it is kept in `value`, and the text behind it. -/
def literalAt : List UInt8 → List UInt8 × List UInt8
  | 39 :: p =>
    let body := scan (· != 39) 253 p
    (39 :: body.1 ++ [39], if body.2.head? = some 39 then body.2.tail else body.2)
  | p => scan literalChar 254 p

def connectiveAt (p : List UInt8) : Option Connective :=
  if strPrefixCi p keywordAnd then some .and
  else if strPrefixCi p keywordOr then some .or
  else none

/-- `parse_single_condition`: the condition, and `logical_op` if `has_next` is set. -/
def parseSingleCondition (clause : List UInt8) : Option (WhereCondition × Option Connective) :=
  let name := scan columnChar 63 (clause.dropWhile blank)
  match operatorAt (name.2.dropWhile blank) with
  | none => none
  | some (op, p) =>
    let literal := literalAt (p.dropWhile blank)
    some (⟨name.1, op, literal.1⟩, connectiveAt (literal.2.dropWhile blank))

/-- `strcmp(name, text) == 0` for a column name, a `char[64]`. -/
def nameIs (name : Chars) (text : List UInt8) : Bool :=
  (List.range text.length).all (fun i => name i == text.getD i 0) && name text.length == 0

def findColumnIndex (table : Table) (name : List UInt8) : Option Nat :=
  (List.range table.colCount).find? fun i => nameIs (table.columns i).name name

/-- The comparison an operator makes with the result of `compare_values`. -/
def WhereOp.holds : WhereOp → Int → Bool
  | .eq, cmp => cmp == 0
  | .ne, cmp => cmp != 0
  | .gt, cmp => decide (cmp > 0)
  | .lt, cmp => decide (cmp < 0)
  | .ge, cmp => decide (cmp ≥ 0)
  | .le, cmp => decide (cmp ≤ 0)
  | .like, _ => false

def evaluateSingleCondition (table : Table) (row : List Cell) (cond : WhereCondition) : Bool :=
  match findColumnIndex table cond.column with
  | none => false
  | some i =>
    let cell := row.getD i nullCell
    let value := parseValue fpu cond.value
    if cond.op = .like then
      if cell.type = fundbTypeText ∧ value.type = fundbTypeText then
        likeMatch (value.value.getD []) (cell.value.getD [])
      else false
    else cond.op.holds (compareValues fpu cell value)

/-! ## A clause -/

/-- The result so far and the result of one more condition; nothing is pending before the
first one. -/
def combine (pending : Option Connective) (result cond : Bool) : Bool :=
  match pending with
  | none => cond
  | some .and => result && cond
  | some .or => result || cond

/-- The step of the outer cursor over the connective. -/
def skipConnective (p : List UInt8) : List UInt8 :=
  if strPrefixCi p keywordAnd then p.drop 3
  else if strPrefixCi p keywordOr then p.drop 2
  else p

/-- The move of the outer cursor behind a condition: one word, blanks, the connective. -/
def advance (p : List UInt8) : List UInt8 :=
  skipConnective ((p.dropWhile fun c => !blank c).dropWhile blank)

/-- The loop of `evaluate_where` with the conditions judged by `eval`. The text gets
shorter in every round, so its length is fuel enough. -/
def whereLoop (eval : WhereCondition → Bool) : Nat → List UInt8 → Option Connective → Bool → Bool
  | 0, _, _, result => result
  | fuel + 1, text, pending, result =>
    let p := text.dropWhile blank
    if p = [] then result
    else
      match parseSingleCondition p with
      | none => result
      | some (cond, none) => combine pending result (eval cond)
      | some (cond, some connective) =>
        whereLoop eval fuel (advance p) (some connective) (combine pending result (eval cond))

def evaluateWhere (clause : List UInt8) : WhereClause := fun table row =>
  if clause = [] then true
  else whereLoop (evaluateSingleCondition fpu table row) clause.length clause none true

end FunsOS.Fundb
