import FunsOS.Fundb.Clauses

/-!
# Layouts of where clauses that are misread

For every layout that is not readable there is a clause, a table and a row for which
`evaluate_where` does not return the fold of the condition results. The table has two text
columns, and the clause joins conditions by AND that are all true, except that the last
one may be false. Where the loop ends early it misses the false condition; where it takes
up a condition at its operator it reads a condition on a column without a name, which is
false, and never recovers.
-/

set_option autoImplicit false

namespace FunsOS.Fundb

open Foundation Clause Stops
open List hiding after

/-! ## Where the parser and the cursor get stuck -/

variable {c : UInt8} {s : Spelling}

theorem operatorAt_of_columnChar (column : columnChar c) {rest : List UInt8} :
    operatorAt (c :: rest) = none := by
  simp only [columnChar, Bool.not_eq_true', Bool.or_eq_false_iff, beq_eq_false_iff_ne] at column
  obtain ⟨⟨⟨⟨-, notEq⟩, notBang⟩, notLt⟩, notGt⟩ := column
  simp [operatorAt, notEq, notBang, notLt, notGt]

/-- A word and, behind blanks, something that is no operator. -/
structure Stuck (word gap rest : List UInt8) (c : UInt8) : Prop where
  chars : ∀ d ∈ word, columnChar d
  nonempty : word ≠ []
  fits : word.length ≤ 63
  blanks : ∀ d ∈ gap, blank d
  apart : gap ≠ []
  column : columnChar c

namespace Stuck

variable {word gap rest : List UInt8} (stuck : Stuck word gap rest c)
include stuck

theorem stops : Stops blank (word ++ (gap ++ c :: rest)) := by
  obtain ⟨d, tail, rfl⟩ := exists_cons_of_ne_nil stuck.nonempty
  exact cons (not_blank_of_columnChar (stuck.chars d (by simp)))

/-- The parser fails there. -/
theorem parse : parseSingleCondition (word ++ (gap ++ c :: rest)) = none := by
  have named : Stops columnChar (gap ++ c :: rest) := by
    obtain ⟨d, tail, rfl⟩ := exists_cons_of_ne_nil stuck.apart
    exact cons (blank_not_operator (stuck.blanks d (by simp))).2.2
  have behind : (gap ++ c :: rest).dropWhile blank = c :: rest :=
    dropWhile_append_of_stops stuck.blanks (cons (not_blank_of_columnChar stuck.column))
  simp only [parseSingleCondition, dropWhile_of_stops stuck.stops,
    scan_append stuck.chars stuck.fits named, behind, operatorAt_of_columnChar stuck.column]

/-- The loop ends there with the result it has. -/
theorem ends (eval : WhereCondition → Bool) (pending : Option Connective) (result : Bool) :
    whereFrom eval (word ++ (gap ++ c :: rest)) pending result = result :=
  whereFrom_error eval pending result stuck.stops (by simp [stuck.nonempty]) stuck.parse

end Stuck

/-- The outer cursor stops behind the first blanks when no connective stands there. -/
theorem advance_gap {word gap rest : List UInt8} (blankFree : ∀ d ∈ word, blank d = false)
    (blanks : ∀ d ∈ gap, blank d) (apart : gap ≠ []) (notBlank : blank c = false)
    (notAnd : lower c ≠ 97) (notOr : lower c ≠ 111) :
    advance (word ++ (gap ++ c :: rest)) = c :: rest := by
  have atBlank : AtBlank (gap ++ c :: rest) := by
    obtain ⟨d, tail, rfl⟩ := exists_cons_of_ne_nil apart
    exact cons (by simp [blanks d (by simp)])
  have skipped : (word ++ (gap ++ c :: rest)).dropWhile (fun d => !blank d) = gap ++ c :: rest :=
    dropWhile_append_of_stops (fun d member => by simp [blankFree d member]) atBlank
  have behind : (gap ++ c :: rest).dropWhile blank = c :: rest :=
    dropWhile_append_of_stops blanks (cons notBlank)
  rw [advance, skipped, behind, skipConnective, if_neg, if_neg]
  · rw [show keywordOr = 79 :: [82] from rfl, strPrefixCi_of_head notOr]
    exact Bool.false_ne_true
  · rw [show keywordAnd = 65 :: [78, 68] from rfl, strPrefixCi_of_head notAnd]
    exact Bool.false_ne_true

/-! ## Without OR a false result stays false -/

/-- No text behind any position reads OR. -/
def NoOr (text : List UInt8) : Prop := ∀ c ∈ text, lower c ≠ 111

/-- A blank is neither a NUL nor the start of OR. -/
theorem blank_chars (isBlank : blank c) : c ≠ 0 ∧ lower c ≠ 111 := by
  simp only [blank, Bool.or_eq_true, beq_iff_eq] at isBlank
  obtain rfl | rfl := isBlank <;> decide

variable {text : List UInt8} {eval : WhereCondition → Bool} {connective : Connective}
  {clause : Clause}

theorem NoOr.of_suffix {rest : List UInt8} (noOr : NoOr text) (suffix : rest <:+ text) :
    NoOr rest :=
  fun c member => noOr c (suffix.subset member)

theorem operatorAt_suffix {rest : List UInt8} {op : WhereOp}
    (found : operatorAt text = some (op, rest)) : rest <:+ text := by
  have two : ∀ (a b : UInt8) (p : List UInt8), p <:+ a :: b :: p :=
    fun a b p => (suffix_cons b p).trans (suffix_cons a (b :: p))
  unfold operatorAt at found
  split at found
  case h_8 => cases found
  all_goals
    obtain ⟨rfl, rfl⟩ := Prod.mk.inj (Option.some.inj found)
    first
    | exact suffix_cons _ _
    | exact two _ _ _

theorem literalAt_suffix : (literalAt text).2 <:+ text := by
  unfold literalAt
  split
  · have body := scan_suffix (fun c : UInt8 => c != 39) 253
    dsimp only
    split
    · exact ((tail_suffix _).trans (body _)).trans (suffix_cons _ _)
    · exact (body _).trans (suffix_cons _ _)
  · exact scan_suffix literalChar 254 _

theorem connectiveAt_noOr (noOr : NoOr text) (found : connectiveAt text = some connective) :
    connective = .and := by
  unfold connectiveAt at found
  split_ifs at found with isAnd isOr
  · exact (Option.some.inj found).symm
  · cases text with
    | nil => simp [strPrefixCi, keywordOr] at isOr
    | cons c text =>
      have notOr := noOr c (by simp)
      rw [show keywordOr = 79 :: [82] from rfl, strPrefixCi_of_head notOr] at isOr
      exact absurd isOr Bool.false_ne_true

theorem parse_noOr (noOr : NoOr text) {cond : WhereCondition}
    (parsed : parseSingleCondition text = some (cond, some connective)) : connective = .and := by
  unfold parseSingleCondition at parsed
  dsimp only at parsed
  split at parsed
  · cases parsed
  · rename_i op p found
    have next := (Prod.mk.inj (Option.some.inj parsed)).2
    have atOperator : p <:+ text :=
      (((operatorAt_suffix found).trans (dropWhile_suffix _)).trans
        (scan_suffix _ _ _)).trans (dropWhile_suffix _)
    have behind : (literalAt (p.dropWhile blank)).2.dropWhile blank <:+ p :=
      ((dropWhile_suffix _).trans literalAt_suffix).trans (dropWhile_suffix _)
    exact connectiveAt_noOr (noOr.of_suffix (behind.trans atOperator)) next

theorem advance_suffix {p : List UInt8} : advance p <:+ p := by
  have connective : ∀ q : List UInt8, skipConnective q <:+ q := by
    intro q
    unfold skipConnective
    split_ifs
    · exact drop_suffix _ _
    · exact drop_suffix _ _
    · exact suffix_refl _
  exact ((connective _).trans (dropWhile_suffix _)).trans (dropWhile_suffix _)

/-- Once false, a clause without OR stays false, whatever else the loop reads. -/
theorem whereLoop_false {fuel : Nat} (noOr : NoOr text) :
    whereLoop eval fuel text (some .and) false = false := by
  induction fuel generalizing text with
  | zero => rfl
  | succ fuel ih =>
    have noOr' := noOr.of_suffix (dropWhile_suffix blank)
    simp only [whereLoop]
    split_ifs
    · rfl
    · split
      · rfl
      · rfl
      · rename_i cond connective parsed
        obtain rfl := parse_noOr noOr' parsed
        exact ih (noOr'.of_suffix advance_suffix)

/-! ## A clause for every layout -/

/-- What a spelling has to satisfy so that a condition can be written with it. -/
structure Spelling.Valid (s : Spelling) : Prop where
  before : ∀ c ∈ s.before, blank c
  after : ∀ c ∈ s.after, blank c
  quoted : s.spaced → s.isQuoted
  like : s.operator = .like → s.before ≠ [] ∧ (s.after ≠ [] ∨ s.isQuoted)

theorem Written.Valid.spelling {w : Written} (valid : w.Valid) : w.spelling.Valid where
  before := valid.before
  after := valid.after
  quoted := by
    intro spaced
    dsimp only [Written.spelling] at spaced ⊢
    cases given : w.literal with
    | bare text =>
      rw [given] at spaced
      exact spaced
    | quoted body => rfl
  like := valid.like

/-- A character that makes a condition true when the cell holds an `m`. -/
def sampleChar : Operator → UInt8
  | .bangEq | .ltGt | .gt => 107
  | .lt => 112
  | _ => 109

def sampleLiteral (s : Spelling) : Literal :=
  let c := sampleChar s.operator
  if s.isQuoted then .quoted (if s.spaced then [c, 32, c] else [c]) else .bare [c]

/-- A column of the table below, or one it does not have. -/
def sampleColumn (truth spaced : Bool) : List UInt8 :=
  if truth then (if spaced then [98] else [97]) else [122]

/-- A condition with the given spelling that is true or false of `sampleRow`. -/
def sample (truth : Bool) (s : Spelling) : Written where
  column := sampleColumn truth s.spaced
  before := s.before
  operator := s.operator
  after := s.after
  literal := sampleLiteral s

def sampleTable : Table where
  name := chars [116]
  columns := fun i => ⟨chars (if i = 0 then [97] else [98]), fundbTypeText, 8, 0, 0, 0, 0⟩
  colCount := 2
  rows := fun _ => 0
  rowCount := 1
  nextAutoId := 1
  dirty := false

def sampleRow : List Cell :=
  [⟨fundbTypeText, 2, some [109, 0]⟩, ⟨fundbTypeText, 4, some [109, 32, 109, 0]⟩]

/-- Whether a condition holds of that row. -/
abbrev evalSample (fpu : FloatUnit) : WhereCondition → Bool :=
  evaluateSingleCondition fpu sampleTable sampleRow

theorem eval_sample (fpu : FloatUnit) (valid : s.Valid) (truth : Bool) :
    evalSample fpu (sample truth s).condition = truth := by
  obtain ⟨before, operator, after, isQuoted, spaced⟩ := s
  have quoted := valid.quoted
  cases truth with
  | false => rfl
  | true => cases operator <;> cases isQuoted <;> cases spaced <;> first | rfl | simp at quoted

theorem sampleColumn_facts {truth spaced : Bool} :
    (∀ c ∈ sampleColumn truth spaced, columnChar c ∧ c ≠ 0 ∧ lower c ≠ 111) ∧
      sampleColumn truth spaced ≠ [] ∧ (sampleColumn truth spaced).length ≤ 63 := by
  cases truth <;> cases spaced <;> decide +kernel

theorem sampleChar_facts {operator : Operator} :
    literalChar (sampleChar operator) ∧ columnChar (sampleChar operator) ∧
      lower (sampleChar operator) ≠ 97 ∧ lower (sampleChar operator) ≠ 111 ∧
      sampleChar operator ≠ 0 ∧ sampleChar operator ≠ 39 ∧ sampleChar operator ≠ 61 ∧
      sampleChar operator ≠ 62 := by
  cases operator <;> decide

theorem sample_spelling (valid : s.Valid) {truth : Bool} : (sample truth s).spelling = s := by
  obtain ⟨before, operator, after, isQuoted, spaced⟩ := s
  have quoted := valid.quoted
  cases operator <;> cases isQuoted <;> cases spaced <;> first | rfl | simp at quoted

theorem sampleLiteral_valid : (sampleLiteral s).Valid := by
  obtain ⟨literal, -, -, -, -, notQuote, notEq, notGt⟩ := sampleChar_facts
  unfold sampleLiteral
  split
  · split
    · refine ⟨?_, by simp⟩
      intro c member
      simp only [mem_cons, not_mem_nil, or_false] at member
      obtain rfl | rfl | rfl := member
      · exact notQuote
      · decide
      · exact notQuote
    · refine ⟨?_, by simp⟩
      intro c member
      obtain rfl := mem_singleton.mp member
      exact notQuote
  · refine ⟨?_, by simp, _, rfl, notQuote, notEq, notGt⟩
    intro c member
    obtain rfl := mem_singleton.mp member
    exact literal

/-- The characters of a sample: none is a NUL, none is an `o`. -/
theorem sample_chars (valid : s.Valid) (truth : Bool) :
    ∀ c ∈ (sample truth s).text, c ≠ 0 ∧ lower c ≠ 111 := by
  have operator : ∀ c ∈ s.operator.text, c ≠ 0 ∧ lower c ≠ 111 := by
    cases s.operator <;> decide +kernel
  have literal : ∀ c ∈ (sampleLiteral s).text, c ≠ 0 ∧ lower c ≠ 111 := by
    unfold sampleLiteral
    cases s.operator <;> cases s.isQuoted <;> cases s.spaced <;> decide +kernel
  intro c member
  simp only [Written.text, mem_append] at member
  obtain inColumn | inBefore | inOperator | inAfter | inLiteral := member
  · exact (sampleColumn_facts.1 c inColumn).2
  · exact blank_chars (valid.before c inBefore)
  · exact operator c inOperator
  · exact blank_chars (valid.after c inAfter)
  · exact literal c inLiteral

theorem sample_valid (valid : s.Valid) (truth : Bool) : (sample truth s).Valid where
  column := fun c member => (sampleColumn_facts.1 c member).1
  named := sampleColumn_facts.2.1
  fits := sampleColumn_facts.2.2
  before := valid.before
  after := valid.after
  literal := sampleLiteral_valid
  terminated := fun member => (sample_chars valid truth 0 member).1 rfl
  like := by
    intro like
    have quoted : (sampleLiteral s).isQuoted = s.isQuoted := by
      unfold sampleLiteral
      cases s.isQuoted <;> rfl
    show s.before ≠ [] ∧ (s.after ≠ [] ∨ (sampleLiteral s).isQuoted)
    rw [quoted]
    exact valid.like like

theorem sample_word (valid : s.Valid) (truth : Bool) :
    ∀ d ∈ (sample truth s).column ++ s.operator.text, blank d = false := by
  intro d member
  obtain inColumn | inOperator := mem_append.mp member
  · exact not_blank_of_columnChar ((sample_valid valid truth).column d inColumn)
  · exact Operator.blank_free d inOperator

theorem sampleLiteral_head (s : Spelling) (tail : List UInt8) :
    ∃ c rest, (sampleLiteral s).text ++ tail = c :: rest ∧ blank c = false ∧ lower c ≠ 97 ∧
      lower c ≠ 111 := by
  unfold sampleLiteral
  cases s.operator <;> cases s.isQuoted <;> exact ⟨_, _, rfl, by decide, by decide, by decide⟩

/-! ## AND behind a sample -/

section And

variable {j : Joint} (joint : j.Valid) (isAnd : j.connective = .and) {tail : List UInt8}

theorem Joint.text_and (isAnd : j.connective = .and) :
    j.text ++ tail = j.before ++ 65 :: ([78, 68] ++ (j.after ++ tail)) := by
  simp [Joint.text, isAnd, Joint.keyword, keywordAnd]

include joint isAnd

theorem stuck_and (word : List UInt8) (chars : ∀ d ∈ word, columnChar d)
    (nonempty : word ≠ []) (fits : word.length ≤ 63) (tail : List UInt8)
    (eval : WhereCondition → Bool) (pending : Option Connective) (result : Bool) :
    whereFrom eval (word ++ (j.text ++ tail)) pending result = result := by
  rw [Joint.text_and isAnd]
  have stuck : Stuck word j.before ([78, 68] ++ (j.after ++ tail)) 65 :=
    ⟨chars, nonempty, fits, joint.before, joint.apart, by decide⟩
  exact stuck.ends eval pending result

/-- The loop ends at a literal. -/
theorem stuck_literal {pending : Option Connective} {result : Bool} :
    whereFrom eval ((sampleLiteral s).text ++ (j.text ++ tail)) pending result = result := by
  obtain ⟨-, column, -⟩ := sampleChar_facts
  have quote : columnChar 39 := by decide
  unfold sampleLiteral
  split
  · split
    · have stuck : Stuck [39, sampleChar s.operator] [32] (39 :: (j.text ++ tail))
          (sampleChar s.operator) :=
        ⟨by simp [column, quote], by simp, by simp, by decide +kernel, by simp, column⟩
      exact stuck.ends eval pending result
    · exact stuck_and joint isAnd [39, sampleChar s.operator, 39]
        (by simp [column, quote]) (by simp) (by simp) tail eval pending result
  · exact stuck_and joint isAnd [sampleChar s.operator] (by simpa using column)
      (by simp) (by simp) tail eval pending result

theorem Joint.noOr (noOr : NoOr tail) : NoOr (j.text ++ tail) := by
  have keyword : ∀ c ∈ keywordAnd, lower c ≠ 111 := by decide +kernel
  intro c member
  simp only [Joint.text, isAnd, Joint.keyword, mem_append] at member
  obtain (inBefore | inKeyword | inAfter) | inTail := member
  · exact (blank_chars (joint.before c inBefore)).2
  · exact keyword c inKeyword
  · exact (blank_chars (joint.after c inAfter)).2
  · exact noOr c inTail

end And

/-! ## How each kind of condition is misread -/

section Misread

variable (fpu : FloatUnit) (valid : s.Valid) (pending : Option Connective)
include valid

theorem like_ends (like : s.operator = .like) (truth : Bool) (tail : List UInt8) :
    whereFrom (evalSample fpu) ((sample truth s).text ++ tail) pending true := by
  have written := sample_valid valid truth
  have stuck : Stuck (sample truth s).column s.before
      ([73, 75, 69] ++ (s.after ++ ((sampleLiteral s).text ++ tail))) 76 :=
    ⟨written.column, written.named, written.fits, valid.before, (valid.like like).1, by decide⟩
  have ends := stuck.ends (evalSample fpu) pending true
  simpa [Written.text, sample, like, Operator.text, keywordLike] using ends

variable (known : s.operator ≠ .like) {j : Joint} (joint : j.Valid) (isAnd : j.connective = .and)
  (tail : List UInt8)
include known joint isAnd

/-- Any other condition is read, and the loop goes on with its own cursor. -/
theorem sample_read :
    whereFrom (evalSample fpu) ((sample true s).text ++ (j.text ++ tail)) pending true =
      whereFrom (evalSample fpu) (advance ((sample true s).text ++ (j.text ++ tail)))
        (some .and) true := by
  have written := sample_valid valid true
  obtain ⟨stops, nonempty⟩ := Written.stops_blank written (j.text ++ tail)
  have parsed := Written.parse written known (Joint.atBlank joint tail)
  rw [Joint.connectiveAt_text joint, isAnd] at parsed
  rw [whereFrom_next _ pending true stops nonempty parsed, eval_sample fpu valid true]
  cases pending with
  | none => rfl
  | some connective => cases connective <;> rfl

/-- Blanks behind the operator: the cursor stops at the literal, and the loop ends. -/
theorem after_ends (before : s.before = []) (after : s.after ≠ []) :
    whereFrom (evalSample fpu) ((sample true s).text ++ (j.text ++ tail)) pending true := by
  obtain ⟨c, rest, atLiteral, notBlank, notAnd, notOr⟩ := sampleLiteral_head s (j.text ++ tail)
  have moved := @advance_gap c _ s.after rest (sample_word valid true) valid.after after notBlank
    notAnd notOr
  have text : (sample true s).text ++ (j.text ++ tail) =
      (sample true s).column ++ s.operator.text ++ (s.after ++ c :: rest) := by
    rw [← atLiteral]
    simp [Written.text, sample, before]
  rw [sample_read fpu valid pending known joint isAnd, text, moved, ← atLiteral]
  exact stuck_literal joint isAnd

/-- Blanks in the literal: the cursor stops inside it, and the loop ends. -/
theorem spaced_ends (before : s.before = []) (after : s.after = []) (spaced : s.spaced) :
    whereFrom (evalSample fpu) ((sample true s).text ++ (j.text ++ tail)) pending true := by
  obtain ⟨literal, column, notAnd, notOr, -⟩ := sampleChar_facts
  have blankFree : ∀ d ∈ (sample true s).column ++ s.operator.text ++
      [39, sampleChar s.operator], blank d = false := by
    intro d member
    obtain inWord | inLiteral := mem_append.mp member
    · exact sample_word valid true d inWord
    · simp only [mem_cons, not_mem_nil, or_false] at inLiteral
      obtain rfl | rfl := inLiteral
      · decide
      · exact not_blank_of_columnChar column
  have moved := @advance_gap (sampleChar s.operator) _ [32] (39 :: (j.text ++ tail)) blankFree
    (by decide +kernel) (by simp) (not_blank_of_columnChar column) notAnd notOr
  have text : (sample true s).text ++ (j.text ++ tail) =
      (sample true s).column ++ s.operator.text ++ [39, sampleChar s.operator] ++
        ([32] ++ sampleChar s.operator :: 39 :: (j.text ++ tail)) := by
    simp [Written.text, sample, sampleLiteral, Literal.text, before, after, spaced,
      valid.quoted spaced]
  rw [sample_read fpu valid pending known joint isAnd, text, moved]
  exact stuck_and joint isAnd [sampleChar s.operator, 39]
    (by simp [column, show columnChar 39 by decide]) (by simp) (by simp) tail _ _ _

/-- Blanks before the operator: the cursor stops at the operator, and the loop reads a
condition on a column without a name. -/
theorem before_false (before : s.before ≠ []) (noOr : NoOr tail) :
    whereFrom (evalSample fpu) ((sample true s).text ++ (j.text ++ tail)) pending true = false := by
  have written := sample_valid valid true
  obtain ⟨c, rest, atOperator, -, notBlank, notAnd, notOr⟩ := Operator.text_head known
    (s.after ++ ((sampleLiteral s).text ++ (j.text ++ tail)))
  have blankFree : ∀ d ∈ (sample true s).column, blank d = false :=
    fun d member => not_blank_of_columnChar (written.column d member)
  have moved := @advance_gap c _ s.before rest blankFree valid.before before notBlank notAnd notOr
  have text : (sample true s).text ++ (j.text ++ tail) =
      (sample true s).column ++ (s.before ++ c :: rest) := by
    rw [← atOperator]
    simp [Written.text, sample]
  have parsed := @parse_parts s.operator (j.text ++ tail) (sampleLiteral s) [] [] s.after
    (by simp) (by simp) (fun _ => rfl) (by simp) known valid.after sampleLiteral_valid
    (Joint.atBlank joint tail)
  rw [Joint.connectiveAt_text joint, isAnd, atOperator] at parsed
  have quiet : NoOr (c :: rest) := by
    have whole : NoOr ((sample true s).text ++ (j.text ++ tail)) := by
      intro d member
      obtain inSample | inJoint := mem_append.mp member
      · exact (sample_chars valid true d inSample).2
      · exact Joint.noOr joint isAnd noOr d inJoint
    rw [text] at whole
    exact whole.of_suffix ((suffix_append _ _).trans (suffix_append _ _))
  rw [sample_read fpu valid pending known joint isAnd, text, moved,
    whereFrom_next _ _ _ (cons notBlank) (by simp) parsed]
  exact whereLoop_false (quiet.of_suffix advance_suffix)

end Misread

/-! ## The clause of a layout -/

/-- The conditions behind the first one, joined by AND; the last one has the given truth. -/
def sampleRest (truth : Bool) : List (List UInt8 × List UInt8 × Spelling) → List (Joint × Written)
  | [] => []
  | (before, after, s) :: rest =>
    (⟨before, .and, after⟩, sample (truth || !rest.isEmpty) s) :: sampleRest truth rest

def sampleClause (truth : Bool) (layout : Layout) : Clause :=
  ⟨sample (truth || !layout.rest.isEmpty) layout.first, sampleRest truth layout.rest⟩

/-- The blanks around a connective and the spelling of the condition behind it. -/
def PartValid (part : List UInt8 × List UInt8 × Spelling) : Prop :=
  (⟨part.1, .and, part.2.1⟩ : Joint).Valid ∧ part.2.2.Valid

section SampleRest

variable (truth : Bool) {rest : List (List UInt8 × List UInt8 × Spelling)}
  (valid : ∀ part ∈ rest, PartValid part)
include valid

theorem sampleRest_valid : ∀ part ∈ sampleRest truth rest, part.1.Valid ∧ part.2.Valid := by
  induction rest with
  | nil => simp [sampleRest]
  | cons part rest ih =>
    obtain ⟨⟨joint, spelled⟩, validRest⟩ := forall_mem_cons.mp valid
    exact forall_mem_cons.mpr ⟨⟨joint, sample_valid spelled _⟩, ih validRest⟩

theorem sampleRest_layout :
    (sampleRest truth rest).map
      (fun part => (part.1.before, part.1.after, part.2.spelling)) = rest := by
  induction rest with
  | nil => rfl
  | cons part rest ih =>
    obtain ⟨⟨-, spelled⟩, validRest⟩ := forall_mem_cons.mp valid
    simp only [sampleRest, map_cons, sample_spelling spelled, ih validRest]

theorem sampleRest_noOr (spelled : s.Valid) (here : Bool) :
    NoOr (textFrom (sample here s) (sampleRest truth rest)) := by
  induction rest generalizing s here with
  | nil => exact fun c member => (sample_chars spelled here c member).2
  | cons part rest ih =>
    obtain ⟨⟨joint, spelledNext⟩, validRest⟩ := forall_mem_cons.mp valid
    have behind := Joint.noOr joint rfl (ih validRest spelledNext (truth || !rest.isEmpty))
    intro c member
    obtain inSample | inRest := mem_append.mp member
    · exact (sample_chars spelled here c inSample).2
    · exact behind c inRest

theorem sampleRest_meaning (fpu : FloatUnit) :
    (sampleRest truth rest).foldl (fun result part =>
        combine (some part.1.connective) result (evalSample fpu part.2.condition))
      (truth || !rest.isEmpty) = truth := by
  induction rest with
  | nil => simp [sampleRest]
  | cons part rest ih =>
    obtain ⟨⟨-, spelled⟩, validRest⟩ := forall_mem_cons.mp valid
    simp only [sampleRest, foldl_cons, eval_sample fpu spelled]
    simpa [combine] using ih validRest

theorem sampleRest_misread {fpu : FloatUnit} (spelled : s.Valid)
    (unreadable : ¬ Layout.ReadableFrom s rest) : ∃ truth, ∀ pending, whereFrom (evalSample fpu)
      (textFrom (sample (truth || !rest.isEmpty) s) (sampleRest truth rest)) pending true =
        !truth := by
  -- Induction over the conditions behind this one: the first that is not a known operator in
  -- one word decides which of the two clauses shows it.
  induction rest generalizing s with
  | nil =>
    have like : s.operator = .like := not_not.mp unreadable
    refine ⟨false, fun pending => ?_⟩
    have ends := like_ends fpu spelled pending like false []
    rwa [append_nil] at ends
  | cons part rest ih =>
    obtain ⟨before, after, next⟩ := part
    obtain ⟨⟨joint, spelledNext⟩, validRest⟩ := forall_mem_cons.mp valid
    by_cases like : s.operator = .like
    · exact ⟨false, fun pending => like_ends fpu spelled pending like _ _⟩
    by_cases noBefore : s.before = []
    · by_cases noAfter : s.after = []
      · cases spaced : s.spaced with
        | true =>
          exact ⟨false, fun pending =>
            spaced_ends fpu spelled pending like joint rfl _ noBefore noAfter spaced⟩
        | false =>
          have oneWord : s.OneWord := ⟨noBefore, noAfter, spaced⟩
          obtain ⟨truth, misread⟩ := ih validRest spelledNext
            (fun readable => unreadable ⟨like, oneWord, readable⟩)
          refine ⟨truth, fun pending => ?_⟩
          have written := sample_valid spelled true
          have moved := Joint.advance_word joint
            (Written.blank_free written (by rw [sample_spelling spelled]; exact oneWord))
            (textFrom (sample (truth || !rest.isEmpty) next) (sampleRest truth rest))
          have read := sample_read fpu spelled pending like joint rfl
            (textFrom (sample (truth || !rest.isEmpty) next) (sampleRest truth rest))
          rw [moved, whereFrom_gap _ _ _ joint.after, misread] at read
          simpa [sampleRest, textFrom] using read
      · exact ⟨false, fun pending =>
          after_ends fpu spelled pending like joint rfl _ noBefore noAfter⟩
    · exact ⟨true, fun pending => before_false fpu spelled pending like joint rfl _ noBefore
        (sampleRest_noOr true validRest spelledNext _)⟩

end SampleRest

/-! ## The clauses that are evaluated as written -/

theorem evaluateWhere_eq {fpu : FloatUnit} (valid : clause.Valid) {table : Table}
    {row : List Cell} : evaluateWhere fpu clause.text table row =
      whereFrom (evaluateSingleCondition fpu table row) clause.text none true := by
  have nonempty : clause.text ≠ [] := by
    rw [text]
    cases clause.rest with
    | nil => simpa [textFrom] using (Written.stops_blank valid.first []).2
    | cons part rest => exact (Written.stops_blank valid.first _).2
  exact if_neg nonempty

theorem Clause.Valid.parts (valid : clause.Valid) :
    ∀ part ∈ clause.layout.rest, PartValid part := by
  intro part member
  obtain ⟨⟨j, w⟩, inside, rfl⟩ := mem_map.mp member
  obtain ⟨joint, written⟩ := valid.rest (j, w) inside
  exact ⟨⟨joint.before, joint.apart, joint.after, joint.apart'⟩, written.spelling⟩

/-- **Where clauses.** For a layout of conditions: on every clause written in it, every
table and every row, `evaluate_where` returns the fold of the condition results from the
left, exactly when no operator is LIKE and every condition but the last is written as one
word, with no blank around its operator or in its literal. -/
theorem clauses_evaluated_iff_readable (fpu : FloatUnit) (clause : Clause) (valid : clause.Valid) :
    (∀ other : Clause, other.Valid → other.layout = clause.layout → ∀ table row,
      evaluateWhere fpu other.text table row =
        other.meaning (evaluateSingleCondition fpu table row)) ↔ clause.layout.Readable := by
  constructor
  · intro evaluated
    by_contra unreadable
    obtain ⟨truth, misread⟩ := sampleRest_misread valid.parts valid.first.spelling unreadable
    have written : (sampleClause truth clause.layout).Valid :=
      ⟨sample_valid valid.first.spelling _, sampleRest_valid truth valid.parts⟩
    have laidOut : (sampleClause truth clause.layout).layout = clause.layout := by
      simp only [sampleClause, layout, sample_spelling valid.first.spelling]
      exact congrArg (Layout.mk _) (sampleRest_layout truth valid.parts)
    have meant : (sampleClause truth clause.layout).meaning (evalSample fpu) = truth := by
      have first := eval_sample fpu valid.first.spelling (truth || !clause.layout.rest.isEmpty)
      have meaning := sampleRest_meaning truth valid.parts fpu
      rwa [← first] at meaning
    have agreed := evaluated _ written laidOut sampleTable sampleRow
    rw [evaluateWhere_eq written, meant] at agreed
    exact absurd ((misread none).symm.trans agreed) (by cases truth <;> decide)
  · intro readable other written laidOut table row
    rw [evaluateWhere_eq written]
    have read := whereFrom_readable (evaluateSingleCondition fpu table row) written.first
      written.rest (by rw [← laidOut] at readable; exact readable) none true
    exact read

/-- `a='m' AND b = 'm m'`. -/
def tightClause : Clause where
  first := ⟨[97], [], .eq, [], .quoted [109]⟩
  rest := [(⟨[32], .and, [32]⟩, ⟨[98], [32], .eq, [32], .quoted [109, 32, 109]⟩)]

theorem tightClause_evaluated :
    tightClause.Valid ∧ tightClause.layout.Readable ∧
      evaluateWhere noFloats tightClause.text sampleTable sampleRow =
        tightClause.meaning (evaluateSingleCondition noFloats sampleTable sampleRow) := by
  have first : tightClause.first.Valid :=
    ⟨by decide +kernel, by decide, by decide, by decide +kernel, by decide +kernel,
      ⟨by decide +kernel, by decide⟩, by decide, by decide⟩
  have second : (⟨[98], [32], .eq, [32], .quoted [109, 32, 109]⟩ : Written).Valid :=
    ⟨by decide +kernel, by decide, by decide, by decide +kernel, by decide +kernel,
      ⟨by decide +kernel, by decide⟩, by decide, by decide⟩
  have joint : (⟨[32], .and, [32]⟩ : Joint).Valid :=
    ⟨by decide +kernel, by decide, by decide +kernel, by decide⟩
  have valid : tightClause.Valid :=
    ⟨first, fun part member => by obtain rfl := mem_singleton.mp member; exact ⟨joint, second⟩⟩
  have readable : tightClause.layout.Readable := ⟨by decide, ⟨rfl, rfl, rfl⟩, nofun⟩
  exact ⟨valid, readable, (clauses_evaluated_iff_readable noFloats tightClause valid).mpr readable
    tightClause valid rfl sampleTable sampleRow⟩

/-- `a = 'm' AND b = 'm m'`, with blanks around the operator of the first condition. -/
def spacedClause : Clause where
  first := ⟨[97], [32], .eq, [32], .quoted [109]⟩
  rest := [(⟨[32], .and, [32]⟩, ⟨[98], [32], .eq, [32], .quoted [109, 32, 109]⟩)]

/-- Both conditions hold of the row `m`, `m m`, but the row is not selected: behind `a`
the loop reads the condition `= 'm'` on a column without a name. -/
theorem spaced_clause_misread :
    evaluateWhere noFloats spacedClause.text sampleTable sampleRow = false ∧
      spacedClause.meaning (evaluateSingleCondition noFloats sampleTable sampleRow) := by
  decide +kernel

end FunsOS.Fundb
