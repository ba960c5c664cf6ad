import FunsOS.Fundb.Sql
import FunsOS.Fundb.Rows

/-!
# SQL text against the direct calls

Four shapes of statements and the calls they stand for. `sql_parse` finds no clause behind
the table name of INSERT, UPDATE and DELETE, since the cursor stands on a blank there, and
no LIMIT behind ORDER BY, since the cursor has not moved over the column. So DELETE with a
clause deletes every row, UPDATE changes none, INSERT stores a row without values and
SELECT returns all the rows it finds.
-/

set_option autoImplicit false

namespace FunsOS.Fundb

open Foundation List UInt8

/-! ## Statements -/

def decimal (n : Nat) : List UInt8 := (Nat.toDigits 10 n).map fun c => ofNat c.toNat

/-- The shapes of statements, with the texts of their clauses. -/
inductive Shape where
  | delete (table whereText : List UInt8)
  | update (table setText whereText : List UInt8)
  | insert (table valueText : List UInt8)
  | select (table whereText orderText : List UInt8) (limit : Nat)

/-- ` ORDER BY c LIMIT n`. -/
def orderLimit (orderText : List UInt8) (limit : Nat) : List UInt8 :=
  32 :: (kwOrderBy ++ (32 :: (orderText ++ (32 :: (kwLimit ++ (32 :: decimal limit))))))

namespace Shape

/-- `DELETE FROM t WHERE w`, `UPDATE t SET s WHERE w`, `INSERT INTO t VALUES (v)` and
`SELECT * FROM t WHERE w ORDER BY c LIMIT n`. -/
def text : Shape → List UInt8
  | delete table whereText =>
    kwDeleteFrom ++ (32 :: (table ++ (32 :: (kwWhere ++ (32 :: whereText)))))
  | update table setText whereText =>
    kwUpdate ++ (32 :: (table ++ (32 :: (kwSet ++ (32 :: (setText ++
      (32 :: (kwWhere ++ (32 :: whereText)))))))))
  | insert table valueText =>
    kwInsertInto ++ (32 :: (table ++ (32 :: (kwValues ++ (32 :: 40 :: (valueText ++ [41]))))))
  | select table whereText orderText limit =>
    kwSelect ++ (32 :: 42 :: 32 :: (kwFrom ++ (32 :: (table ++ (32 :: (kwWhere ++
      (32 :: (whereText ++ orderLimit orderText limit))))))))

/-- The direct call: `fundb_delete(t, w)`, `fundb_update(t, w, row)` and
`fundb_insert(t, row)` with the row parsed from the text, `fundb_select(t, "*", w, c, n)`. -/
def direct (fpu : FloatUnit) (db : Database) : Shape → Outcome
  | delete table whereText =>
    ((fundbDelete db (chars table) (evaluateWhere fpu whereText)).1, none)
  | update table setText whereText =>
    ((findTable db (chars table)).elim db fun t =>
      (fundbUpdate db (chars table) (evaluateWhere fpu whereText)
        (some (parseSetClause fpu (db.tables t) setText))).1, none)
  | insert table valueText =>
    ((findTable db (chars table)).elim db fun t =>
      (fundbInsert db (chars table) (parseValuesList fpu (db.tables t) valueText)).1, none)
  | select table whereText orderText limit =>
    (db, fundbSelect fpu db table [42] whereText orderText limit)

end Shape

/-- A letter, a digit or an underscore. -/
def nameChar (c : UInt8) : Bool := (65 ≤ c && c ≤ 90) || (97 ≤ c && c ≤ 122) || digit c || c == 95

/-- A table name: identifier characters, as many as the engine keeps of a name. -/
structure TableName (table : List UInt8) : Prop where
  chars : ∀ c ∈ table, nameChar c
  nonempty : table ≠ []
  fits : table.length ≤ 63

/-- The words `sql_parse` looks for. -/
def keywords : List (List UInt8) :=
  [kwSelect, kwFrom, kwWhere, kwOrder, kwLimit, kwInsertInto, kwValues, kwUpdate, kwSet,
    kwDeleteFrom, kwCreateTable, kwDropTable]

/-- The text of a clause: no semicolon, no NUL and no keyword in it. -/
structure ClauseText (text : List UInt8) : Prop where
  semicolon : (59 : UInt8) ∉ text
  terminated : (0 : UInt8) ∉ text
  keywords : ∀ keyword ∈ keywords, ∀ rest, rest <:+ text → strPrefixCi rest keyword = false

/-- The clauses of a statement are texts, and there is something to order by. -/
def Shape.Valid : Shape → Prop
  | delete table whereText => TableName table ∧ ClauseText whereText
  | update table setText whereText =>
    TableName table ∧ ClauseText setText ∧ ClauseText whereText
  | insert table valueText => TableName table ∧ ClauseText valueText
  | select table whereText orderText _ =>
    TableName table ∧ ClauseText whereText ∧ ClauseText orderText ∧
      ∃ c ∈ orderText.head?, space c = false

/-! ## What is parsed -/

variable {c : UInt8} {keyword whereText orderText : List UInt8}

theorem nameChar_ident (name : nameChar c) : identChar c ∧ space c = false := by
  have facts : ∀ n < 256, nameChar (UInt8.ofNat n) →
      identChar (ofNat n) ∧ space (ofNat n) = false := by
    decide +kernel
  have value := facts c.toNat (toNat_lt c)
  rw [UInt8.ofNat_toNat] at value
  exact value name

variable {table rest : List UInt8}

/-- The table name behind a keyword, and the text behind the name. -/
theorem TableName.extract (valid : TableName table) :
    extractIdentifier (skipSpaces (32 :: (table ++ 32 :: rest))) = (table, 32 :: rest) := by
  have skipped : skipSpaces (32 :: (table ++ 32 :: rest)) = table ++ 32 :: rest := by
    refine @dropWhile_append_of_stops _ space [32] (table ++ 32 :: rest) (by decide +kernel) ?_
    obtain ⟨c, tail, rfl⟩ := exists_cons_of_ne_nil valid.nonempty
    exact Stops.cons (nameChar_ident (valid.chars c (by simp))).2
  rw [skipped]
  exact scan_append (fun c member => (nameChar_ident (valid.chars c member)).1) valid.fits
    (Stops.cons (by decide))

theorem changeWhere_blank : changeWhere (32 :: rest) = .ok [] := by
  rfl

/-- The WHERE of a DELETE statement is not seen. -/
theorem sqlParse_delete (valid : TableName table) :
    sqlParse (Shape.delete table whereText).text = .ok (.delete table []) := by
  have parsed : sqlParse (Shape.delete table whereText).text =
      parseDelete (skipSpaces (32 :: (table ++ 32 :: (kwWhere ++ 32 :: whereText)))) := rfl
  rw [parsed, parseDelete]
  simp only [valid.extract, changeWhere_blank]
  rfl

/-- Neither SET nor WHERE of an UPDATE statement is seen. -/
theorem sqlParse_update (valid : TableName table) {setText : List UInt8} :
    sqlParse (Shape.update table setText whereText).text = .ok (.update table [] []) := by
  have parsed : sqlParse (Shape.update table setText whereText).text =
      parseUpdate (skipSpaces (32 :: (table ++ 32 :: (kwSet ++ 32 :: (setText ++
        32 :: (kwWhere ++ 32 :: whereText)))))) := rfl
  have unset : ∀ rest, strPrefixCi (32 :: rest) kwSet = false := fun _ => rfl
  rw [parsed, parseUpdate]
  simp only [valid.extract, unset, Bool.false_eq_true, if_false, changeWhere_blank]
  rfl

/-- The values of an INSERT statement are not seen. -/
theorem sqlParse_insert (valid : TableName table) {valueText : List UInt8} :
    sqlParse (Shape.insert table valueText).text = .ok (.insert table []) := by
  have parsed : sqlParse (Shape.insert table valueText).text =
      parseInsert (skipSpaces (32 :: (table ++ 32 :: (kwValues ++ 32 :: 40 ::
        (valueText ++ [41]))))) := rfl
  have unread : ∀ rest, strPrefixCi (32 :: rest) kwValues = false := fun _ => rfl
  rw [parsed, parseInsert]
  simp only [valid.extract, unread, Bool.false_eq_true, if_false]
  rfl

/-- A blank behind a text does not complete a keyword without blanks. -/
theorem strPrefixCi_append_blank (blankFree : ∀ c ∈ keyword, lower c ≠ 32) {text : List UInt8} :
    strPrefixCi (text ++ 32 :: rest) keyword = strPrefixCi text keyword := by
  induction keyword generalizing text with
  | nil => simp [strPrefixCi]
  | cons b keyword ih =>
    have notBlank : lower 32 ≠ lower b := Ne.symm (blankFree b (by simp))
    cases text with
    | nil => simp [strPrefixCi, notBlank]
    | cons a text => simp [strPrefixCi, ih fun c member => blankFree c (by simp [member])]

/-- The WHERE text of a SELECT statement as it is copied: without the white space in front
of it, with the blank in front of ORDER. -/
def spelledWhere (whereText : List UInt8) : List UInt8 :=
  if skipSpaces whereText = [] then [] else skipSpaces whereText ++ [32]

theorem copyUntil_clause {text : List UInt8} (valid : ClauseText text) {part : List UInt8}
    (suffix : part <:+ text) : copyUntil (fun q => strPrefixCi q kwOrder || strPrefixCi q kwLimit)
        (part ++ 32 :: (kwOrderBy ++ rest)) =
      (part ++ [32], kwOrderBy ++ rest) := by
  have order : ∀ c ∈ kwOrder, lower c ≠ 32 := by decide +kernel
  have limit : ∀ c ∈ kwLimit, lower c ≠ 32 := by decide +kernel
  induction part with
  | nil => rfl
  | cons c part ih =>
    have noOrder := valid.keywords kwOrder (by simp [keywords]) (c :: part) suffix
    have noLimit := valid.keywords kwLimit (by simp [keywords]) (c :: part) suffix
    rw [cons_append, copyUntil, ← cons_append,
      strPrefixCi_append_blank order, strPrefixCi_append_blank limit, noOrder, noLimit,
      cons_append, ih ((suffix_cons c part).trans suffix)]
    rfl

theorem selectWhere_text (valid : ClauseText whereText) :
    selectWhere (kwWhere ++ 32 :: (whereText ++ 32 :: (kwOrderBy ++ rest))) =
      (spelledWhere whereText, kwOrderBy ++ rest) := by
  have atOrder : Stops space (kwOrderBy ++ rest) := Stops.cons (by decide)
  show copyUntil _ (skipSpaces (32 :: (whereText ++ 32 :: (kwOrderBy ++ rest)))) = _
  rw [show skipSpaces (32 :: (whereText ++ 32 :: (kwOrderBy ++ rest))) =
    skipSpaces (whereText ++ 32 :: (kwOrderBy ++ rest)) from rfl, spelledWhere]
  by_cases empty : skipSpaces whereText = []
  · have white : ∀ c ∈ whereText ++ [32], space c := by
      intro c member
      obtain inText | isBlank := mem_append.mp member
      · exact dropWhile_eq_nil_iff.mp empty c inText
      · rw [mem_singleton.mp isBlank]
        rfl
    have skipped : skipSpaces (whereText ++ 32 :: (kwOrderBy ++ rest)) = kwOrderBy ++ rest := by
      rw [show whereText ++ 32 :: (kwOrderBy ++ rest) = (whereText ++ [32]) ++ (kwOrderBy ++ rest) by
        simp]
      exact dropWhile_append_of_stops white atOrder
    rw [skipped, if_pos empty]
    rfl
  · have skipped : skipSpaces (whereText ++ 32 :: (kwOrderBy ++ rest)) =
        skipSpaces whereText ++ 32 :: (kwOrderBy ++ rest) := by
      unfold skipSpaces at empty ⊢
      rw [dropWhile_append, if_neg (by simpa using empty)]
    rw [skipped, if_neg empty]
    exact copyUntil_clause valid (dropWhile_suffix space)

/-- The column of ORDER BY is read, and LIMIT is not seen. -/
theorem selectOrder_text (valid : ClauseText orderText)
    (first : ∃ c ∈ orderText.head?, space c = false) :
    selectOrder (kwOrderBy ++ 32 :: (orderText ++ 32 :: rest)) =
        ((extractIdentifier orderText).1, orderText ++ 32 :: rest) ∧
      selectLimit (orderText ++ 32 :: rest) = 0 := by
  have found : strPrefixCi (kwOrderBy ++ 32 :: (orderText ++ 32 :: rest)) kwOrderBy := rfl
  have skipped : skipSpaces (32 :: (orderText ++ 32 :: rest)) = orderText ++ 32 :: rest := by
    refine @dropWhile_append_of_stops _ space [32] _ (by decide +kernel) ?_
    obtain ⟨c, head, notSpace⟩ := first
    obtain ⟨tail, rfl⟩ := head?_eq_some_iff.mp head
    exact Stops.cons notSpace
  constructor
  · rw [selectOrder, if_pos found]
    rw [show (kwOrderBy ++ 32 :: (orderText ++ 32 :: rest)).drop 8 =
      32 :: (orderText ++ 32 :: rest) from rfl, skipped, extractIdentifier, extractIdentifier,
      scan_fst_append (by decide)]
  · rw [selectLimit, strPrefixCi_append_blank (by decide +kernel),
      valid.keywords kwLimit (by simp [keywords]) orderText (suffix_refl _)]
    rfl

/-- What a SELECT statement is parsed as: a trimmed WHERE text if it fits the buffer, the
column of ORDER BY without DESC, and no limit. -/
theorem sqlParse_select (valid : TableName table) (validWhere : ClauseText whereText)
    (validOrder : ClauseText orderText) (first : ∃ c ∈ orderText.head?, space c = false)
    {limit : Nat} : sqlParse (Shape.select table whereText orderText limit).text =
      if (spelledWhere whereText).length ≤ 255 then
        .ok (.select table [42, 32] (spelledWhere whereText) (extractIdentifier orderText).1 0)
      else .error .overrun := by
  obtain ⟨order, noLimit⟩ := selectOrder_text validOrder first
  have parsed : sqlParse (Shape.select table whereText orderText limit).text =
      parseSelect (42 :: 32 :: (kwFrom ++ 32 :: (table ++ 32 :: (kwWhere ++
        32 :: (whereText ++ orderLimit orderText limit))))) := rfl
  have copied : ∀ rest, copyUntil (strPrefixCi · kwFrom) (42 :: 32 :: (kwFrom ++ rest)) =
      ([42, 32], kwFrom ++ rest) := by
    intro rest
    simp [copyUntil, kwFrom, strPrefixCi, lower]
  have behind : ∀ rest, skipSpaces (32 :: (kwWhere ++ rest)) = kwWhere ++ rest := fun _ => rfl
  have found : ∀ rest, strPrefixCi (kwFrom ++ rest) kwFrom := strPrefixCi_append kwFrom
  have dropped : ∀ rest : List UInt8, (kwFrom ++ rest).drop 4 = rest := fun _ => rfl
  rw [parsed, parseSelect]
  simp only [copied, found, dropped, if_true, valid.extract, behind]
  rw [orderLimit, selectWhere_text validWhere, order, noLimit]
  by_cases fits : (spelledWhere whereText).length ≤ 255
  · rw [if_pos fits, buffered, buffered, if_pos fits]
    rfl
  · rw [if_neg fits, buffered, buffered, if_neg fits]
    rfl

end FunsOS.Fundb
