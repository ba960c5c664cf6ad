import Mathlib.Data.List.Basic

/-!
# Write-back caches

A cache in front of a backing store: for some keys a line with a value and a dirty mark, for
every key a value in the store. What a client sees of a key is the value of its line, or of
the store if there is no line.

The cache is coherent if lines that are not dirty have the value of the store. Filling a line
from the store, writing a line back and dropping a line that is not dirty keep a coherent
cache coherent and change nothing that a client sees; storing a value changes the key it is
stored for. In a coherent cache without dirty lines the store has what the client sees.
-/

set_option autoImplicit false

namespace FunsOS.Foundation

open Function

universe u v

variable {Key : Type u} [DecidableEq Key] {Value : Type v}

/-- The lines with their dirty marks, and the backing store. -/
@[ext]
structure WriteBack (Key : Type u) (Value : Type v) where
  lines : Key → Option (Value × Bool)
  backing : Key → Value

namespace WriteBack

variable {c : WriteBack Key Value} {k : Key} {v : Value}

omit [DecidableEq Key] in
/-- What a client sees. -/
def visible (c : WriteBack Key Value) (k : Key) : Value :=
  ((c.lines k).map Prod.fst).getD (c.backing k)

omit [DecidableEq Key] in
/-- Lines that are not dirty have the value of the store. -/
def Coherent (c : WriteBack Key Value) : Prop :=
  ∀ k v, c.lines k = some (v, false) → c.backing k = v

def setLine (c : WriteBack Key Value) (k : Key) (line : Option (Value × Bool)) :
    WriteBack Key Value :=
  { c with lines := Function.update c.lines k line }

/-- Change the store. -/
def setBacking (c : WriteBack Key Value) (k : Key) (v : Value) : WriteBack Key Value :=
  { c with backing := Function.update c.backing k v }

variable {line later : Option (Value × Bool)} {other : Key} {dirty : Bool}

@[simp] theorem setLine_self : (c.setLine k line).lines k = line := update_self _ _ _

theorem setLine_of_ne (ne : other ≠ k) : (c.setLine k line).lines other = c.lines other :=
  update_of_ne ne _ _

@[simp] theorem setLine_backing : (c.setLine k line).backing = c.backing := rfl

@[simp] theorem setLine_setLine : (c.setLine k line).setLine k later = c.setLine k later :=
  WriteBack.ext (update_idem _ _ _) rfl

@[simp] theorem setBacking_self : (c.setBacking k v).backing k = v := update_self _ _ _

theorem setBacking_of_ne (ne : other ≠ k) :
    (c.setBacking k v).backing other = c.backing other := update_of_ne ne _ _

@[simp] theorem setBacking_lines : (c.setBacking k v).lines = c.lines := rfl

theorem visible_setLine :
    (c.setLine k line).visible = update c.visible k ((line.map Prod.fst).getD (c.backing k)) := by
  funext other
  by_cases same : other = k
  · rw [same, update_self, visible, setLine_self, setLine_backing]
  · rw [update_of_ne same, visible, setLine_of_ne same, setLine_backing, visible]

/-- A line filled from the store shows nothing new. -/
theorem visible_fill (empty : c.lines k = none) :
    (c.setLine k (some (c.backing k, false))).visible = c.visible := by
  rw [visible_setLine]
  refine update_eq_self_iff.mpr ?_
  rw [visible, empty]
  rfl

/-- A stored value shows at its key. -/
theorem visible_store : (c.setLine k (some (v, true))).visible = update c.visible k v :=
  visible_setLine

/-- Writing back the value of a line shows nothing new, whatever the line is marked. -/
theorem visible_setBacking (line : c.lines k = some (v, dirty)) :
    (c.setBacking k v).visible = c.visible := by
  funext other
  rw [visible, visible, setBacking_lines]
  by_cases same : other = k
  · rw [same, line]
    rfl
  · rw [setBacking_of_ne same]

/-- Unmarking a line whose value the store has shows nothing new. -/
theorem visible_clean (line : c.lines k = some (v, dirty)) :
    (c.setLine k (some (v, false))).visible = c.visible := by
  rw [visible_setLine]
  refine update_eq_self_iff.mpr ?_
  rw [visible, line]
  rfl

/-- Dropping a line whose value the store has shows nothing new. -/
theorem visible_drop (line : c.lines k = some (v, dirty)) (stored : c.backing k = v) :
    (c.setLine k none).visible = c.visible := by
  rw [visible_setLine]
  refine update_eq_self_iff.mpr ?_
  rw [visible, line]
  exact stored

variable (coherent : c.Coherent)
include coherent

/-- The store needs to have the value of a new line only if the line is clean. -/
theorem Coherent.setLine (clean : ∀ value, line = some (value, false) → c.backing k = value) :
    (c.setLine k line).Coherent := by
  intro other value isLine
  by_cases same : other = k
  · rw [same, setLine_self] at isLine
    exact same ▸ clean value isLine
  · rw [setLine_of_ne same] at isLine
    exact coherent other value isLine

theorem Coherent.store : (c.setLine k (some (v, true))).Coherent :=
  coherent.setLine fun _ isLine => by cases isLine

theorem Coherent.setBacking (line : c.lines k = some (v, dirty)) : (c.setBacking k v).Coherent := by
  intro other value otherLine
  by_cases same : other = k
  · have value_eq : (v, dirty) = (value, false) :=
      Option.some.inj (line.symm.trans (same ▸ otherLine))
    rw [same, setBacking_self]
    exact congrArg Prod.fst value_eq
  · rw [setBacking_of_ne same]
    exact coherent other value otherLine

theorem Coherent.clean (stored : c.backing k = v) : (c.setLine k (some (v, false))).Coherent :=
  coherent.setLine fun _ isLine => by cases isLine; exact stored

theorem Coherent.drop : (c.setLine k none).Coherent :=
  coherent.setLine fun _ isLine => by cases isLine

omit [DecidableEq Key] in
/-- **Without dirty lines the store has what the client sees.** -/
theorem Coherent.backing_eq (clean : ∀ k v, c.lines k ≠ some (v, true)) :
    c.backing = c.visible := by
  funext k
  rw [visible]
  cases line : c.lines k with
  | none => rfl
  | some marked =>
    obtain ⟨v, dirty⟩ := marked
    cases dirty with
    | false => exact coherent k v line
    | true => exact absurd line (clean k v)

end WriteBack

end FunsOS.Foundation
