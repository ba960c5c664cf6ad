import Mathlib.Data.List.Basic
import Mathlib.Tactic.NormNum

/-!
# Reading back a byte stream

A sequential reader is a computation over the bytes that are left; it may fail. A reader
reads `bytes` as `value` when, with any other bytes behind them, it returns `value` and
leaves exactly the other bytes. Written parts can then be read one after the other: the
two cursors never drift. `fill` is the read of a file into a buffer: a short file fills
only the front of it.
-/

set_option autoImplicit false

namespace FunsOS.Foundation

open List

/-- A reader of the bytes that are left. -/
abbrev Reader (Value : Type) := StateT (List UInt8) Option Value

/-- `bytes` is read as `value`, whatever follows, and nothing else is consumed. -/
def Reads {Value : Type} (reader : Reader Value) (bytes : List UInt8) (value : Value) : Prop :=
  ∀ rest, reader.run (bytes ++ rest) = some (value, rest)

namespace Reads

variable {Value Next : Type} {reader : Reader Value} {bytes : List UInt8} {value : Value}

theorem pure : Reads (Pure.pure value) [] value := fun _ => rfl

/-- What is written one after the other is read one after the other. -/
theorem bind {next : Value → Reader Next} {behind : List UInt8} {result : Next}
    (first : Reads reader bytes value) (second : Reads (next value) behind result) :
    Reads (reader >>= next) (bytes ++ behind) result := by
  intro rest
  rw [StateT.run_bind, append_assoc, first (behind ++ rest)]
  exact second rest

theorem map (f : Value → Next) (reads : Reads reader bytes value) :
    Reads (f <$> reader) bytes (f value) := by
  intro rest
  rw [StateT.run_map, reads rest]
  rfl

end Reads

/-! ## Arrays -/

/-- Read `count` items, the first one with index `start`. -/
def readMany {Value : Type} (item : Nat → Reader Value) : (count start : Nat) → Reader (List Value)
  | 0, _ => pure []
  | count + 1, start => do
      let value ← item start
      let values ← readMany item count (start + 1)
      return value :: values

/-- Items that are read as themselves wherever they stand are read as an array. -/
theorem Reads.many {Value : Type} {item : Nat → Reader Value} {encode : Value → List UInt8}
    {values : List Value} (each : ∀ i, ∀ value ∈ values, Reads (item i) (encode value) value)
    (start : Nat) : Reads (readMany item values.length start) (values.flatMap encode) values := by
  induction values generalizing start with
  | nil => exact Reads.pure
  | cons value values ih =>
    have here := each start value (by simp)
    have behind := ih (fun i other member => each i other (by simp [member])) (start + 1)
    exact here.bind (behind.map (value :: ·))

/-! ## Buffers -/

/-- Read `count` bytes over a buffer: a file that ends earlier fills only its front. -/
def fill (count : Nat) (buffer : List UInt8) : Reader (List UInt8) := fun left =>
  some (left.take count ++ buffer.drop (min count left.length), left.drop count)

theorem Reads.fill {bytes buffer : List UInt8} {count : Nat} (length : bytes.length = count)
    (size : buffer.length = count) : Reads (fill count buffer) bytes bytes := by
  intro rest
  have covered : buffer.drop (min count (bytes ++ rest).length) = [] := by
    rw [drop_eq_nil_iff, length_append]
    omega
  show some _ = _
  rw [covered, append_nil, take_left' length, drop_left' length]

/-- Records of one length stand one after the other. -/
theorem flatMap_record {Value : Type} {encode : Value → List UInt8} {width : Nat}
    (length : ∀ value, (encode value).length = width) {values : List Value} {i : Nat}
    (inside : i < values.length) :
    ((values.flatMap encode).drop (width * i)).take width = encode values[i] := by
  induction values generalizing i with
  | nil => simp at inside
  | cons value values ih =>
    rw [flatMap_cons]
    cases i with
    | zero =>
      rw [Nat.mul_zero, drop_zero, take_left' (length value)]
      rfl
    | succ i =>
      have skip : width * (i + 1) = (encode value).length + width * i := by
        rw [length value, Nat.mul_succ, Nat.add_comm]
      rw [skip]
      simpa [drop_eq_nil_of_le] using ih (by simpa using inside)

/-! ## Words -/

/-- The number four bytes hold, least significant first. -/
def wordOfBytes (bytes : List UInt8) : Nat :=
  (bytes.getD 0 0).toNat + 256 * ((bytes.getD 1 0).toNat +
    256 * ((bytes.getD 2 0).toNat + 256 * (bytes.getD 3 0).toNat))

end FunsOS.Foundation
