import FunsOS.Ramfs.File

/-!
# What a ramfs file reads back

The node and the abstract file agree when the size and the bytes below it are the same
(`Agrees`). Every call that returns keeps them in agreement, except a write that starts
beyond the end and finds something other than zeros in its gap.
-/

set_option autoImplicit false

namespace FunsOS.Ramfs

open Foundation List Option Nat AbstractFile

/-! ## Growing the buffer -/

/-- The capacities that doubling leads to. -/
def IsCapacity (capacity : Nat) : Prop := capacity = 0 ∨ ∃ k ≤ 25, capacity = 64 * 2 ^ k

variable {newSize offset : Nat} {node : FileNode} {fresh : Nat → UInt8}

/-- The doubling loop ends if the new size is below `2^31`. -/
theorem growCap_returns (below : newSize < 2 ^ 31) (fuel k : Nat) (inside : k ≤ 25)
    (enough : 26 ≤ fuel + k) :
    ∃ l, k ≤ l ∧ l ≤ 25 ∧ growCap fuel (64 * 2 ^ k) newSize = some (64 * 2 ^ l) ∧
      newSize ≤ 64 * 2 ^ l := by
  induction fuel generalizing k with
  | zero => omega
  | succ fuel ih =>
    rw [growCap]
    split
    · have bounded : 64 * 2 ^ k < 64 * 2 ^ 25 := by
        omega
      have notLast : k < 25 := (Nat.pow_lt_pow_iff_right (by decide)).mp
        (Nat.lt_of_mul_lt_mul_left bounded)
      have doubled : 64 * 2 ^ k * 2 % 2 ^ 32 = 64 * 2 ^ (k + 1) := by
        omega
      rw [doubled]
      obtain ⟨l, le, last, returned, fits⟩ := ih (k + 1) (by omega) (by omega)
      exact ⟨l, by omega, last, returned, fits⟩
    · exact ⟨k, Nat.le_refl k, inside, rfl, by omega⟩

/-- The bytes of the buffer after growing it to hold `newSize` bytes. -/
def grownByte (node : FileNode) (newSize : Nat) (fresh : Nat → UInt8) (i : Nat) : UInt8 :=
  if newSize ≤ node.capacity ∨ i < node.size then node.data.getD (fun _ => 0) i else fresh i

/-- The buffer of a node holds its size, and its capacity is one that growing gives. -/
structure FileNode.Sized (node : FileNode) : Prop where
  room : node.size ≤ node.capacity
  isCapacity : IsCapacity node.capacity
  noBuffer : node.data = none → node.capacity = 0

/-- **Growing succeeds, keeps the valid bytes, and the rest is what memory held.** -/
theorem growData_returns (sized : node.Sized) (below : newSize < 2 ^ 31) :
    ∃ grown, growData node newSize (some fresh) = some (0, grown) ∧ grown.mode = node.mode ∧
      grown.size = node.size ∧ newSize ≤ grown.capacity ∧ grown.Sized ∧
      ∀ buffer ∈ grown.data, buffer = grownByte node newSize fresh := by
  rw [growData]
  split
  · rename_i fits
    refine ⟨node, rfl, rfl, rfl, fits, sized, fun buffer isData => ?_⟩
    funext i
    rw [grownByte, if_pos (.inl fits), mem_def.mp isData]
    rfl
  · obtain ⟨k, inside, start⟩ : ∃ k ≤ 25,
        (if node.capacity ≠ 0 then node.capacity else ramfsInitialCap) = 64 * 2 ^ k := by
      rcases sized.isCapacity with none | ⟨k, inside, isPower⟩
      · exact ⟨0, by omega, by simp [none, ramfsInitialCap]⟩
      · refine ⟨k, inside, ?_⟩
        have : 0 < 2 ^ k := Nat.two_pow_pos k
        rw [if_pos (by omega), isPower]
    obtain ⟨l, -, last, returned, fits⟩ := growCap_returns below 33 k inside (by omega)
    rw [start, returned]
    refine ⟨_, rfl, rfl, rfl, fits, ⟨?_, .inr ⟨l, last, rfl⟩, fun none => by cases none⟩, ?_⟩
    · have := sized.room
      dsimp only
      omega
    · rintro buffer isData
      cases isData
      funext i
      cases data : node.data with
      | none =>
        have empty : node.size = 0 := by
          have := sized.room
          have := sized.noBuffer data
          omega
        rw [grownByte, if_neg (by omega)]
      | some old =>
        dsimp only
        rw [grownByte, data]
        by_cases valid : i < node.size
        · rw [if_pos valid, if_pos (.inr valid)]
          rfl
        · rw [if_neg valid, if_neg (by omega)]

/-! ## Agreement -/

/-- The node holds the bytes of the abstract file. -/
structure FileNode.Holds (node : FileNode) (content : List UInt8) : Prop where
  sized : node.Sized
  size_eq : node.size = content.length
  bytes_eq : ∀ buffer ∈ node.data, ∀ i < content.length, buffer i = content.getD i 0

/-- The node is a file that holds the bytes of the abstract file, and the offsets are the
same. -/
structure Agrees (both : FileState × AbstractFile) : Prop where
  isFile : both.1.node.mode &&& fileModeDir = 0
  holds : both.1.node.Holds both.2.content
  offset_eq : both.1.offset = both.2.offset

theorem new_agrees {mode : UInt32} (isFile : mode &&& fileModeDir = 0) :
    Agrees (FileState.new mode, new) where
  isFile
  holds :=
    { sized := ⟨Nat.le_refl 0, .inl rfl, fun _ => rfl⟩
      size_eq := rfl
      bytes_eq := fun _ isData => by cases isData }
  offset_eq := rfl

/-- Offsets and ends are below `2^31` and allocation succeeds. -/
def InRange (both : FileState × AbstractFile) : FileOp → Prop
  | .write file bytes memory =>
    memory.isSome ∧ both.1.offset file + bytes.length < 2 ^ 31
  | .seek file distance whence =>
    ∀ place ∈ both.2.place file distance.toInt whence, place < 2 ^ 31
  | .read _ _ => True
  | .truncate size memory => memory.isSome ∧ size < 2 ^ 31

instance InRange.decidable (both : FileState × AbstractFile) : (op : FileOp) →
    Decidable (InRange both op)
  | .write _ _ _ | .truncate _ _ => inferInstanceAs (Decidable (_ ∧ _))
  | .seek _ _ _ => inferInstanceAs (Decidable (∀ _ ∈ _, _ < _))
  | .read _ _ => inferInstanceAs (Decidable True)

/-- A write starts inside the file or at its end, or it writes some bytes and the buffer that
they go to has zeros from the end of the file to the offset. -/
def GapIsZero (both : FileState × AbstractFile) : FileOp → Prop
  | .write file bytes memory =>
    both.1.offset file ≤ both.1.node.size ∨
      bytes ≠ [] ∧ ∀ i < both.1.offset file, both.1.node.size ≤ i →
        ∀ fresh ∈ memory, grownByte both.1.node (both.1.offset file + bytes.length) fresh i = 0
  | _ => True

instance GapIsZero.decidable (both : FileState × AbstractFile) : (op : FileOp) →
    Decidable (GapIsZero both op)
  | .write file _ memory =>
    inferInstanceAs (Decidable (_ ∨ _ ∧ ∀ i < both.1.offset file, _ → ∀ fresh ∈ memory, _))
  | .seek _ _ _ | .read _ _ | .truncate _ _ => inferInstanceAs (Decidable True)

variable {content bytes : List UInt8} {i : Nat}

theorem FileNode.Holds.read (holds : node.Holds content) {count : Nat} :
    fileRead node offset count = readAt content offset count := by
  rw [fileRead]
  cases data : node.data with
  | none =>
    have empty : content = [] := by
      have room := holds.sized.room
      rw [holds.sized.noBuffer data, holds.size_eq] at room
      exact eq_nil_of_length_eq_zero (le_zero.mp room)
    simp [readAt, empty]
  | some buffer =>
    dsimp only
    rw [holds.size_eq]
    split
    · rename_i beyond
      rw [readAt, drop_eq_nil_of_le beyond, take_nil]
    · refine readAt_of_agrees (holds.bytes_eq buffer data) ?_
      split
      · omega
      · omega

/-- Growing keeps the bytes of the file. -/
theorem FileNode.Holds.grownByte_eq (holds : node.Holds content) (valid : i < content.length) :
    grownByte node newSize fresh i = content.getD i 0 := by
  rw [grownByte, if_pos (.inr (by rwa [holds.size_eq]))]
  cases data : node.data with
  | none =>
    have room := holds.sized.room
    rw [holds.sized.noBuffer data, holds.size_eq] at room
    omega
  | some old => exact holds.bytes_eq old data i valid

/-- The size after a write is that of the abstract file. -/
theorem writeAt_size (gap : offset ≤ content.length ∨ bytes ≠ []) :
    (if content.length < offset + bytes.length then offset + bytes.length else content.length) =
      (writeAt 0 content offset bytes).length := by
  by_cases empty : bytes = []
  · have inside : offset ≤ content.length := gap.resolve_right fun some => some empty
    rw [empty, writeAt_nil, if_neg (by simpa using inside)]
  · rw [writeAt_length empty]
    split
    · omega
    · omega

/-- The bytes after a write are those of the abstract file, if the gap is zero. -/
theorem storeBytes_eq {buffer : Nat → UInt8}
    (old : ∀ i < content.length, buffer i = content.getD i 0)
    (gap : offset ≤ content.length ∨ bytes ≠ [] ∧ ∀ i < offset, content.length ≤ i → buffer i = 0)
    (inside : i < (writeAt 0 content offset bytes).length) :
    storeBytes buffer offset bytes i = (writeAt 0 content offset bytes).getD i 0 := by
  by_cases empty : bytes = []
  · rw [empty] at inside ⊢
    rw [storeBytes, if_neg (by simp)]
    exact old i inside
  · rw [writeAt_length empty] at inside
    rw [storeBytes, writeAt_getD empty]
    split
    · rfl
    · rcases lt_or_ge i content.length with valid | beyond
      · exact old i valid
      · -- beyond the old end and not written: the byte lies in the gap
        rw [getD_eq_default _ _ beyond]
        rcases gap with none | ⟨-, zero⟩
        · omega
        · exact zero i (by omega) beyond

theorem FileNode.Holds.write (holds : node.Holds content) (isFile : node.mode &&& fileModeDir = 0)
    (below : offset + bytes.length < 2 ^ 31)
    (gap : offset ≤ node.size ∨ bytes ≠ [] ∧ ∀ i < offset, node.size ≤ i →
      grownByte node (offset + bytes.length) fresh i = 0) :
    ∃ written : FileNode, fileWrite node offset bytes (some fresh) =
        some ((bytes.length : Int), written, offset + bytes.length) ∧
      written.mode = node.mode ∧ written.Holds (writeAt 0 content offset bytes) := by
  have noWrap : (offset + bytes.length) % 2 ^ 32 = offset + bytes.length := mod_eq_of_lt (by omega)
  obtain ⟨grown, returned, mode, size, fits, sized, bytesOf⟩ :=
    growData_returns holds.sized below
  unfold fileWrite
  rw [if_neg (by simpa using isFile)]
  rw [noWrap, if_neg (by omega), returned]
  refine ⟨_, rfl, mode, ?_⟩
  have newSize : (if grown.size < offset + bytes.length then offset + bytes.length
      else grown.size) = (writeAt 0 content offset bytes).length := by
    rw [size, holds.size_eq]
    refine writeAt_size (gap.imp (fun inside => ?_) fun beyond => beyond.1)
    rwa [← holds.size_eq]
  refine ⟨⟨?_, sized.isCapacity, fun none => sized.noBuffer (by simpa using none)⟩, newSize, ?_⟩
  · split
    · exact fits
    · exact sized.room
  · intro buffer isData i inside
    obtain ⟨before, isBefore, rfl⟩ := map_eq_some_iff.mp isData
    refine storeBytes_eq (fun j valid => ?_) ?_ inside
    · rw [bytesOf before isBefore]
      exact holds.grownByte_eq valid
    · rw [bytesOf before isBefore, ← holds.size_eq]
      exact gap

theorem FileNode.Holds.truncate (holds : node.Holds content) {size : Nat} (below : size < 2 ^ 31) :
    ∃ cut : FileNode, fileTruncate node size (some fresh) = some (0, cut) ∧
      cut.mode = node.mode ∧ cut.Holds (resize 0 content size) := by
  have grows : (if node.capacity < size then growData node size (some fresh) else some (0, node)) =
      growData node size (some fresh) := by
    split
    · rfl
    · rename_i fits
      rw [growData, if_pos (not_lt.mp fits)]
  obtain ⟨grown, returned, mode, sizeOf, fits, sized, bytesOf⟩ :=
    growData_returns holds.sized below
  rw [fileTruncate, grows, returned]
  refine ⟨_, rfl, mode, ⟨fits, sized.isCapacity, fun none => ?_⟩, (resize_length _).symm, ?_⟩
  · exact sized.noBuffer (by simpa using none)
  · intro buffer isData i inside
    obtain ⟨before, isBefore, rfl⟩ := map_eq_some_iff.mp isData
    rw [resize_length] at inside
    rw [resize_getD content inside, sizeOf, holds.size_eq]
    rcases lt_or_ge i content.length with valid | beyond
    · have kept : grownByte node size fresh i = content.getD i 0 := holds.grownByte_eq valid
      rw [← bytesOf before isBefore] at kept
      split
      · rw [clearBytes, if_neg (by omega), kept]
      · exact kept
    · rw [if_pos (by omega), clearBytes, if_pos ⟨beyond, inside⟩, getD_eq_default _ _ beyond]

/-! ## Runs -/

/-- A sum that stays below `2^31` is the same in `int32_t`. -/
theorem toInt_ofNat_add {base : Nat} {distance : Int32} (below : base + distance.toInt < 2 ^ 31) :
    (Int32.ofNat base + distance).toInt = base + distance.toInt := by
  have least := distance.le_toInt
  rw [Int32.toInt_add, Int32.toInt_ofNat', Int32.size, Int.bmod_add_bmod]
  exact Int.bmod_eq_of_le (by omega) (by omega)

/-- In range, the seek of the code goes to the place that is asked for. -/
theorem fileSeek_eq_seek {a : AbstractFile} {file : Nat} {distance : Int32} {whence : Int}
    (below : ∀ place ∈ a.place file distance.toInt whence, place < 2 ^ 31) :
    fileSeek a.content.length (a.offset file) distance whence =
      a.seek file distance.toInt whence := by
  have settled {newOff : Int32} {place : Int} (same : newOff.toInt = place) :
      (if newOff < 0 then (-einval, a.offset file) else (newOff.toInt, newOff.toNatClampNeg)) =
        if place < 0 then (-einval, a.offset file) else (place, place.toNat) := by
    rw [← same, ← Int32.toNat_toInt]
    exact if_congr Int32.lt_iff_toInt_lt rfl rfl
  by_cases start : whence = 0
  · subst start
    exact settled rfl
  by_cases current : whence = 1
  · subst current
    exact settled (toInt_ofNat_add (below _ rfl))
  by_cases fromEnd : whence = 2
  · subst fromEnd
    exact settled (toInt_ofNat_add (below _ rfl))
  rw [AbstractFile.seek, AbstractFile.place, if_neg start, if_neg current, if_neg fromEnd]
  simp [fileSeek]

/-- **A call in range that finds its gap zero returns and keeps the files in agreement.** -/
theorem Agrees.step {both : FileState × AbstractFile} (agrees : Agrees both) {op : FileOp}
    (inRange : InRange both op) (gap : GapIsZero both op) : Returns (bothStep both op) Agrees := by
  obtain ⟨isFile, holds, offset_eq⟩ := agrees
  cases op with
  | write file bytes memory =>
    obtain ⟨allocates, below⟩ := inRange
    obtain ⟨fresh, rfl⟩ := isSome_iff_exists.mp allocates
    obtain ⟨written, returned, mode, now⟩ := holds.write isFile below
      (gap.imp id fun beyond => ⟨beyond.1, fun i inside old => beyond.2 i inside old fresh rfl⟩)
    rw [bothStep, FileState.step, returned]
    refine ⟨_, rfl, mode ▸ isFile, ?_, ?_⟩
    · rwa [offset_eq] at now
    · dsimp only [AbstractFile.step]
      rw [offset_eq]
  | seek file distance whence =>
    refine ⟨_, rfl, isFile, holds, ?_⟩
    dsimp only [AbstractFile.step]
    rw [holds.size_eq, offset_eq, fileSeek_eq_seek inRange]
  | read file count =>
    refine ⟨_, rfl, isFile, holds, ?_⟩
    dsimp only [AbstractFile.step]
    rw [holds.read, offset_eq]
  | truncate size memory =>
    obtain ⟨allocates, below⟩ := inRange
    obtain ⟨fresh, rfl⟩ := isSome_iff_exists.mp allocates
    obtain ⟨cut, returned, mode, now⟩ := holds.truncate below
    rw [bothStep, FileState.step, returned]
    exact ⟨_, rfl, mode ▸ isFile, now, offset_eq⟩

/-- **Reads return the bytes of the abstract file.** After any calls on a new file, with
offsets and ends below `2^31` and allocation succeeding with any contents of the memory, if
every write found its gap zero: the calls all returned, and whatever read is made next, on any
open file, returns the bytes of the abstract file. -/
theorem reads_are_abstract {mode : UInt32} (isFile : mode &&& fileModeDir = 0) (ops : List FileOp)
    (meets : MeetsPartial bothStep (fun both op => InRange both op ∧ GapIsZero both op)
      (FileState.new mode, new) ops) :
    Returns (runPartial bothStep (FileState.new mode, new) ops) fun both =>
      ∀ file count,
        (both.1.step (.read file count)).map Prod.fst =
          some (both.2.step (.read file count)).1 := by
  have ends := meets.invariant (P := Agrees)
    (fun _ _ agrees condition => agrees.step condition.1 condition.2) (new_agrees isFile)
  refine ends.mono fun both agrees file count => ?_
  dsimp only [FileState.step, step, map_some]
  rw [agrees.holds.read, agrees.offset_eq]

/-- Two bytes, cut to one, and a third byte in the place of the second. -/
def rewriteTail : List FileOp :=
  [.write 0 [65, 66] (some fun _ => 7), .truncate 1 (some fun _ => 7), .seek 0 0 2,
    .write 0 [67] (some fun _ => 7), .seek 0 0 0]

theorem rewriteTail_reads_back :
    Returns (runPartial bothStep (FileState.new 0x10, new) rewriteTail) fun both =>
      ∀ file count,
        (both.1.step (.read file count)).map Prod.fst = some (both.2.step (.read file count)).1 :=
  reads_are_abstract (by decide) rewriteTail (by decide +kernel)

/-- Two bytes are written and cut off; a byte written behind them brings them back. -/
def writeBehindTheEnd : List FileOp :=
  [.write 0 [65, 66] (some fun _ => 0), .truncate 0 (some fun _ => 0),
    .write 0 [67] (some fun _ => 0), .seek 0 0 0]

/-- The bytes that were cut off are read, where the abstract file has zeros. -/
theorem cut_bytes_come_back :
    ((runPartial bothStep (FileState.new 0x10, new) writeBehindTheEnd).bind
      fun both => both.1.step (.read 0 3)).map Prod.fst = some (.bytes [65, 66, 67]) ∧
    (runPartial bothStep (FileState.new 0x10, new) writeBehindTheEnd).map
      (fun both => (both.2.step (.read 0 3)).1) = some (.bytes [0, 0, 67]) := by
  decide +kernel

end FunsOS.Ramfs
