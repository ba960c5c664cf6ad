import FunsOS.Foundation.Runs
import Mathlib.Data.Fintype.Card

/-!
# The file descriptors of a process

The table of `fs/file_desc.c`: 256 slots with a pointer to an open file or NULL, and the number of
slots in use. A call that reads through an empty slot has no result.

`fd_install` counts a slot that is in use already once more, and `fd_dup2` with one open descriptor
twice closes it and then reads through it. In a run without such calls the count is right
(`fdCount_of_careful`).

The `close` operation of a file gets the file only, so the table does not depend on it.
-/

set_option autoImplicit false

namespace FunsOS.FileDesc

open Foundation Function UInt32

/-- `MAX_PROCESS_FDS`. -/
def maxProcessFds : Nat := 256

abbrev Slot := Fin maxProcessFds

/-- The fields of `pcb_t` for the descriptors, and `ref_count` of the files. -/
structure Proc (File : Type) where
  fdTable : Slot → Option File
  fdCount : UInt32
  refCount : File → UInt32

/-- The slot of a descriptor that passes the test of its range. -/
def slotOf (fd : Int) : Option Slot :=
  if inRange : 0 ≤ fd ∧ fd < maxProcessFds then some ⟨fd.toNat, by omega⟩ else none

variable {File : Type}

namespace Proc

variable (p : Proc File)

def fdInit : Proc File := { p with fdTable := fun _ => none, fdCount := 0 }

def fdAlloc : Option Slot :=
  (List.finRange maxProcessFds).find? fun i => (p.fdTable i).isNone

/-- What `fd_free` does to a slot. -/
def clear (i : Slot) : Proc File :=
  if (p.fdTable i).isSome then
    { p with fdTable := update p.fdTable i none, fdCount := p.fdCount - 1 }
  else p

def fdFree (fd : Int) : Int × Proc File :=
  match slotOf fd with
  | some i => (0, p.clear i)
  | none => (-1, p)

def fill (i : Slot) (file : Option File) : Proc File :=
  { p with fdTable := update p.fdTable i file, fdCount := p.fdCount + 1 }

def fdInstall (fd : Int) (file : Option File) : Int × Proc File :=
  match slotOf fd, file with
  | some i, some file => (0, p.fill i (some file))
  | _, _ => (-1, p)

/-- The loop of `fd_close_range`, with the number of closed descriptors. -/
def closeSlot (acc : Int × Proc File) (i : Slot) : Int × Proc File :=
  if (acc.2.fdTable i).isSome then (acc.1 + 1, acc.2.clear i) else acc

def fdCloseRange (first last : Int) : Int × Proc File :=
  match slotOf first, slotOf last with
  | some low, some high =>
    if high < low then (-1, p)
    else ((List.finRange maxProcessFds).filter fun i => low ≤ i ∧ i ≤ high).foldl closeSlot (0, p)
  | _, _ => (-1, p)

variable [DecidableEq File]

/-- The end of `fd_dup` and `fd_dup2`: the file of the old descriptor for the new one, with
`ref_count` raised through the old one. -/
def share (p : Proc File) (old new : Slot) : Option (Int × Proc File) :=
  let p := p.fill new (p.fdTable old)
  (p.fdTable old).map fun file =>
    (new.val, { p with refCount := update p.refCount file (p.refCount file + 1) })

def fdDup (p : Proc File) (oldFd : Int) : Option (Int × Proc File) :=
  match slotOf oldFd with
  | some old =>
    if (p.fdTable old).isNone then some (-1, p)
    else
      match p.fdAlloc with
      | some new => p.share old new
      | none => some (-1, p)
  | none => some (-1, p)

def fdDup2 (p : Proc File) (oldFd newFd : Int) : Option (Int × Proc File) :=
  match slotOf oldFd, slotOf newFd with
  | some old, some new =>
    if (p.fdTable old).isNone then some (-1, p) else (p.clear new).share old new
  | _, _ => some (-1, p)

end Proc

/-! ## The count -/

/-- The slots that are in use. -/
def openSlots (p : Proc File) : Finset Slot := Finset.univ.filter fun i => (p.fdTable i).isSome

def Counted (p : Proc File) : Prop := p.fdCount = ofNat (openSlots p).card

variable {p : Proc File} {i : Slot}

@[simp] theorem mem_openSlots : i ∈ openSlots p ↔ (p.fdTable i).isSome := by
  simp [openSlots]

theorem Counted.init : Counted p.fdInit := by
  simp [Counted, openSlots, Proc.fdInit]

theorem Counted.fill (counted : Counted p) (empty : p.fdTable i = none) {file : File} :
    Counted (p.fill i (some file)) := by
  have grown : openSlots (p.fill i (some file)) = insert i (openSlots p) := by
    ext j
    by_cases here : j = i <;> simp [Proc.fill, here]
  have fresh : i ∉ openSlots p := by simp [empty]
  rw [Counted, grown, Finset.card_insert_of_notMem fresh, ofNat_add, ← counted]
  rfl

theorem Counted.clear (counted : Counted p) : Counted (p.clear i) := by
  by_cases isOpen : i ∈ openSlots p
  · have shrunk : openSlots (p.clear i) = (openSlots p).erase i := by
      ext j
      by_cases here : j = i <;> simp [Proc.clear, mem_openSlots.mp isOpen, here]
    have fewer := Finset.card_erase_add_one isOpen
    rw [Counted, ← fewer, ofNat_add] at counted
    rw [Counted, shrunk, Proc.clear, if_pos (mem_openSlots.mp isOpen), counted]
    exact UInt32.add_sub_cancel _ _
  · rwa [Proc.clear, if_neg (mem_openSlots.not.mp isOpen)]

theorem Proc.clear_fdTable {j : Slot} :
    (p.clear i).fdTable j = if j = i then none else p.fdTable j := by
  by_cases here : j = i <;> by_cases isOpen : (p.fdTable i).isSome <;>
    simp_all [Proc.clear]

theorem Counted.closeRange (counted : Counted p) {first last : Int} :
    Counted (p.fdCloseRange first last).2 := by
  have closes (acc : Int × Proc File) (i : Slot) (counted : Counted acc.2) :
      Counted (Proc.closeSlot acc i).2 := by
    unfold Proc.closeSlot
    split
    · exact counted.clear
    · exact counted
  unfold Proc.fdCloseRange
  split
  · split
    · exact counted
    · exact foldl_invariant (P := fun acc : Int × Proc File => Counted acc.2) closes counted _
  · exact counted

/-! ## Runs -/

inductive Op (File : Type) where
  | init
  | install (fd : Int) (file : Option File)
  | free (fd : Int)
  | dup (oldFd : Int)
  | dup2 (oldFd newFd : Int)
  | closeRange (first last : Int)

variable [DecidableEq File]

def step (p : Proc File) : Op File → Option (Proc File)
  | .init => some p.fdInit
  | .install fd file => some (p.fdInstall fd file).2
  | .free fd => some (p.fdFree fd).2
  | .dup oldFd => (p.fdDup oldFd).map Prod.snd
  | .dup2 oldFd newFd => (p.fdDup2 oldFd newFd).map Prod.snd
  | .closeRange first last => some (p.fdCloseRange first last).2

/-- A file is installed in an empty slot, and an open descriptor is not duplicated onto itself. -/
def Careful (p : Proc File) : Op File → Prop
  | .install fd file => ∀ i, slotOf fd = some i → file.isSome → p.fdTable i = none
  | .dup2 oldFd newFd => ∀ i, slotOf oldFd = some i → slotOf newFd = some i → p.fdTable i = none
  | _ => True

/-- Sharing a file with an empty slot. -/
theorem Counted.share (counted : Counted p) {old : Slot} (isOpen : p.fdTable old ≠ none)
    (empty : p.fdTable i = none) : Returns ((p.share old i).map Prod.snd) Counted := by
  obtain ⟨file, isFile⟩ := Option.ne_none_iff_exists'.mp isOpen
  have other : old ≠ i := by
    rintro rfl
    exact isOpen empty
  have shared : (p.fill i (p.fdTable old)).fdTable old = some file :=
    (update_of_ne other _ _).trans isFile
  rw [Proc.share, shared, isFile]
  exact .of_some (counted.fill empty)

/-- A call that meets the condition returns, with the count right. -/
theorem Counted.step {op : Op File} (counted : Counted p) (careful : Careful p op) :
    Returns (step p op) Counted := by
  have unchanged : Returns (some p) Counted := .of_some counted
  cases op with
  | init => exact .of_some (.init)
  | install fd file =>
    change Returns (some (p.fdInstall fd file).2) Counted
    unfold Proc.fdInstall
    split
    · rename_i i file isSlot
      exact .of_some (counted.fill (careful i isSlot rfl))
    · exact unchanged
  | free fd =>
    change Returns (some (p.fdFree fd).2) Counted
    unfold Proc.fdFree
    split
    · exact .of_some counted.clear
    · exact unchanged
  | dup oldFd =>
    change Returns ((p.fdDup oldFd).map Prod.snd) Counted
    unfold Proc.fdDup
    split
    · split
      · exact unchanged
      · rename_i isOpen
        split
        · rename_i new allocated
          have empty := List.find?_some allocated
          exact counted.share (by simpa using isOpen) (Option.isNone_iff_eq_none.mp empty)
        · exact unchanged
    · exact unchanged
  | dup2 oldFd newFd =>
    change Returns ((p.fdDup2 oldFd newFd).map Prod.snd) Counted
    unfold Proc.fdDup2
    split
    · rename_i old new isOld isNew
      split
      · exact unchanged
      · rename_i isOpen
        have other : old ≠ new := by
          rintro rfl
          simp [careful old isOld isNew] at isOpen
        refine counted.clear.share ?_ (by simp [Proc.clear_fdTable])
        simpa [Proc.clear_fdTable, other] using isOpen
    · exact unchanged
  | closeRange first last => exact .of_some counted.closeRange

/-- An open descriptor is closed before it is read to be duplicated onto itself. -/
theorem fdDup2_self {fd : Int} (isSlot : slotOf fd = some i) (isOpen : p.fdTable i ≠ none) :
    p.fdDup2 fd fd = none := by
  simp [Proc.fdDup2, isSlot, isOpen, Proc.share, Proc.fill, Proc.clear_fdTable]

/-- **The descriptor table.** From `fd_init` on, a run of careful calls never reads through an
empty slot, and `fd_count` is the number of slots in use. In no state it reaches can an open
descriptor be duplicated onto itself. -/
theorem fdCount_of_careful (start : Proc File) {ops : List (Op File)}
    (careful : MeetsPartial step Careful start.fdInit ops) :
    Returns (runPartial step start.fdInit ops) fun p => p.fdCount.toNat = (openSlots p).card ∧
      ∀ fd i, slotOf fd = some i → p.fdTable i ≠ none → p.fdDup2 fd fd = none := by
  have ran := careful.invariant (P := Counted) (fun _ _ counted => counted.step) (.init)
  refine ran.mono fun p counted => ⟨?_, fun fd i => fdDup2_self⟩
  have few : (openSlots p).card ≤ maxProcessFds := card_finset_fin_le _
  rw [counted, toNat_ofNat_of_lt' (Nat.lt_of_le_of_lt few (by decide))]

def newProc : Proc Unit := ⟨fun _ => none, 0, fun _ => 1⟩

theorem fdCount_of_careful_dup :
    Returns (runPartial step newProc.fdInit [.install 0 (some ()), .dup 0, .free 0])
      fun p => p.fdCount.toNat = (openSlots p).card ∧
        ∀ fd i, slotOf fd = some i → p.fdTable i ≠ none → p.fdDup2 fd fd = none := by
  refine fdCount_of_careful newProc ⟨fun _ _ _ => rfl, fun _ _ => ⟨trivial, fun _ _ => ?_⟩⟩
  exact ⟨trivial, fun _ _ => trivial⟩

/-- A descriptor that is installed twice counts twice, and one that is duplicated onto itself is
read when it is closed. -/
theorem fdCount_installed_twice :
    (runPartial step newProc.fdInit [.install 0 (some ()), .install 0 (some ())]).map
        (fun p => (p.fdCount, (openSlots p).card)) = some (2, 1) ∧
      runPartial step newProc.fdInit [.install 0 (some ()), .dup2 0 0] = none := by
  refine ⟨?_, rfl⟩
  decide +kernel

end FunsOS.FileDesc
