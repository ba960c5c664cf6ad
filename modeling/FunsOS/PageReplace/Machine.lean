import FunsOS.Mm.Cow
import FunsOS.PageReplace.Policies

/-!
# Eviction, swap and page faults

The rest of `kernel/page_replace.c`, the slots of `kernel/swap.c`, and the path of
`vmm_handle_page_fault` for a page that is not present. Reads and writes of the disk
succeed.

The faults are those of addresses outside the regions of `mmap`. A run is a list of
operations: registering pages, marking them dirty, evictions, page faults, and writes of
user processes, each after `page_replace_mark_dirty` of its page. The run also keeps the
byte that each process wrote last at each address.
-/

set_option autoImplicit false

namespace FunsOS.PageReplace

open Function (update)
open Mm

/-- The swap space: the slots in use, and what they hold. -/
structure Swap where
  totalSlots : Nat
  used : Nat → Bool
  pages : Nat → Nat → UInt8

/-- `swap_alloc_slot`. -/
def Swap.allocSlot (swap : Swap) : Swap × Option Nat :=
  match (List.range swap.totalSlots).find? fun slot => !swap.used slot with
  | none => (swap, none)
  | some slot => ({ swap with used := update swap.used slot true }, some slot)

/-- `swap_free_slot`. -/
def Swap.freeSlot (swap : Swap) (slot : Nat) : Swap :=
  if slot < swap.totalSlots then { swap with used := update swap.used slot false } else swap

/-- The table, the swap space, the memory, and the page directory of each process. -/
structure State where
  table : Table
  swap : Swap
  vm : Vm
  pageDir : Nat → Option Nat

/-! ## Eviction -/

def swapOut (swap : Swap) (victim : PageRef) (page : Nat → UInt8) : Swap × PageRef :=
  if victim.dirty then
    match swap.allocSlot with
    | (swap, none) => (swap, victim)
    | (swap, some slot) =>
      ({ swap with pages := update swap.pages slot page },
        { victim with inSwap := true, swapSlot := slot })
  else (swap, victim)

/-- A hand when an entry is removed that is not the last. -/
def adjustHand (hand count : Nat) : Nat := if count - 1 ≤ hand ∧ 0 < hand then hand - 1 else hand

/-- The end of `do_evict_page`: the last entry takes the place of the victim. -/
def Table.remove (t : Table) (i : Nat) : Table :=
  match t.pageRefs.getLast? with
  | none => t
  | some last =>
    if i < t.count - 1 then
      { t with
        pageRefs := (t.pageRefs.set i last).dropLast
        clockHand := adjustHand t.clockHand t.count
        fifoHand := adjustHand t.fifoHand t.count }
    else { t with pageRefs := t.pageRefs.dropLast }

variable (s : State)

/-- `do_evict_page` of the entry with the given index. -/
def doEvictPage (i : Nat) : State :=
  match s.table.pageRefs[i]? with
  | none => s
  | some victim =>
    match s.pageDir victim.ownerPid with
    | none => { s with table := s.table.remove i }
    | some dir =>
      let phys := vmmGetPhysical s.vm dir victim.virtualAddr
      if phys = 0 then { s with table := s.table.remove i }
      else
        let frame := phys / pageSize
        let out := swapOut s.swap victim (s.vm.bytes frame)
        -- `if (table)`: a table in frame 0 would be NULL
        let vm :=
          if (s.vm.directory dir (dirIndex victim.virtualAddr)).frame = 0 then s.vm
          else s.vm.clearEntry dir victim.virtualAddr
        { s with
          table := (s.table.modify i fun _ => out.2).remove i
          swap := out.1
          vm := pmmFreePage vm frame }

/-- `page_replace_evict`; the flag says whether it returns 0. -/
def pageReplaceEvict (rand : Nat → Nat) : State × Bool :=
  let selected := s.table.select rand
  let s := { s with table := selected.1 }
  match selected.2 with
  | none => (s, false)
  | some i => (doEvictPage s i, true)

/-! ## The table -/

/-- The entry that `page_replace_register_page` fills in. -/
def newRef (virt pid tick : Nat) : PageRef where
  virtualAddr := virt
  ownerPid := pid
  refCount := 1
  lastAccess := tick
  accessCount := 1
  accessed := true
  dirty := false
  inSwap := false
  referenceByte := true
  swapSlot := maxWord
  ageCounter := 0x80
  accessHistory := true :: List.replicate (workingSetWindow - 1) false
  historyPos := 0
  frequency := 1

/-- `page_replace_register_page`. A full table makes room by an eviction. -/
def registerPage (virt pid tick : Nat) (rand : Nat → Nat) : State :=
  match s.table.findPageRef virt pid with
  | some _ => s
  | none =>
    let s := if s.table.count < maxPageRefs then s else (pageReplaceEvict s rand).1
    if s.table.count < maxPageRefs then
      { s with table := { s.table with pageRefs := s.table.pageRefs ++ [newRef virt pid tick] } }
    else s

/-- `page_replace_mark_dirty`. -/
def markDirty (virt pid : Nat) : State :=
  match s.table.findPageRef virt pid with
  | none => s
  | some i => { s with table := s.table.modify i fun ref => { ref with dirty := true } }

/-- The part of `page_replace_access` for an entry whose page is in the swap space. -/
def swapIn (i : Nat) (ref : PageRef) (virt pid : Nat) : Option State :=
  match pmmAllocPage s.vm with
  | (vm, none) => some { s with vm }
  | (vm, some frame) =>
    if ref.swapSlot < s.swap.totalSlots then
      let vm := { vm with bytes := update vm.bytes frame (s.swap.pages ref.swapSlot) }
      let mapped :=
        match s.pageDir pid with
        | none => some vm
        | some dir => vmmMapPage vm dir virt frame ⟨true, decide (virt < kernelBase), false⟩
      mapped.map fun vm =>
        { s with
          table := s.table.modify i fun ref => { ref with inSwap := false, swapSlot := maxWord }
          swap := s.swap.freeSlot ref.swapSlot
          vm }
    else some { s with vm := pmmFreePage vm frame }

/-- The test of `page_replace_access` for an entry whose page is in the swap space. -/
def bringBack (i virt pid : Nat) : Option State :=
  match s.table.pageRefs[i]? with
  | none => some s
  | some ref => if ref.inSwap then swapIn s i ref virt pid else some s

def pageReplaceAccess (virt pid tick : Nat) : Option State :=
  match s.table.findPageRef virt pid with
  | none => some s
  | some i =>
    let s := { s with table := s.table.modify i fun ref =>
      { ref with accessed := true, lastAccess := tick } }
    (bringBack s i virt pid).map fun s => { s with table := s.table.modify i (s.table.algorithm.access tick) }

/-! ## Page faults -/

/-- The end of `vmm_handle_page_fault` for a page that is not present: a new frame, not
cleared, after an eviction if there is none. The flag says whether it returns 0. -/
def mapNewPage (dir addr : Nat) (rand : Nat → Nat) : Option (State × Bool) :=
  let found : State × Option Nat :=
    match pmmAllocPage s.vm with
    | (vm, some frame) => ({ s with vm }, some frame)
    | (vm, none) =>
      match pageReplaceEvict { s with vm } rand with
      | (s, false) => (s, none)
      | (s, true) =>
        match pmmAllocPage s.vm with
        | (vm, frame) => ({ s with vm }, frame)
  match found with
  | (s, none) => some (s, false)
  | (s, some frame) =>
    (vmmMapPage s.vm dir addr frame ⟨true, decide (addr < kernelBase), false⟩).map fun vm =>
      ({ s with vm }, true)

/-- `vmm_handle_page_fault` of the process for a page that is not present. -/
def handlePageFault (pid dir addr tick : Nat) (rand : Nat → Nat) : Option (State × Bool) :=
  (pageReplaceAccess s (addr / pageSize * pageSize) pid tick).bind fun s =>
    if vmmGetPhysical s.vm dir addr ≠ 0 then some (s, true) else mapNewPage s dir addr rand

/-! ## Reads and writes -/

/-- A process touches an address: the page is present, or it faults. -/
def touch (pid dir virt tick : Nat) (rand : Nat → Nat) : Option State :=
  if s.vm.mapped dir virt then some s
  else (handlePageFault s pid dir virt tick rand).map Prod.fst

/-- What a process reads at an address. -/
def readByte (pid virt tick : Nat) (rand : Nat → Nat) : Option UInt8 :=
  (s.pageDir pid).bind fun dir =>
    (touch s pid dir virt tick rand).bind fun s => s.vm.reads dir virt

/-! ## Runs -/

/-- An operation. Its tick is the time at which it is made. -/
inductive Op where
  | register (virt pid tick : Nat) (rand : Nat → Nat)
  | markDirty (virt pid : Nat)
  | write (pid virt : Nat) (byte : UInt8) (tick : Nat) (rand : Nat → Nat)
  | evict (rand : Nat → Nat)
  | fault (pid virt tick : Nat) (rand : Nat → Nat)

/-- The state, and the byte each process wrote last at each address. -/
structure Machine where
  state : State
  written : Nat → Nat → Option UInt8

/-- A process writes a byte, if the page can be had and the processor lets it. -/
def Machine.write (m : Machine) (pid dir virt : Nat) (byte : UInt8) (tick : Nat)
    (rand : Nat → Nat) : Option Machine :=
  (touch (markDirty m.state (virt / pageSize * pageSize) pid) pid dir virt tick rand).map fun s =>
    if s.vm.userWritable dir virt then
      { state := { s with vm := s.vm.store dir virt byte }
        written := update m.written pid (update (m.written pid) virt (some byte)) }
    else { m with state := s }

/-- The machine after an operation; `none` when `vmm_map_page` panics. -/
def Machine.step (m : Machine) : Op → Option Machine
  | .register virt pid tick rand => some { m with state := registerPage m.state virt pid tick rand }
  | .markDirty virt pid => some { m with state := PageReplace.markDirty m.state virt pid }
  | .write pid virt byte tick rand =>
    match m.state.pageDir pid with
    | none => some m
    | some dir => m.write pid dir virt byte tick rand
  | .evict rand => some { m with state := (pageReplaceEvict m.state rand).1 }
  | .fault pid virt tick rand =>
    match m.state.pageDir pid with
    | none => some m
    | some dir => (touch m.state pid dir virt tick rand).map fun s => { m with state := s }

end FunsOS.PageReplace
