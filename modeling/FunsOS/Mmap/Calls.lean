import FunsOS.Mm.Vmm

/-!
# mmap and munmap

The region table of `kernel/mmap.c`: a list of regions, newest first, and the address
at which the next search for a free range starts. Addresses and sizes are 32-bit words,
and the sums of the code are taken modulo `2 ^ 32`.

`munmap` also takes the pages of the range out of the current address space. It frees
each frame once more after `vmm_unmap_page`; the page tables do not act on the region
table. The path of a region is always NULL and is left out.
-/

set_option autoImplicit false

namespace FunsOS.Mmap

open Foundation
open Mm (Vm pageSize pmmFreePage vmmGetPhysical vmmUnmapPage)

/-- `MMAP_REGION_START`. -/
def regionStart : Nat := 0x40000000

/-- `MMAP_REGION_END`. -/
def regionEnd : Nat := 0xBFFFF000

/-- `MAP_FIXED` is `0x10`. -/
def mapFixed (flags : Nat) : Bool := flags.testBit 4

/-- `MAP_ANONYMOUS` is `0x20`. -/
def mapAnonymous (flags : Nat) : Bool := flags.testBit 5

/-- The value of a file descriptor that was not given. -/
def noFd : Nat := 0xFFFFFFFF

/-- `mmap_region_t`. -/
structure Region where
  startVaddr : Nat
  size : Nat
  prot : Nat
  flags : Nat
  inodeNum : Nat
  fileOffset : Nat
  pid : Nat
  deriving DecidableEq, Repr

def Region.regEnd (r : Region) : Nat := add32 r.startVaddr r.size

/-- The region table, the values left by `sys_mmap_set_fd_offset`, and the current
address space. -/
structure State where
  regionList : List Region
  nextVaddr : Nat
  sysMmapFd : Nat
  sysMmapOffset : Nat
  vm : Vm
  currentDir : Nat

variable (s : State)

def mmapInit : State := { s with regionList := [], nextVaddr := regionStart }

def sysMmapSetFdOffset (fd offset : Nat) : State :=
  { s with sysMmapFd := fd, sysMmapOffset := offset }

/-! ## The search for a free range -/

/-- The first region that is in the way of the range. -/
def conflict (regions : List Region) (candidate aligned : Nat) : Option Region :=
  regions.find? fun r => !(decide (add32 candidate aligned ≤ r.startVaddr) ||
    decide (r.regEnd ≤ candidate))

/-- The linear scan of `find_free_vaddr`. A candidate is a word, so a scan that is longer
than the fuel of `findFreeVaddr` does not end (`none`). -/
def linearScan (regions : List Region) (aligned : Nat) : Nat → Nat → Option (Option Nat)
  | 0, _ => none
  | fuel + 1, candidate =>
    if add32 candidate aligned ≤ regionEnd then
      match conflict regions candidate aligned with
      | none => some (some candidate)
      | some r => linearScan regions aligned fuel (add32 r.regEnd pageSize)
    else some none

def findFreeVaddr (size : Nat) : Option (State × Nat) :=
  let aligned := alignUp size pageSize
  if add32 s.nextVaddr aligned ≤ regionEnd ∧ conflict s.regionList s.nextVaddr aligned = none then
    some ({ s with nextVaddr := add32 s.nextVaddr aligned }, s.nextVaddr)
  else
    (linearScan s.regionList aligned wordLimit regionStart).map fun found =>
      match found with
      | some candidate => ({ s with nextVaddr := add32 candidate aligned }, candidate)
      | none => (s, 0)

/-! ## munmap -/

/-- One page of the loops of `munmap`. `pmm_free_page` refuses an address inside a
page. -/
def unmapPage (dir : Nat) (vm : Vm) (page : Nat) : Vm :=
  let phys := vmmGetPhysical vm dir page
  if phys = 0 then vm
  else
    let vm := vmmUnmapPage vm dir page
    if phys % pageSize = 0 then pmmFreePage vm (phys / pageSize) else vm

/-- The loop over the pages from `start` to `stop`. -/
def unmapPages (vm : Vm) (dir start stop : Nat) : Vm :=
  ((List.range ((stop - start) / pageSize)).map fun k => start + k * pageSize).foldl (unmapPage dir) vm

def Region.isExact (r : Region) (vaddr aligned : Nat) : Bool :=
  decide (r.startVaddr = vaddr) && decide (r.size = aligned)

/-- The test for a partial unmap. -/
def Region.hasPart (r : Region) (vaddr aligned : Nat) : Bool :=
  decide (r.startVaddr ≤ vaddr) && decide (add32 vaddr aligned ≤ r.regEnd)

/-- The loop of `munmap` over the regions: the regions it leaves, and the range of pages
that it unmaps. A region that has the range as a part is kept as it is. -/
def unmapFrom (vaddr aligned : Nat) : List Region → Option (List Region × Nat × Nat)
  | [] => none
  | r :: rest =>
    if r.isExact vaddr aligned then some (rest, r.startVaddr, r.regEnd)
    else if r.hasPart vaddr aligned then some (r :: rest, vaddr, add32 vaddr aligned)
    else (unmapFrom vaddr aligned rest).map fun found => (r :: found.1, found.2)

/-- `munmap`; the flag says whether it returns 0. -/
def munmap (addr length : Nat) : State × Bool :=
  if addr = 0 then (s, false)
  else
    match unmapFrom addr (alignUp length pageSize) s.regionList with
    | none => (s, false)
    | some (regions, start, stop) =>
      ({ s with regionList := regions, vm := unmapPages s.vm s.currentDir start stop }, true)

/-! ## mmap -/

/-- The arguments of `mmap`, and whether `kmalloc` of the region succeeds. -/
structure MmapArgs where
  addr : Nat
  length : Nat
  prot : Nat
  flags : Nat
  fd : Nat
  offset : Nat
  allocated : Bool
  deriving DecidableEq, Repr

/-- The region that `mmap` fills in; the values of `sys_mmap_set_fd_offset` are used
up. -/
def newRegion (args : MmapArgs) (vaddr aligned : Nat) : State × Region :=
  let region : Region := ⟨vaddr, aligned, args.prot, args.flags, 0, args.offset, 0⟩
  if mapAnonymous args.flags = false ∧ args.fd ≠ noFd then (s, { region with inodeNum := args.fd })
  else if mapAnonymous args.flags = false ∧ s.sysMmapFd ≠ noFd then
    ({ s with sysMmapFd := noFd, sysMmapOffset := 0 },
      { region with inodeNum := s.sysMmapFd, fileOffset := s.sysMmapOffset })
  else (s, region)

def addRegion (args : MmapArgs) (vaddr aligned : Nat) : State × Nat :=
  if args.allocated then
    let filled := newRegion s args vaddr aligned
    ({ filled.1 with regionList := filled.2 :: filled.1.regionList }, vaddr)
  else (s, 0)

/-- `mmap`; `MAP_FAILED` is 0. The outcome is `none` if the search for an address does not
end. -/
def mmap (args : MmapArgs) : Option (State × Nat) :=
  let aligned := alignUp args.length pageSize
  if args.length = 0 then some (s, 0)
  else if mapFixed args.flags then
    if args.addr = 0 then some (s, 0)
    else some (addRegion (munmap s args.addr aligned).1 args args.addr aligned)
  else if args.addr ≠ 0 then some (addRegion s args args.addr aligned)
  else
    (findFreeVaddr s aligned).map fun found =>
      if found.2 = 0 then found else addRegion found.1 args found.2 aligned

/-! ## Calls -/

/-- A call. -/
inductive Op where
  | mmap (args : MmapArgs)
  | munmap (addr length : Nat)
  | setFdOffset (fd offset : Nat)
  deriving DecidableEq, Repr

/-- The state after a call. -/
def step : Op → Option State
  | .mmap args => (mmap s args).map Prod.fst
  | .munmap addr length => some (munmap s addr length).1
  | .setFdOffset fd offset => some (sysMmapSetFdOffset s fd offset)

end FunsOS.Mmap
