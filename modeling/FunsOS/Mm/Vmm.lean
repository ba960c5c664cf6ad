import FunsOS.Foundation.Word32

/-!
# Physical pages and page tables

The page allocator of `kernel/pmm.c` and the page tables of `kernel/vmm.c`.

Physical memory is a memory of frames. A page directory and a page table each fill one
frame; the model keeps the entries of a frame used as a directory, the entries of a
frame used as a table and the bytes of a frame apart, so that it does not see the bytes
of a page table. Of an entry it keeps the frame and the flags that the code sets or
tests. Addresses are natural numbers below `2 ^ 32`.

`pmm_alloc_page` hands out the lowest free frame. Frame 0 would be taken for NULL by the
callers. The panic of `vmm_map_page` ends a run (`none`); the TLB is not modelled.
-/

set_option autoImplicit false

namespace FunsOS.Mm

open Function (update)

/-! ## Entries -/

/-- An entry of a page directory or a page table. -/
structure Pte where
  frame : Nat
  present : Bool
  writable : Bool
  user : Bool
  cow : Bool
  deriving DecidableEq, Repr

/-- The entry 0. -/
def Pte.absent : Pte := ⟨0, false, false, false, false⟩

/-- The flags given to `vmm_map_page`, which sets PTE_PRESENT itself. -/
structure PageFlags where
  writable : Bool
  user : Bool
  cow : Bool
  deriving DecidableEq, Repr

def PageFlags.entry (flags : PageFlags) (frame : Nat) : Pte :=
  ⟨frame, true, flags.writable, flags.user, flags.cow⟩

def kernelBase : Nat := 0xC0000000

/-- `KERNEL_BASE >> 22`: the directory entries below it are the user half. -/
def kernelIndex : Nat := 768

def pageSize : Nat := 4096

/-- `virt >> 22`. -/
def dirIndex (virt : Nat) : Nat := virt / 2 ^ 22

/-- `(virt >> 12) & 0x3FF`. -/
def tableIndex (virt : Nat) : Nat := virt / pageSize % 1024

/-- The memory and the page allocator. -/
structure Vm where
  totalPages : Nat
  used : Nat → Bool
  bytes : Nat → Nat → UInt8
  directory : Nat → Nat → Pte
  table : Nat → Nat → Pte
  kernelDirectory : Nat

variable (entries : Nat → Nat → Pte) {frame index : Nat}

def setEntry (frame index : Nat) (entry : Pte) : Nat → Nat → Pte :=
  update entries frame (update (entries frame) index entry)

theorem setEntry_self {entry : Pte} : setEntry entries frame index entry frame index = entry := by
  simp [setEntry]

theorem setEntry_of_ne {frame' index' : Nat} (entry : Pte)
    (other : frame' ≠ frame ∨ index' ≠ index) :
    setEntry entries frame index entry frame' index' = entries frame' index' := by
  by_cases here : frame' = frame
  · subst here
    simp [setEntry, other.resolve_left fun differs => differs rfl]
  · simp [setEntry, here]

theorem setEntry_setEntry {first second : Pte} :
    setEntry (setEntry entries frame index first) frame index second =
      setEntry entries frame index second := by
  simp [setEntry]

/-! ## The page allocator -/

variable (s : Vm)

def Vm.lowestFree : Option Nat := (List.range s.totalPages).find? fun f => !s.used f

def pmmAllocPage : Vm × Option Nat :=
  match s.lowestFree with
  | none => (s, none)
  | some f => ({ s with used := update s.used f true }, if f = 0 then none else some f)

/-- `pmm_free_page` of a page-aligned address. -/
def pmmFreePage (f : Nat) : Vm :=
  if f < s.totalPages then { s with used := update s.used f false } else s

/-! ## Page tables -/

def getPageTable (dir virt : Nat) : Option Nat :=
  let pde := s.directory dir (dirIndex virt)
  if pde.present then some pde.frame else none

def createPageTable (dir virt : Nat) (flags : PageFlags) : Vm × Option Nat :=
  let pde := s.directory dir (dirIndex virt)
  if pde.present then (s, some pde.frame)
  else
    match pmmAllocPage s with
    | (s, none) => (s, none)
    | (s, some t) =>
      ({ s with
        table := update s.table t fun _ => .absent
        directory := setEntry s.directory dir (dirIndex virt)
          ({ flags with writable := true }.entry t) },
        some t)

def vmmMapPage (dir virt frame : Nat) (flags : PageFlags) : Option Vm :=
  let found :=
    match getPageTable s dir virt with
    | some t => (s, some t)
    | none => createPageTable s dir virt flags
  found.2.map fun t =>
    { found.1 with table := setEntry found.1.table t (tableIndex virt) (flags.entry frame) }

def vmmUnmapPage (dir virt : Nat) : Vm :=
  match getPageTable s dir virt with
  | none => s
  | some t =>
    let pte := s.table t (tableIndex virt)
    if pte.present then
      let s := { s with table := setEntry s.table t (tableIndex virt) .absent }
      if pte.cow then s else pmmFreePage s pte.frame
    else s

def vmmGetPhysical (dir virt : Nat) : Nat :=
  match getPageTable s dir virt with
  | none => 0
  | some t =>
    let pte := s.table t (tableIndex virt)
    if pte.present then pte.frame * pageSize + virt % pageSize else 0

/-! ## Address spaces -/

/-- `vmm_create_address_space`: the kernel half is the kernel's. -/
def vmmCreateAddressSpace : Vm × Option Nat :=
  match pmmAllocPage s with
  | (s, none) => (s, none)
  | (s, some dir) =>
    ({ s with
      directory := update s.directory dir fun i =>
        if (s.directory s.kernelDirectory i).present && decide (kernelIndex ≤ i) then
          s.directory s.kernelDirectory i
        else .absent },
      some dir)

def freeEntry (pte : Pte) : Vm := if pte.present then pmmFreePage s pte.frame else s

/-- One round of the outer loop of `vmm_destroy_address_space`. -/
def destroyTable (dir : Nat) (s : Vm) (i : Nat) : Vm :=
  let pde := s.directory dir i
  if pde.present then
    let s := (List.range 1024).foldl (fun s j => freeEntry s (s.table pde.frame j)) s
    let s := pmmFreePage s pde.frame
    { s with directory := setEntry s.directory dir i .absent }
  else s

def vmmDestroyAddressSpace (dir : Nat) : Vm :=
  pmmFreePage ((List.range kernelIndex).foldl (destroyTable dir) s) dir

/-- The entry that `vmm_clone_address_space` puts into both tables. -/
def Pte.shared (pte : Pte) : Pte :=
  if pte.present then { pte with writable := false, cow := true } else pte

/-- The clone of one table of the user half. The entries of the new table that are not
present in the old one are 0. -/
def cloneTable (dst src i : Nat) : Vm × Bool :=
  let pde := s.directory src i
  if pde.present then
    match pmmAllocPage s with
    | (s, none) => (s, false)
    | (s, some t) =>
      let shared := fun j => (s.table pde.frame j).shared
      ({ s with
        table := update (update s.table pde.frame shared) t fun j =>
          if (shared j).present then shared j else .absent
        directory := setEntry s.directory dst i { pde with frame := t } },
        true)
  else (s, true)

/-- The user half of `vmm_clone_address_space`, entry by entry until one fails. -/
def cloneTables (dst src : Nat) : List Nat → Vm → Vm × Bool
  | [], s => (s, true)
  | i :: rest, s =>
    match cloneTable s dst src i with
    | (s, true) => cloneTables dst src rest s
    | (s, false) => (s, false)

/-- `vmm_clone_address_space`. The loop comes to the kernel half last. -/
def vmmCloneAddressSpace (dst src : Nat) : Vm × Bool :=
  match cloneTables dst src (List.range kernelIndex) s with
  | (s, false) => (s, false)
  | (s, true) =>
    ({ s with
      directory := update s.directory dst fun i =>
        if kernelIndex ≤ i then s.directory src i else s.directory dst i },
      true)

/-! ## Page faults on present pages -/

def vmmCopyPageFaultCow (dir addr : Nat) : Option (Vm × Bool) :=
  let addr := addr / pageSize * pageSize
  let old := vmmGetPhysical s dir addr / pageSize
  match pmmAllocPage s with
  | (s, none) => some (s, false)
  | (s, some new) =>
    let s := { s with bytes := update s.bytes new (s.bytes old) }
    let s := vmmUnmapPage s dir addr
    (vmmMapPage s dir addr new ⟨true, decide (addr < kernelBase), false⟩).map fun s => (s, true)

/-- `vmm_handle_page_fault` with the present and write bits set in the error code:
`PTE_COW` is tested in the physical address. -/
def vmmHandleWriteFault (dir addr : Nat) : Option (Vm × Bool) :=
  if (vmmGetPhysical s dir addr).testBit 9 then vmmCopyPageFaultCow s dir addr
  else some (s, false)

/-!
## Shared memory, and the machine of address spaces

The shared-memory regions of `kernel/ipc_shm.c`, and the machine that takes the
operations on address spaces and regions one after another. A region holds the frames
it allocated until its count of references drops to zero; `kmalloc` of the region's
record may fail, which is an argument of `shm_create` here.
-/

open Foundation List

/-- `shm_region_t`. The owner is never read. -/
structure Region where
  key : Nat
  pages : List Nat
  refCount : Int
  readOnly : Bool
  deriving DecidableEq, Repr

/-- The memory, the live address spaces and the regions. -/
structure System where
  vm : Vm
  live : Nat → Bool
  regions : Nat → Option Region
  keyCounter : Nat

def shmMaxRegions : Nat := 256

/-! ## Creating a region -/

/-- The allocation loop of `shm_create`; when a page is missing, those already allocated
are freed. -/
def shmAllocPages : Nat → List Nat → Vm → Vm × Option (List Nat)
  | 0, pages, s => (s, some pages)
  | n + 1, pages, s =>
    match pmmAllocPage s with
    | (s, none) => (pages.foldl pmmFreePage s, none)
    | (s, some f) => shmAllocPages n (pages ++ [f]) s

variable (s : System)

def System.freeSlot : Option Nat :=
  (range shmMaxRegions).find? fun slot => (s.regions slot).isNone

def shmCreate (size : Nat) (readOnly heapOk : Bool) : System :=
  if heapOk then
    match shmAllocPages (add32 size (pageSize - 1) / pageSize) [] s.vm with
    | (vm, none) => { s with vm }
    | (vm, some pages) =>
      let s := { s with vm, keyCounter := s.keyCounter + 1 }
      match s.freeSlot with
      | none => { s with vm := pages.foldl pmmFreePage s.vm }
      | some slot =>
        { s with
          regions := update s.regions slot (some ⟨s.keyCounter - 1, pages, 1, readOnly⟩) }
  else s

/-! ## Attaching and detaching -/

def System.findRegion (key : Nat) : Option Nat :=
  (range shmMaxRegions).find? fun slot => (s.regions slot).any (·.key == key)

def pageAfter (virt n : Nat) : Nat := (virt + n * pageSize) % wordLimit

/-- The address that `shm_attach` tries at an attempt. -/
def attachAttempt (attempt : Nat) : Nat := (0x40000000 + attempt * 0x1000000) % wordLimit

/-- The address at which `shm_attach` maps: the first attempt with no page in the way,
and otherwise the first address. -/
def attachAddress (s : Vm) (dir pageCount : Nat) : Nat :=
  (((range 256).map attachAttempt).find? fun virt =>
    (range pageCount).all fun p => vmmGetPhysical s dir (pageAfter virt p) = 0).getD 0x40000000

/-- The mapping loop of `shm_attach`, from the page with the given number on. -/
def shmMapPages (dir virt : Nat) (flags : PageFlags) : Nat → List Nat → Vm → Option Vm
  | _, [], s => some s
  | n, f :: rest, s =>
    (vmmMapPage s dir (pageAfter virt n) f flags).bind (shmMapPages dir virt flags (n + 1) rest)

def shmAttach (key dir : Nat) : Option System :=
  match s.findRegion key with
  | none => some s
  | some slot =>
    match s.regions slot with
    | none => some s
    | some region =>
      let virt := attachAddress s.vm dir region.pages.length
      (shmMapPages dir virt ⟨!region.readOnly, true, false⟩ 0 region.pages s.vm).map fun vm =>
        { s with
          vm
          regions := update s.regions slot (some { region with refCount := region.refCount + 1 }) }

/-- The unmapping loop of `shm_detach`. -/
def shmUnmapPages (dir virt : Nat) (pages : List Nat) (s : Vm) : Vm :=
  pages.foldl (fun s n => vmmUnmapPage s dir (pageAfter virt n)) s

def shmDetach (key virt dir : Nat) : System :=
  match s.findRegion key with
  | none => s
  | some slot =>
    match s.regions slot with
    | none => s
    | some region =>
      let vm := shmUnmapPages dir virt (range region.pages.length) s.vm
      if region.refCount - 1 ≤ 0 then
        { s with
          vm := region.pages.foldl pmmFreePage vm
          regions := update s.regions slot none }
      else
        { s with
          vm
          regions := update s.regions slot (some { region with refCount := region.refCount - 1 }) }

/-! ## The machine -/

/-- One operation. -/
inductive Op where
  | createSpace
  | cloneSpace (dst src : Nat)
  | mapFresh (dir virt : Nat) (flags : PageFlags)
  | unmap (dir virt : Nat)
  | writeFault (dir addr : Nat)
  | shmCreate (size : Nat) (readOnly heapOk : Bool)
  | shmAttach (key dir : Nat)
  | shmDetach (key virt dir : Nat)
  | destroySpace (dir : Nat)

/-- One step of the machine; none after a panic. -/
def step : Op → Option System
  | .createSpace =>
    match vmmCreateAddressSpace s.vm with
    | (vm, none) => some { s with vm }
    | (vm, some dir) => some { s with vm, live := update s.live dir true }
  | .cloneSpace dst src => some { s with vm := (vmmCloneAddressSpace s.vm dst src).1 }
  | .mapFresh dir virt flags =>
    match pmmAllocPage s.vm with
    | (vm, none) => some { s with vm }
    | (vm, some f) => (vmmMapPage vm dir virt f flags).map fun vm => { s with vm }
  | .unmap dir virt => some { s with vm := vmmUnmapPage s.vm dir virt }
  | .writeFault dir addr =>
    (vmmHandleWriteFault s.vm dir addr).map fun result => { s with vm := result.1 }
  | .shmCreate size readOnly heapOk => some (Mm.shmCreate s size readOnly heapOk)
  | .shmAttach key dir => Mm.shmAttach s key dir
  | .shmDetach key virt dir => some (Mm.shmDetach s key virt dir)
  | .destroySpace dir =>
    some { s with
      vm := vmmDestroyAddressSpace s.vm dir
      live := update s.live dir false }

end FunsOS.Mm
