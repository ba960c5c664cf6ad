import FunsOS.Foundation.Word32

/-!
# The kernel heap

The allocator of `kernel/kheap.c`: a singly linked list of block headers in
address order, first fit with splitting, growth by whole pages, and coalescing
with both neighbours on `kfree`.

Memory is modelled at the granularity of headers, one function per header
field: `size a` is the field `size` of the header at address `a`. Byte stores
that go through payload pointers (clearing a new page, `kcalloc`'s clearing,
`krealloc`'s copy) act on the headers in the bytes they cover, so a store that
runs over a header is seen.

Each call takes the number of pages `pmm_alloc_page` still hands out before it
returns NULL. A loop over the list runs with `walkLimit` steps of fuel, more
than there are addresses: a walk that uses it up is in a cycle, and the call
does not return. `none` stands for that, and for a read through NULL.
-/

set_option autoImplicit false

namespace FunsOS.Kheap

open Foundation
open Function (update)

/-- `HEAP_BLOCK_MAGIC`. -/
def blockMagic : Nat := 0xCAFE

/-- `sizeof(heap_header_t)`. -/
def headerSize : Nat := 16

def alignment : Nat := 8

def pageSize : Nat := 4096

/-- More steps than there are addresses. -/
def walkLimit : Nat := wordLimit + 1

/-- The allocator's variables, and the header fields by header address. -/
structure Heap where
  heapStart : Nat
  heapEnd : Nat
  heapCurrent : Nat
  heapFirst : Option Nat
  magic : Nat → Nat
  size : Nat → Nat
  isFree : Nat → Bool
  next : Nat → Option Nat

def pointer (address : Nat) : Option Nat := if address = 0 then none else some address

/-! ## Stores -/

variable (h : Heap)

/-- The four stores that set up a header. -/
def Heap.writeHeader (a size : Nat) (isFree : Bool) (next : Option Nat) : Heap :=
  { h with
    magic := update h.magic a blockMagic
    size := update h.size a size
    isFree := update h.isFree a isFree
    next := update h.next a next }

/-- Clear `len` bytes at `lo`. -/
def Heap.zeroRange (lo len : Nat) : Heap :=
  { h with
    magic := fun a => if lo ≤ a ∧ a < lo + len then 0 else h.magic a
    size := fun a => if lo ≤ a ∧ a < lo + len then 0 else h.size a
    isFree := fun a => if lo ≤ a ∧ a < lo + len then false else h.isFree a
    next := fun a => if lo ≤ a ∧ a < lo + len then none else h.next a }

/-- Copy `len` bytes from `src` to `dst`. -/
def Heap.copyRange (src dst len : Nat) : Heap :=
  { h with
    magic := fun a => if dst ≤ a ∧ a < dst + len then h.magic (a - dst + src) else h.magic a
    size := fun a => if dst ≤ a ∧ a < dst + len then h.size (a - dst + src) else h.size a
    isFree := fun a => if dst ≤ a ∧ a < dst + len then h.isFree (a - dst + src) else h.isFree a
    next := fun a => if dst ≤ a ∧ a < dst + len then h.next (a - dst + src) else h.next a }

/-! ## Growth -/

/-- The loop of `expand_heap`: map and clear page after page. The flag says
whether it got through; when `pmm_alloc_page` returns NULL the function returns
from inside the loop. -/
def expandPages : Nat → Nat → Heap → Heap × Bool
  | 0, _, h => (h, true)
  | _ + 1, 0, h => (h, false)
  | pages + 1, avail + 1, h =>
    expandPages pages avail
      { h.zeroRange h.heapCurrent pageSize with
        heapCurrent := add32 h.heapCurrent pageSize }

/-- The bytes `expand_heap` asks for. -/
def needed (size : Nat) : Nat := alignUp (add32 size headerSize) pageSize

def expandHeap (size avail : Nat) : Heap :=
  match expandPages (needed size / pageSize) avail h with
  | (h, true) => { h with heapEnd := h.heapCurrent }
  | (h, false) => h

/-- The loop of `kheap_init`, which maps pages and does not clear them. -/
def initPages : Nat → Nat → Nat → Nat × Bool
  | 0, _, current => (current, true)
  | _ + 1, 0, current => (current, false)
  | pages + 1, avail + 1, current => initPages pages avail (add32 current pageSize)

/-- `kheap_init`, over whatever the memory holds. When a page is missing the
first header is not written and `heap_first` stays NULL. -/
def kheapInit (memory : Heap) (start size avail : Nat) : Heap :=
  let h := { memory with heapStart := start, heapEnd := add32 start size, heapFirst := none }
  match initPages (add32 size (pageSize - 1) / pageSize) avail start with
  | (current, false) => { h with heapCurrent := current }
  | (current, true) =>
    { { h with heapCurrent := current } with heapFirst := pointer start }.writeHeader
      start (sub32 size headerSize) true none

/-! ## Allocation -/

/-- How the first-fit walk of `kmalloc` ends. -/
inductive Search where
  /-- a free block that is large enough -/
  | found (block : Nat)
  /-- a header without the magic number -/
  | badMagic
  /-- the end of the list -/
  | exhausted
  deriving DecidableEq, Repr

/-- The first-fit walk of `kmalloc`. -/
def search (h : Heap) (size : Nat) : Nat → Option Nat → Option Search
  | 0, _ => none
  | _ + 1, none => some .exhausted
  | fuel + 1, some a =>
    if h.magic a ≠ blockMagic then some .badMagic
    else if h.isFree a ∧ size ≤ h.size a then some (.found a)
    else search h size fuel (h.next a)

/-- The split of `kmalloc`: the bytes after the first `size` become a free block. -/
def splitBlock (current size : Nat) : Heap :=
  let newBlock := add32 (add32 current headerSize) size
  let h := h.writeHeader newBlock (sub32 (sub32 (h.size current) size) headerSize) true
    (h.next current)
  { h with
    size := update h.size current size
    next := update h.next current (pointer newBlock) }

/-- What `kmalloc` does with the block it found: split off the rest when the
rest is worth a block, and take the block. -/
def carve (current size : Nat) : Heap :=
  let h :=
    if add32 (add32 size headerSize) alignment < h.size current then splitBlock h current size
    else h
  { h with isFree := update h.isFree current false }

/-- `while (current->next) current = current->next`. -/
def lastBlock (h : Heap) : Nat → Nat → Option Nat
  | 0, _ => none
  | fuel + 1, a =>
    match h.next a with
    | none => some a
    | some b => lastBlock h fuel b

/-- What `kmalloc` does when no block fits: grow the heap, write a header where
the new region is taken to start, and link it after the last block. -/
def appendBlock (size avail : Nat) : Option (Heap × Option Nat) :=
  let h := expandHeap h size avail
  let newBlock := sub32 h.heapCurrent (needed size)
  let h := h.writeHeader newBlock size false none
  match h.heapFirst with
  | none => none
  | some first =>
    (lastBlock h walkLimit first).map fun last =>
      ({ h with next := update h.next last (pointer newBlock) },
        pointer (add32 newBlock headerSize))

def kmalloc (size avail : Nat) : Option (Heap × Option Nat) :=
  if size = 0 then some (h, none)
  else
    match search h (alignUp size alignment) walkLimit h.heapFirst with
    | none => none
    | some .badMagic => some (h, none)
    | some (.found current) =>
      some (carve h current (alignUp size alignment), pointer (add32 current headerSize))
    | some .exhausted => appendBlock h (alignUp size alignment) avail

/-! ## Release -/

/-- `a->size += sizeof(heap_header_t) + b->size; a->next = b->next`. -/
def absorb (a b : Nat) : Heap :=
  { h with
    size := update h.size a (add32 (h.size a) (add32 headerSize (h.size b)))
    next := update h.next a (h.next b) }

/-- The coalescing test of `kfree` on a neighbour. -/
def canAbsorb : Option Nat → Option Nat
  | none => none
  | some b => if h.magic b = blockMagic ∧ h.isFree b then some b else none

/-- `while (current && current != header) { prev = current; … }`. -/
def findPrev (h : Heap) (header : Nat) : Nat → Option Nat → Option Nat → Option (Option Nat)
  | 0, _, _ => none
  | _ + 1, prev, none => some prev
  | fuel + 1, prev, some a =>
    if a = header then some prev else findPrev h header fuel (some a) (h.next a)

/-- Coalesce a freed block with the block after it. -/
def coalesceNext (header : Nat) : Heap :=
  match canAbsorb h (h.next header) with
  | some b => absorb h header b
  | none => h

/-- Coalesce a freed block with the block before it. -/
def coalescePrev (prev : Option Nat) (header : Nat) : Heap :=
  match canAbsorb h prev with
  | some a => absorb h a header
  | none => h

def kfree : Option Nat → Option Heap
  | none => some h
  | some ptr =>
    let header := sub32 ptr headerSize
    if h.magic header ≠ blockMagic then some h
    else
      let h := coalesceNext { h with isFree := update h.isFree header true } header
      (findPrev h header walkLimit none h.heapFirst).map fun prev => coalescePrev h prev header

/-! ## `kcalloc` and `krealloc` -/

/-- `kcalloc`, with its overflow test `num > (size_t)-1 / size`. -/
def kcalloc (num size avail : Nat) : Option (Heap × Option Nat) :=
  if num ≠ 0 ∧ size ≠ 0 ∧ (wordLimit - 1) / size < num then some (h, none)
  else
    let total := num * size % wordLimit
    (kmalloc h total avail).map fun
      | (h, none) => (h, none)
      | (h, some ptr) => (h.zeroRange ptr total, some ptr)

def krealloc (ptr : Option Nat) (size avail : Nat) : Option (Heap × Option Nat) :=
  match ptr with
  | none => kmalloc h size avail
  | some p =>
    let header := sub32 p headerSize
    if size = 0 then (kfree h (some p)).map fun h => (h, none)
    else if h.magic header ≠ blockMagic then some (h, none)
    else if size ≤ h.size header then some (h, some p)
    else
      match kmalloc h size avail with
      | none => none
      | some (h, none) => some (h, none)
      | some (h, some q) =>
        (kfree (h.copyRange p q (h.size header)) (some p)).map fun h => (h, some q)

end FunsOS.Kheap
