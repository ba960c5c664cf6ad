import FunsOS.Foundation.Word32

/-!
# Slab caches

A cache of `kernel/slab.c`. The slabs on `slabs_full` and `slabs_partial` are lists; the free
list of a slab is threaded through its objects, so it is kept as the code has it, with the
link of a free object in memory at the address of the object (`next`).

What `kmalloc` answers is an argument of the calls: whether there is memory for the record of
a slab, and where its objects are. A NULL pointer that is followed, and a division by zero,
have no next state. The bitmap of a slab, `slabs_free` and the name, the flags and the
statistics of a cache are not used by the functions here and are left out.
-/

set_option autoImplicit false

namespace FunsOS.SlabCache

open Foundation
open Function (update)

def slabPageSize : Nat := 4096

/-- `sizeof(struct slab_bufctl)`, the size of a pointer. -/
def bufctlSize : Nat := 4

/-- `struct slab`. -/
structure Slab where
  freeCount : Nat
  total : Nat
  objects : Nat
  freeList : Option Nat
  deriving DecidableEq, Repr

/-- `struct kmem_cache`. -/
structure Cache where
  objSize : Nat
  objsPerSlab : Nat
  totalObjects : Nat
  inuse : Nat
  slabsFull : List Slab
  slabsPartial : List Slab
  deriving DecidableEq, Repr

/-- The cache, and the word at the address of each object. -/
structure State where
  cache : Cache
  next : Nat → Option Nat

/-! ## Growing -/

def slabAlignSize (size align : Nat) : Nat := alignUp size (if align = 0 then bufctlSize else align)

/-- The loop of `slab_grow` that threads the free list, from the last object to the first. -/
def thread (mem objSize : Nat) :
    Nat → (Nat → Option Nat) → Option Nat → (Nat → Option Nat) × Option Nat
  | 0, next, freeList => (next, freeList)
  | i + 1, next, freeList =>
    let bufctl := add32 mem (i * objSize % wordLimit)
    thread mem objSize i (update next bufctl freeList) (some bufctl)

/-- `memset(objects, 0, total_mem)`. -/
def zeroed (mem : Nat) (next : Nat → Option Nat) : Nat → Option Nat := fun address =>
  if mem ≤ address ∧ address < mem + slabPageSize then none else next address

variable (s : State)

/-- `slab_grow`; the flag says whether it returns 0. -/
def slabGrow (slabOk : Bool) (objects : Option Nat) : State × Bool :=
  if !slabOk then (s, false)
  else
    match objects with
    | none => (s, false)
    | some mem =>
      let objsPerSlab := s.cache.objsPerSlab
      let threaded := thread mem s.cache.objSize objsPerSlab (zeroed mem s.next) none
      let slab : Slab := ⟨objsPerSlab, objsPerSlab, mem, threaded.2⟩
      (⟨{ s.cache with
          slabsPartial := slab :: s.cache.slabsPartial
          totalObjects := add32 s.cache.totalObjects objsPerSlab }, threaded.1⟩, true)

/-- `kmem_cache_create`. A size of 0 gives no cache, and an object size of 0 is a division
by zero. -/
def kmemCacheCreate (size align : Nat) (slabOk : Bool) (objects : Option Nat)
    (next : Nat → Option Nat) : Option State :=
  if size = 0 then none
  else
    let size := if size < bufctlSize then bufctlSize else size
    let objSize := slabAlignSize size align
    if objSize = 0 then none
    else
      let objsPerSlab := slabPageSize / objSize
      let cache : Cache := ⟨objSize, if objsPerSlab < 1 then 1 else objsPerSlab, 0, 0, [], []⟩
      some (slabGrow ⟨cache, next⟩ slabOk objects).1

/-! ## Allocating and freeing -/

/-- An object is taken from the first slab with a free one. -/
def takeFirst : Option (State × Option Nat) :=
  match s.cache.slabsPartial with
  | [] => none
  | slab :: rest =>
    match slab.freeList with
    | none => none
    | some bufctl =>
      let slab := { slab with freeList := s.next bufctl, freeCount := sub32 slab.freeCount 1 }
      let cache := { s.cache with inuse := add32 s.cache.inuse 1 }
      let cache :=
        if slab.freeCount = 0 then
          { cache with slabsPartial := rest, slabsFull := slab :: cache.slabsFull }
        else { cache with slabsPartial := slab :: rest }
      some (⟨cache, s.next⟩, some bufctl)

def kmemCacheAlloc (slabOk : Bool) (objects : Option Nat) : Option (State × Option Nat) :=
  if s.cache.slabsPartial = [] then
    match slabGrow s slabOk objects with
    | (s, false) => some (s, none)
    | (s, true) => takeFirst s
  else takeFirst s

def Slab.contains (slab : Slab) (obj : Nat) : Bool :=
  decide (slab.objects ≤ obj) && decide (obj < add32 slab.objects slabPageSize)

def Slab.put (slab : Slab) (obj : Nat) : Slab :=
  { slab with freeList := some obj, freeCount := add32 slab.freeCount 1 }

/-- Change the first element with a property. -/
def modifyFirst {α : Type} (p : α → Bool) (f : α → α) : List α → List α
  | [] => []
  | a :: as => if p a then f a :: as else a :: modifyFirst p f as

/-- `kmem_cache_free`. An object of a full slab brings the slab back to `slabs_partial`. -/
def kmemCacheFree (obj : Nat) : State :=
  let next := update s.next obj none
  match s.cache.slabsFull.find? (·.contains obj) with
  | some slab =>
    ⟨{ s.cache with
        slabsFull := s.cache.slabsFull.eraseP (·.contains obj)
        slabsPartial := slab.put obj :: s.cache.slabsPartial
        inuse := sub32 s.cache.inuse 1 },
      update next obj slab.freeList⟩
  | none =>
    match s.cache.slabsPartial.find? (·.contains obj) with
    | some slab =>
      ⟨{ s.cache with
          slabsPartial := modifyFirst (·.contains obj) (·.put obj) s.cache.slabsPartial
          inuse := sub32 s.cache.inuse 1 },
        update next obj slab.freeList⟩
    | none => ⟨s.cache, next⟩

/-! ## Runs -/

/-- The state and the objects that are handed out. -/
structure Clients where
  state : State
  handedOut : List Nat

/-- The calls of the clients, and what they write into their objects. -/
inductive Op where
  | alloc (slabOk : Bool) (objects : Option Nat)
  | free (obj : Nat)
  | write (obj : Nat) (word : Option Nat)
  deriving DecidableEq, Repr

/-- One call. -/
def Clients.step (c : Clients) : Op → Option Clients
  | .alloc slabOk objects =>
    match kmemCacheAlloc c.state slabOk objects with
    | none => none
    | some (s, none) => some ⟨s, c.handedOut⟩
    | some (s, some obj) => some ⟨s, obj :: c.handedOut⟩
  | .free obj => some ⟨kmemCacheFree c.state obj, c.handedOut.erase obj⟩
  | .write obj word =>
    some ⟨{ c.state with next := update c.state.next obj word }, c.handedOut⟩

def Cache.slabs (cache : Cache) : List Slab := cache.slabsFull ++ cache.slabsPartial

/-- The memory of two slabs is disjoint. -/
def Slab.Apart (a b : Slab) : Prop :=
  a.objects + slabPageSize ≤ b.objects ∨ b.objects + slabPageSize ≤ a.objects

/-- What `kmalloc` promises of the memory of a new slab: it does not reach the end of the
address space, and is none that another slab has. -/
def Fresh (slabs : List Slab) (mem : Nat) : Prop :=
  mem + slabPageSize < wordLimit ∧
    ∀ slab ∈ slabs, mem + slabPageSize ≤ slab.objects ∨ slab.objects + slabPageSize ≤ mem
deriving Decidable

/-- Objects are freed and written by the clients that have them, and `kmalloc` keeps its
promise. -/
def Clients.Proper (c : Clients) : Op → Prop
  | .alloc _ objects => ∀ mem ∈ objects, Fresh c.state.cache.slabs mem
  | .free obj | .write obj _ => obj ∈ c.handedOut

instance (c : Clients) : ∀ op, Decidable (c.Proper op)
  | .alloc _ none => isTrue nofun
  | .alloc _ (some mem) => decidable_of_iff (Fresh c.state.cache.slabs mem) (by simp [Clients.Proper])
  | .free obj | .write obj _ => inferInstanceAs (Decidable (obj ∈ c.handedOut))

end FunsOS.SlabCache
