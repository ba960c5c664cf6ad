import Mathlib.Tactic.NormNum
import FunsOS.Foundation.LinkedList
import FunsOS.Foundation.Runs

/-!
# The block cache

`fs/cache.c` keeps blocks of 4096 bytes in entries that are linked twice: in a chain of the
hash table, and in the list of recently used entries. Entries are numbered in the order in
which `kmalloc` delivers them; an entry that is freed is in no list any more.

A block is eight sectors of the disk. The driver's functions are
`ide_read_sectors(drive, lba, count, buf)` and `ide_write_sectors(drive, lba, count, buf)` of
`drivers/ide.h`, with a `count` of eight bits. The cache calls them as
`ide_read_sectors(0, 8, lba, buf)`: every transfer starts at sector 8, and the number of
sectors is the low byte of the intended address (`transferCount`). A transfer of more than
eight sectors into a buffer of eight overwrites the memory behind it; such a call has no
result here.

What the allocator, the driver and the memory answer during a call is an argument
(`Answers`). The times of access and the counters of the statistics are left out, since
nothing depends on them.
-/

set_option autoImplicit false

namespace FunsOS.BlockCache

open Foundation
open Function (update)

variable {Sector : Type}

def cacheHashSize : Nat := 1024

/-- The contents of a buffer of 4096 bytes. -/
abbrev Block (Sector : Type) := Fin 8 → Sector

/-- The variables of `cache.c`, the fields of the entries, and the disk. -/
structure Cache (Sector : Type) where
  cacheHash : Nat → Option Nat
  lruHead : Option Nat
  lruTail : Option Nat
  maxCacheEntries : Nat
  blockNum : Nat → Nat
  data : Nat → Block Sector
  dirty : Nat → Bool
  valid : Nat → Bool
  refCount : Nat → Nat
  hashNext : Nat → Option Nat
  hashPrev : Nat → Option Nat
  lruNext : Nat → Option Nat
  lruPrev : Nat → Option Nat
  /-- The number of entries allocated so far. -/
  nextEntry : Nat
  disk : Nat → Sector

/-- What the environment answers during a call. -/
structure Answers (Sector : Type) where
  /-- `kmalloc` gives a buffer for the transfer. -/
  buffer : Bool
  /-- `kmalloc` gives an entry and its data buffer. -/
  entry : Bool
  /-- The contents of the buffer for the transfer. -/
  memory : Nat → Sector
  /-- `ide_read_sectors` returns 0. -/
  reads : Bool
  /-- `ide_write_sectors` returns 0 for the entry of this block. -/
  writes : Nat → Bool
  /-- The memory behind the data of the entry of this block. -/
  beyond : Nat → Nat → Sector
  /-- What a failed write leaves in a sector. -/
  failed : Nat → Sector

/-! ## Transfers -/

/-- The third argument of the driver's functions as the cache calls them: the product
`block_num * 8` in 32 bits, of which the driver takes the low byte. -/
def transferCount (block : Nat) : Nat := block * 8 % 2 ^ 32 % 256

/-- The second argument of the driver's functions as the cache calls them. -/
def transferLba : Nat := 8

/-- `ide_read_sectors` into a buffer. -/
def ideReadSectors (disk : Nat → Sector) (lba count : Nat) (buf : Nat → Sector) : Nat → Sector :=
  fun k => if k < count then disk (lba + k) else buf k

/-- A call of `ide_write_sectors`. -/
structure WriteCall (Sector : Type) where
  lba : Nat
  count : Nat
  buf : Nat → Sector
  ok : Bool

/-- The disk after a call of `ide_write_sectors`. -/
def WriteCall.apply (call : WriteCall Sector) (failed disk : Nat → Sector) : Nat → Sector :=
  fun l =>
    if call.lba ≤ l ∧ l < call.lba + call.count then
      if call.ok then call.buf (l - call.lba) else failed l
    else disk l

variable (s : Cache Sector)

/-- The buffer after the cache's call of `ide_read_sectors`, if the transfer fits it. -/
def readBlock (block : Nat) (answers : Answers Sector) : Option (Block Sector) :=
  if 8 < transferCount block then none
  else
    let buf := ideReadSectors s.disk transferLba (transferCount block) answers.memory
    some fun k => buf k

def writeCall (entry : Nat) (answers : Answers Sector) : WriteCall Sector :=
  { lba := transferLba
    count := transferCount (s.blockNum entry)
    buf := fun k =>
      if h : k < 8 then s.data entry ⟨k, h⟩ else answers.beyond (s.blockNum entry) k
    ok := answers.writes (s.blockNum entry) }

/-! ## The lists -/

def cacheHashFn (block : Nat) : Nat := block % cacheHashSize

/-- `cache_init`, with the limit that `cache_set_max_entries` may have left. -/
def cacheInit (disk : Nat → Sector) (maxCacheEntries : Nat) (anything : Block Sector) :
    Cache Sector :=
  { cacheHash := fun _ => none
    lruHead := none
    lruTail := none
    maxCacheEntries
    blockNum := fun _ => 0
    data := fun _ => anything
    dirty := fun _ => false
    valid := fun _ => false
    refCount := fun _ => 0
    hashNext := fun _ => none
    hashPrev := fun _ => none
    lruNext := fun _ => none
    lruPrev := fun _ => none
    nextEntry := 0
    disk }

def cacheLookup (block : Nat) : Option (Option Nat) :=
  scanList s.hashNext (fun entry => s.blockNum entry == block && s.valid entry) s.nextEntry
    (s.cacheHash (cacheHashFn block))

def lruRemove (entry : Nat) : Cache Sector :=
  { s with
    lruHead := restart s.lruHead (s.lruPrev entry) (s.lruNext entry)
    lruTail := restart s.lruTail (s.lruNext entry) (s.lruPrev entry)
    lruNext := update (redirect s.lruNext (s.lruPrev entry) (s.lruNext entry)) entry none
    lruPrev := update (redirect s.lruPrev (s.lruNext entry) (s.lruPrev entry)) entry none }

def lruAddFront (entry : Nat) : Cache Sector :=
  { s with
    lruNext := update s.lruNext entry s.lruHead
    lruPrev := redirect (update s.lruPrev entry none) s.lruHead (some entry)
    lruHead := some entry
    lruTail := if s.lruTail = none then some entry else s.lruTail }

/-- Move an entry to the front of the recently used ones. -/
def touch (entry : Nat) : Cache Sector := lruAddFront (lruRemove s entry) entry

/-- The part of `cache_insert` after both allocations. -/
def linkEntry (block : Nat) (data : Block Sector) : Cache Sector :=
  let idx := cacheHashFn block
  let entry := s.nextEntry
  lruAddFront
    { s with
      blockNum := update s.blockNum entry block
      data := update s.data entry data
      dirty := update s.dirty entry false
      valid := update s.valid entry true
      refCount := update s.refCount entry 0
      hashNext := update s.hashNext entry (s.cacheHash idx)
      hashPrev := redirect (update s.hashPrev entry none) (s.cacheHash idx) (some entry)
      cacheHash := update s.cacheHash idx (some entry)
      nextEntry := entry + 1 }
    entry

def cacheInsert (block : Nat) (data : Block Sector) (answers : Answers Sector) :
    Int × Cache Sector :=
  if answers.entry then (0, linkEntry s block data) else (-1, s)

def hashRemove (entry : Nat) : Cache Sector :=
  let idx := cacheHashFn (s.blockNum entry)
  { s with
    cacheHash :=
      if s.cacheHash idx = some entry then update s.cacheHash idx (s.hashNext entry)
      else s.cacheHash
    hashNext := redirect s.hashNext (s.hashPrev entry) (s.hashNext entry)
    hashPrev := redirect s.hashPrev (s.hashNext entry) (s.hashPrev entry) }

/-! ## The operations -/

/-- What a call returns, and the calls of `ide_write_sectors` it makes. -/
structure Outcome (Sector : Type) where
  code : Int
  buf : Option (Block Sector)
  calls : List (WriteCall Sector)

/-- A return code and nothing else. -/
def Outcome.ofCode (code : Int) : Outcome Sector := { code, buf := none, calls := [] }

def addRef (entry : Nat) : Cache Sector :=
  { s with refCount := update s.refCount entry ((s.refCount entry + 1) % 2 ^ 32) }

def cacheRead (block : Nat) (answers : Answers Sector) : Option (Outcome Sector × Cache Sector) :=
  (cacheLookup s block).bind fun found =>
    match found with
    | some entry =>
      some ({ code := 0, buf := some (s.data entry), calls := [] }, touch (addRef s entry) entry)
    | none =>
      if answers.buffer then
        (readBlock s block answers).bind fun data =>
          if answers.reads then
            let inserted := (cacheInsert s block data answers).2
            (cacheLookup inserted block).map fun found =>
              match found with
              | some entry =>
                ({ code := 0, buf := some (inserted.data entry), calls := [] },
                  addRef inserted entry)
              | none => (.ofCode (-1), inserted)
          else some (.ofCode (-1), s)
      else some (.ofCode (-1), s)

def setDirty (entry : Nat) (dirty : Bool) : Cache Sector :=
  { s with dirty := update s.dirty entry dirty }

def cacheWrite (block : Nat) (buf : Block Sector) (answers : Answers Sector) :
    Option (Outcome Sector × Cache Sector) :=
  (cacheLookup s block).bind fun found =>
    match found with
    | some entry =>
      let stored := { s with data := update s.data entry buf }
      some (.ofCode 0, touch (setDirty stored entry true) entry)
    | none =>
      let inserted := (cacheInsert s block buf answers).2
      (cacheLookup inserted block).map fun found =>
        match found with
        | some entry => (.ofCode 0, setDirty inserted entry true)
        | none => (.ofCode (-1), inserted)

/-- The call of `ide_write_sectors` for an entry, with its effect on the disk. -/
def writeEntry (entry : Nat) (answers : Answers Sector) : Cache Sector :=
  { s with disk := (writeCall s entry answers).apply answers.failed s.disk }

def cacheFlush (block : Nat) (answers : Answers Sector) : Option (Outcome Sector × Cache Sector) :=
  (cacheLookup s block).map fun found =>
    match found with
    | none => (.ofCode 0, s)
    | some entry =>
      if s.dirty entry then
        let call := writeCall s entry answers
        if call.ok then
          ({ code := 0, buf := none, calls := [call] },
            setDirty (writeEntry s entry answers) entry false)
        else ({ code := -1, buf := none, calls := [call] }, writeEntry s entry answers)
      else (.ofCode 0, s)

variable (answers : Answers Sector)

/-- The body of the loop of `cache_flush_all`. -/
def flushEntry (acc : Cache Sector × List (WriteCall Sector)) (entry : Nat) :
    Cache Sector × List (WriteCall Sector) :=
  if acc.1.dirty entry && acc.1.valid entry then
    (setDirty (writeEntry acc.1 entry answers) entry false,
      acc.2 ++ [writeCall acc.1 entry answers])
  else acc

/-- The loop over one chain. -/
def flushChain (acc : Cache Sector × List (WriteCall Sector)) (idx : Nat) :
    Option (Cache Sector × List (WriteCall Sector)) :=
  forEachNode (fun acc => acc.1.hashNext) (flushEntry answers) acc.1.nextEntry acc
    (acc.1.cacheHash idx)

def cacheFlushAll : Option (Outcome Sector × Cache Sector) :=
  (runPartial (flushChain answers) (s, []) (List.range cacheHashSize)).map fun flushed =>
    ({ code := 0, buf := none, calls := flushed.2 }, flushed.1)

/-- The write-back of an entry that is about to be freed. -/
def writeIfDirty (entry : Nat) (answers : Answers Sector) :
    List (WriteCall Sector) × Cache Sector :=
  if s.dirty entry then ([writeCall s entry answers], writeEntry s entry answers) else ([], s)

/-- The search of `cache_evict`: from the end of the list, an entry without readers. -/
def evictionVictim : Option (Option Nat) :=
  scanList s.lruPrev (fun entry => s.refCount entry == 0) s.nextEntry s.lruTail

def cacheEvict : Option (Outcome Sector × Cache Sector) :=
  (evictionVictim s).map fun found =>
    match found with
    | none => (.ofCode 0, s)
    | some entry =>
      let written := writeIfDirty s entry answers
      ({ code := 0, buf := none, calls := written.1 }, hashRemove (lruRemove written.2 entry) entry)

/-- The body of the counting loops. -/
def countEntry (count entry : Nat) : Nat :=
  if s.valid entry then count + 1 else count

def countChain (count idx : Nat) : Option Nat :=
  forEachNode (fun _ => s.hashNext) (countEntry s) s.nextEntry count (s.cacheHash idx)

/-- The number of entries, as `cache_prefetch` and `cache_set_max_entries` count them. -/
def countEntries : Option Nat :=
  runPartial (countChain s) 0 (List.range cacheHashSize)

def cachePrefetch (block : Nat) (answers : Answers Sector) :
    Option (Outcome Sector × Cache Sector) :=
  (cacheLookup s block).bind fun found =>
    match found with
    | some entry => some (.ofCode 0, touch s entry)
    | none =>
      (countEntries s).bind fun entries =>
        if 0 < s.maxCacheEntries ∧ s.maxCacheEntries ≤ entries then some (.ofCode (-1), s)
        else if answers.buffer then
          (readBlock s block answers).map fun data =>
            if answers.reads then
              let inserted := cacheInsert s block data answers
              (.ofCode inserted.1, inserted.2)
            else (.ofCode (-1), s)
        else some (.ofCode (-1), s)

def cacheInvalidate (block : Nat) (answers : Answers Sector) :
    Option (Outcome Sector × Cache Sector) :=
  (cacheLookup s block).map fun found =>
    match found with
    | none => (.ofCode 0, s)
    | some entry =>
      if s.valid entry then
        let written := writeIfDirty s entry answers
        ({ code := 0, buf := none, calls := written.1 },
          lruRemove (hashRemove written.2 entry) entry)
      else (.ofCode 0, s)

/-- `cache_set_max_entries`. To make room it calls `cache_evict`, which waits for the mutex
that the caller holds: that call never returns. -/
def cacheSetMaxEntries (max : Nat) : Option (Outcome Sector × Cache Sector) :=
  (countEntries s).bind fun entries =>
    if 0 < max ∧ max < entries then none
    else some (.ofCode 0, { s with maxCacheEntries := max })

/-- A call. -/
inductive Op (Sector : Type) where
  | read (block : Nat)
  | write (block : Nat) (buf : Block Sector)
  | flush (block : Nat)
  | flushAll
  | evict
  | prefetch (block : Nat)
  | invalidate (block : Nat)
  | setMaxEntries (max : Nat)

/-- A call with the answers it gets; `none` is a call that does not return, or that writes
beyond a buffer. -/
def Cache.call : Op Sector → Option (Outcome Sector × Cache Sector)
  | .read block => cacheRead s block answers
  | .write block buf => cacheWrite s block buf answers
  | .flush block => cacheFlush s block answers
  | .flushAll => cacheFlushAll s answers
  | .evict => cacheEvict s answers
  | .prefetch block => cachePrefetch s block answers
  | .invalidate block => cacheInvalidate s block answers
  | .setMaxEntries max => cacheSetMaxEntries s max

end FunsOS.BlockCache
