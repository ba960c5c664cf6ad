import FunsOS.BlockCache.Operations

/-!
# Reading through the block cache

What a client of the cache expects of a block is the data of its last successful write, or
what the disk had in the beginning (`Session.latest`).

The expectation is met as long as every transfer is one of block 1: the cache calls the
driver with the address and the number of sectors exchanged, and block 1 is the only block
for which the exchanged arguments mean the same. Blocks that are written and never
transferred are not affected. `OnlyBlockOne` says this of a call; in every run of such calls,
with a driver that works, reads return what is expected and flushing brings it to the disk
(`cache_is_transparent`).
-/

set_option autoImplicit false

namespace FunsOS.BlockCache

open Foundation WriteBack

variable {Sector : Type}

/-- The cache, and what a client expects of every block. -/
structure Session (Sector : Type) where
  cache : Cache Sector
  latest : Nat → Block Sector

/-- After `cache_init`. -/
def Session.start (disk : Nat → Sector) (max : Nat) (anything : Block Sector) : Session Sector :=
  { cache := cacheInit disk max anything, latest := blockOf disk }

/-- What is expected after a call that returned the code. -/
def latestAfter (latest : Nat → Block Sector) (op : Op Sector) (code : Int) : Nat → Block Sector :=
  match op with
  | .write block buf => if code = 0 then Function.update latest block buf else latest
  | _ => latest

def Session.step (st : Session Sector) (call : Answers Sector × Op Sector) :
    Option (Session Sector) :=
  (st.cache.call call.1 call.2).map fun result =>
    { cache := result.2, latest := latestAfter st.latest call.2 result.1.code }

def Answers.IdeSucceeds (answers : Answers Sector) : Prop :=
  answers.reads ∧ ∀ block, answers.writes block

variable (s : Cache Sector)

def cachedEntry (block : Nat) : Option Nat := (cacheLookup s block).join

def IsCached (entry : Nat) : Prop :=
  cachedEntry s (s.blockNum entry) = some entry
deriving Decidable

def OnlyBlockOne (answers : Answers Sector) : Op Sector → Prop
  | .read block => cachedEntry s block = none → answers.buffer → block = 1
  | .write _ _ => True
  | .flush block => ∀ entry ∈ cachedEntry s block, s.dirty entry → block = 1
  | .flushAll =>
    ∀ entry < s.nextEntry, IsCached s entry → s.dirty entry → s.blockNum entry = 1
  | .evict => ∀ entry ∈ (evictionVictim s).join, s.dirty entry → s.blockNum entry = 1
  | .prefetch block => cachedEntry s block = none → answers.buffer → block = 1
  | .invalidate block => ∀ entry ∈ cachedEntry s block, s.dirty entry → block = 1
  -- making room never returns
  | .setMaxEntries max => max = 0 ∨ ∀ entries ∈ countEntries s, entries ≤ max

instance OnlyBlockOne.decidable (s : Cache Sector) (answers : Answers Sector) :
    (op : Op Sector) → Decidable (OnlyBlockOne s answers op)
  | .read _ | .prefetch _ => inferInstanceAs (Decidable (_ → _ → _))
  | .write _ _ => inferInstanceAs (Decidable True)
  | .flush block | .invalidate block =>
    inferInstanceAs (Decidable (∀ entry ∈ cachedEntry s block, _ → _))
  | .flushAll => inferInstanceAs (Decidable (∀ entry < s.nextEntry, _ → _ → _))
  | .evict => inferInstanceAs (Decidable (∀ entry ∈ (evictionVictim s).join, _ → _))
  | .setMaxEntries _ => inferInstanceAs (Decidable (_ ∨ ∀ entries ∈ countEntries s, _))

/-! ## Conditions on the state and on what it shows -/

variable {s : Cache Sector} {c : WriteBack Nat (Block Sector)} {answers : Answers Sector}
  {block : Nat} {data : Block Sector}

section

variable (shows : Shows s c)
include shows

theorem Shows.line_of_cached :
    c.lines block = (cachedEntry s block).map fun entry => (s.data entry, s.dirty entry) := by
  obtain ⟨found, looked, line⟩ := shows.lookup
  rw [cachedEntry, looked, line]
  rfl

theorem Shows.absent_of_line (line : c.lines block = none) : cachedEntry s block = none := by
  rw [shows.line_of_cached] at line
  simpa using line

theorem Shows.dirty_entry (line : c.lines block = some (data, true)) :
    ∃ entry, cachedEntry s block = some entry ∧ s.dirty entry ∧ s.data entry = data ∧
      s.blockNum entry = block ∧ entry < s.nextEntry := by
  obtain ⟨lru, chain, linked, rfl⟩ := shows
  obtain ⟨e, member, isBlock, isLine⟩ := linked.line_iff.mp line
  have found : cachedEntry s block = some e := by
    rw [cachedEntry, linked.lookup_eq, linked.entryOf_eq_some.mpr ⟨member, isBlock⟩]
    rfl
  exact ⟨e, found, congrArg Prod.snd isLine, congrArg Prod.fst isLine, isBlock, linked.old e member⟩

theorem Shows.dirty_line {P : Prop}
    (entries : ∀ entry ∈ cachedEntry s block, s.dirty entry → P) (data : Block Sector)
    (line : c.lines block = some (data, true)) : P := by
  obtain ⟨entry, found, isDirty, -⟩ := shows.dirty_entry line
  exact entries entry found isDirty

theorem Shows.dirty_lines {P : Nat → Prop}
    (entries : ∀ entry < s.nextEntry, IsCached s entry → s.dirty entry →
      P (s.blockNum entry)) (block : Nat) (data : Block Sector)
    (line : c.lines block = some (data, true)) : P block := by
  obtain ⟨entry, found, isDirty, -, isBlock, old⟩ := shows.dirty_entry line
  rw [← isBlock]
  refine entries entry old ?_ isDirty
  rw [IsCached, isBlock, found]

theorem Shows.backing_eq : c.backing = blockOf s.disk := by
  obtain ⟨lru, chain, linked, rfl⟩ := shows
  rfl

end

/-! ## Changes that a client does not see -/

/-- The client sees the expected data, and clean lines are those of the disk. -/
structure Expected (c : WriteBack Nat (Block Sector)) (latest : Nat → Block Sector) : Prop where
  coherent : c.Coherent
  visible : c.visible = latest

variable {latest : Nat → Block Sector}

section

variable (expected : Expected c latest)
include expected

theorem Expected.fill (miss : c.lines block = none) :
    Expected (c.setLine block (some (c.backing block, false))) latest :=
  ⟨expected.coherent.clean rfl, (visible_fill miss).trans expected.visible⟩

theorem Expected.store {buf : Block Sector} :
    Expected (c.setLine block (some (buf, true))) (Function.update latest block buf) :=
  ⟨expected.coherent.store, by rw [visible_store, expected.visible]⟩

theorem Expected.save (line : c.lines 1 = some (data, true)) : Expected (saved c data) latest where
  coherent := (expected.coherent.setBacking line).clean setBacking_self
  visible := by
    have lineAfter : (c.setBacking 1 data).lines 1 = some (data, true) := line
    rw [saved, visible_clean lineAfter, visible_setBacking line, expected.visible]

theorem Expected.takenOut {calls : List (WriteCall Sector)}
    {c' : WriteBack Nat (Block Sector)} (out : TakenOut c calls c') : Expected c' latest := by
  cases out with
  | nothing => exact expected
  | clean line =>
    refine ⟨expected.coherent.drop, ?_⟩
    rw [visible_drop line (expected.coherent _ _ line), expected.visible]
  | @dirty data _ line _ =>
    have lineAfter : (c.setBacking 1 data).lines 1 = some (data, true) := line
    refine ⟨(expected.coherent.setBacking line).drop, ?_⟩
    rw [visible_drop lineAfter setBacking_self, visible_setBacking line, expected.visible]

end

/-! ## Calls -/

def Session.Transparent (st : Session Sector) : Prop := ∃ c, Shows st.cache c ∧ Expected c st.latest

theorem Session.start_transparent {disk : Nat → Sector} {max : Nat} {anything : Block Sector} :
    (Session.start disk max anything).Transparent :=
  ⟨_, cacheInit_shows, ⟨fun _ _ line => absurd line.symm (by simp), rfl⟩⟩

/-- The condition of a call for a block that is not cached. -/
theorem fits_of_onlyOne (careful : answers.buffer → block = 1) :
    answers.buffer → transferCount block ≤ 8 := by
  intro buffer
  rw [careful buffer]
  exact Nat.le_refl 8

variable {st : Session Sector}

/-- **A read of a cached block, or of block 1, returns what is expected.** -/
theorem Session.Transparent.read (transparent : st.Transparent) (ide : answers.IdeSucceeds)
    (careful : OnlyBlockOne st.cache answers (.read block)) :
    Returns (cacheRead st.cache block answers) fun result =>
      (∃ c, Shows result.2 c ∧ Expected c st.latest) ∧
        (result.1.code = 0 ∧ result.1.buf = some (st.latest block) ∨
          result.1.code = -1 ∧ ¬(answers.buffer ∧ answers.entry)) := by
  obtain ⟨c, shows, expected⟩ := transparent
  cases line : c.lines block with
  | some marked =>
    obtain ⟨result, returned, outcome, after⟩ := shows.read_hit line
    refine ⟨result, returned, ⟨c, after, expected⟩, .inl ?_⟩
    rw [outcome, ← expected.visible, visible, line]
    exact ⟨rfl, rfl⟩
  | none =>
    have absent := shows.absent_of_line line
    obtain ⟨result, returned, -, cases_⟩ := shows.read_miss line (fits_of_onlyOne (careful absent))
    refine ⟨result, returned, ?_⟩
    rcases cases_ with ⟨data, buffer, read, code, buf, after⟩ | ⟨code, -, unchanged, failed⟩
    · have isOne := careful absent buffer
      rw [isOne, readBlock_one, Option.some.injEq, ← shows.backing_eq] at read
      rw [isOne] at line after ⊢
      rw [← read] at after
      refine ⟨⟨_, after, expected.fill line⟩, .inl ⟨code, ?_⟩⟩
      rw [buf, ← read, ← expected.visible, visible, line]
      rfl
    · rw [unchanged]
      refine ⟨⟨c, shows, expected⟩, .inr ⟨code, fun both => failed ⟨both.1, ide.1, both.2⟩⟩⟩

/-- **Flushing everything brings to the disk what is expected.** -/
theorem Session.Transparent.flushAll (transparent : st.Transparent) (ide : answers.IdeSucceeds)
    (careful : OnlyBlockOne st.cache answers .flushAll) :
    Returns (cacheFlushAll st.cache answers) fun result =>
      (∃ c, Shows result.2 c ∧ Expected c st.latest) ∧
        ∀ block, blockOf result.2.disk block = st.latest block := by
  obtain ⟨c, shows, expected⟩ := transparent
  obtain ⟨result, returned, c', after, clean, how⟩ :=
    shows.flushAll (shows.dirty_lines (P := fun block => block = 1) careful) fun _ _ => ide.2 1
  have expected' : Expected c' st.latest := by
    rcases how with ⟨-, rfl⟩ | ⟨data, call, line, -, -, rfl⟩
    · exact expected
    · exact expected.save line
  refine ⟨result, returned, ⟨c', after, expected'⟩, fun block => ?_⟩
  rw [← after.backing_eq, expected'.coherent.backing_eq clean, expected'.visible]

/-- **A call that transfers no block but block 1 keeps the cache transparent.** -/
theorem Session.Transparent.step (transparent : st.Transparent) {call : Answers Sector × Op Sector}
    (ide : call.1.IdeSucceeds) (careful : OnlyBlockOne st.cache call.1 call.2) :
    Returns (st.step call) Session.Transparent := by
  obtain ⟨answers, op⟩ := call
  have whole := transparent
  obtain ⟨c, shows, expected⟩ := transparent
  cases op with
  | read block => exact (whole.read ide careful).map fun _ after => after.1
  | write block buf =>
    refine shows.write.map fun result how => ?_
    rcases how with ⟨outcome, after⟩ | ⟨outcome, after⟩
    · refine ⟨_, after, ?_⟩
      rw [outcome]
      exact expected.store
    · refine ⟨_, after, ?_⟩
      rw [outcome]
      exact expected
  | flush block =>
    refine (shows.flush fun data line _ => shows.dirty_line careful data line).map
      fun result how => ?_
    rcases how with ⟨-, after⟩ | ⟨data, call, line, -, -, after⟩ | ⟨call, backing, -, -, failed, -⟩
    · exact ⟨c, after, expected⟩
    · exact ⟨_, after, expected.save line⟩
    · rw [ide.2 block] at failed
      cases failed
  | flushAll => exact (whole.flushAll ide careful).map fun _ after => after.1
  | evict =>
    refine (shows.evict fun entry found isDirty => ⟨careful entry found isDirty, ide.2 1⟩).map
      fun result how => ?_
    obtain ⟨c', after, out⟩ := how
    exact ⟨c', after, expected.takenOut out⟩
  | prefetch block =>
    refine (shows.prefetch fun line => fits_of_onlyOne (careful (shows.absent_of_line line))).map
      fun result how => ?_
    obtain ⟨-, after | ⟨line, buffer, data, read, after⟩⟩ := how
    · exact ⟨c, after, expected⟩
    · have isOne := careful (shows.absent_of_line line) buffer
      rw [isOne, readBlock_one, Option.some.injEq, ← shows.backing_eq] at read
      rw [isOne] at line after
      rw [← read] at after
      exact ⟨_, after, expected.fill line⟩
  | invalidate block =>
    refine (shows.invalidate fun data line => ⟨shows.dirty_line careful data line, ide.2 1⟩).map
      fun result how => ?_
    obtain ⟨c', after, out⟩ := how
    exact ⟨c', after, expected.takenOut out⟩
  | setMaxEntries max =>
    exact (shows.setMaxEntries careful).map fun _ after => ⟨c, after.2, expected⟩

/-! ## Runs -/

/-- The driver works and the call transfers no block but block 1. -/
def TransparentCall (st : Session Sector) (call : Answers Sector × Op Sector) : Prop :=
  call.1.IdeSucceeds ∧ OnlyBlockOne st.cache call.1 call.2

/-- **The cache is transparent in runs that transfer block 1 only.** Every call of such a run
returns. A read that comes next in such a run returns the data of the last successful write
of its block, or what the disk had in the beginning (it may fail only if an allocation does);
after `cache_flush_all` the disk has that data for every block. -/
theorem cache_is_transparent (disk : Nat → Sector) (max : Nat) (anything : Block Sector)
    (calls : List (Answers Sector × Op Sector))
    (careful : MeetsPartial Session.step TransparentCall (Session.start disk max anything) calls) :
    Returns (runPartial Session.step (Session.start disk max anything) calls) fun st =>
      (∀ answers block, TransparentCall st (answers, .read block) →
        Returns (st.cache.call answers (.read block)) fun result =>
          result.1.code = 0 ∧ result.1.buf = some (st.latest block) ∨
            result.1.code = -1 ∧ ¬(answers.buffer ∧ answers.entry)) ∧
      ∀ answers, TransparentCall st (answers, .flushAll) →
        Returns (st.cache.call answers .flushAll) fun result =>
          ∀ block, blockOf result.2.disk block = st.latest block := by
  have ends := careful.invariant (P := Session.Transparent)
    (fun _ _ transparent call => transparent.step call.1 call.2)
    Session.start_transparent
  refine ends.mono fun st transparent => ⟨fun answers block call => ?_, fun answers call => ?_⟩
  · exact (transparent.read call.1 call.2).mono fun _ after => after.2
  · exact (transparent.flushAll call.1 call.2).mono fun _ after => after.2

/-- Allocations and transfers succeed. -/
def workingDriver : Answers Nat :=
  { buffer := true
    entry := true
    memory := fun _ => 0
    reads := true
    writes := fun _ => true
    beyond := fun _ _ => 0
    failed := fun _ => 0 }

theorem workingDriver_succeeds : workingDriver.IdeSucceeds := ⟨rfl, fun _ => rfl⟩

/-- Block 1 is read, written and flushed; block 5 is written and read from the cache. -/
def blocksOneAndFive : List (Answers Nat × Op Nat) :=
  [(workingDriver, .read 1), (workingDriver, .write 1 fun _ => 7), (workingDriver, .flushAll),
    (workingDriver, .write 5 fun _ => 9), (workingDriver, .read 5)]

theorem blocksOneAndFive_transparent :
    Returns (runPartial Session.step (Session.start (fun l => l) 0 fun _ => 0) blocksOneAndFive)
      fun st =>
      (∀ answers block, TransparentCall st (answers, .read block) →
        Returns (st.cache.call answers (.read block)) fun result =>
          result.1.code = 0 ∧ result.1.buf = some (st.latest block) ∨
            result.1.code = -1 ∧ ¬(answers.buffer ∧ answers.entry)) ∧
      ∀ answers, TransparentCall st (answers, .flushAll) →
        Returns (st.cache.call answers .flushAll) fun result =>
          ∀ block, blockOf result.2.disk block = st.latest block := by
  refine cache_is_transparent _ _ _ blocksOneAndFive ?_
  have only : MeetsPartial Session.step
      (fun (st : Session Nat) (call : Answers Nat × Op Nat) => OnlyBlockOne st.cache call.1 call.2)
      (Session.start (fun l => l) 0 fun _ => 0) blocksOneAndFive := by decide +kernel
  refine only.and_of_mem fun call member => ?_
  simp only [blocksOneAndFive, List.mem_cons, List.not_mem_nil, or_false] at member
  rcases member with rfl | rfl | rfl | rfl | rfl <;> exact workingDriver_succeeds

/-- The first read of block 33 returns block 1. -/
theorem other_block_is_read :
    (cacheRead (cacheInit (fun l => l) 0 fun _ => 0) 33 workingDriver).map
        (fun result => (result.1.code, result.1.buf.map fun data => data 0)) = some (0, some 8) ∧
      blockOf (fun l => l) 33 0 = 264 := by
  decide +kernel

end FunsOS.BlockCache
