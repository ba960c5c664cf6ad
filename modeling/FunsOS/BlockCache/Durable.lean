import FunsOS.BlockCache.Transparent

/-!
# Data that the block cache has accepted

Data that `cache_write` has accepted must stay in the cache, marked dirty, until a call of
`ide_write_sectors` that reports success has put it into the sectors of its block. The ledger
records, next to the cache, the data accepted last for every block and the calls of the
driver made since then.

Four operations write back. `cache_flush` keeps the mark when the driver fails; the other
three ignore the driver's answer. `SafeWriteBack` says which calls lose nothing: those whose
dirty entries are of block 1, the only block that is transferred to its own sectors, and, but
for `cache_flush`, whose writes succeed. In every run of such calls accepted data is kept
(`accepted_data_is_kept`).
-/

set_option autoImplicit false

namespace FunsOS.BlockCache

open Foundation Function List Option WriteBack

variable {Sector : Type}

/-- The cache, the data accepted last for every block, and the write calls since then. -/
structure Ledger (Sector : Type) where
  cache : Cache Sector
  accepted : Nat → Option (Block Sector)
  since : Nat → List (WriteCall Sector)

/-- After `cache_init`. -/
def Ledger.start (disk : Nat → Sector) (max : Nat) (anything : Block Sector) : Ledger Sector :=
  { cache := cacheInit disk max anything, accepted := fun _ => none, since := fun _ => [] }

variable (st : Ledger Sector)

def Ledger.record (op : Op Sector) (result : Outcome Sector × Cache Sector) : Ledger Sector :=
  let calls := fun block => st.since block ++ result.1.calls
  match op with
  | .write block buf =>
    if result.1.code = 0 then
      { cache := result.2
        accepted := Function.update st.accepted block (some buf)
        since := Function.update calls block [] }
    else { cache := result.2, accepted := st.accepted, since := calls }
  | _ => { cache := result.2, accepted := st.accepted, since := calls }

def Ledger.step (call : Answers Sector × Op Sector) : Option (Ledger Sector) :=
  (st.cache.call call.1 call.2).map (st.record call.2)

def CachedDirty (s : Cache Sector) (block : Nat) (data : Block Sector) : Prop :=
  ∃ entry ∈ cachedEntry s block, s.dirty entry ∧ s.data entry = data

/-- Accepted data is cached and dirty, or has been written since by a call that reported
success. -/
def Ledger.Kept : Prop :=
  ∀ block data, st.accepted block = some data →
    CachedDirty st.cache block data ∨ ∃ call ∈ st.since block, call.Delivers block data

/-- The call loses no accepted data. -/
def SafeWriteBack (s : Cache Sector) (answers : Answers Sector) : Op Sector → Prop
  -- a longer transfer overwrites the memory behind the buffer
  | .read block =>
    cachedEntry s block = none → answers.buffer → transferCount block ≤ 8
  | .write _ _ => True
  | .flush block =>
    ∀ entry ∈ cachedEntry s block, s.dirty entry → answers.writes block → block = 1
  | .flushAll =>
    ∀ entry < s.nextEntry, IsCached s entry → s.dirty entry →
      s.blockNum entry = 1 ∧ answers.writes 1
  | .evict =>
    ∀ entry ∈ (evictionVictim s).join, s.dirty entry → s.blockNum entry = 1 ∧ answers.writes 1
  | .prefetch block =>
    cachedEntry s block = none → answers.buffer → transferCount block ≤ 8
  | .invalidate block =>
    ∀ entry ∈ cachedEntry s block, s.dirty entry → block = 1 ∧ answers.writes 1
  | .setMaxEntries max => max = 0 ∨ ∀ entries ∈ countEntries s, entries ≤ max

instance SafeWriteBack.decidable (s : Cache Sector) (answers : Answers Sector) :
    (op : Op Sector) → Decidable (SafeWriteBack s answers op)
  | .read _ | .prefetch _ => inferInstanceAs (Decidable (_ → _ → _))
  | .write _ _ => inferInstanceAs (Decidable True)
  | .flush block | .invalidate block =>
    inferInstanceAs (Decidable (∀ entry ∈ cachedEntry s block, _ → _))
  | .flushAll => inferInstanceAs (Decidable (∀ entry < s.nextEntry, _ → _ → _))
  | .evict => inferInstanceAs (Decidable (∀ entry ∈ (evictionVictim s).join, _ → _))
  | .setMaxEntries _ => inferInstanceAs (Decidable (_ ∨ ∀ entries ∈ countEntries s, _))

/-! ## Dirty lines -/

variable {s : Cache Sector} {c c' : WriteBack Nat (Block Sector)} {calls : List (WriteCall Sector)}
  {answers : Answers Sector} {block : Nat} {data : Block Sector}
  {result : Outcome Sector × Cache Sector}

theorem Shows.cachedDirty_iff (shows : Shows s c) :
    CachedDirty s block data ↔ c.lines block = some (data, true) := by
  constructor
  · rintro ⟨entry, found, isDirty, rfl⟩
    rw [shows.line_of_cached, mem_def.mp found, ← isDirty]
    rfl
  · intro line
    obtain ⟨entry, found, isDirty, isData, -⟩ := shows.dirty_entry line
    exact ⟨entry, found, isDirty, isData⟩

def Preserves (c : WriteBack Nat (Block Sector)) (calls : List (WriteCall Sector))
    (c' : WriteBack Nat (Block Sector)) : Prop :=
  ∀ block data, c.lines block = some (data, true) →
    c'.lines block = some (data, true) ∨ ∃ call ∈ calls, call.Delivers block data

theorem Preserves.refl : Preserves c calls c := fun _ _ line => .inl line

/-- Changing the line of a block that is not dirty preserves the dirty ones. -/
theorem Preserves.setLine (clean : ∀ data, c.lines block ≠ some (data, true))
    {line : Option (Block Sector × Bool)} : Preserves c [] (c.setLine block line) := by
  intro other data isDirty
  have ne : other ≠ block := by
    rintro rfl
    exact clean data isDirty
  rw [setLine_of_ne ne]
  exact .inl isDirty

/-- Changing the line of block 1 after its delivery preserves the dirty ones. -/
theorem Preserves.delivered {call : WriteCall Sector} (line : c.lines 1 = some (data, true))
    (delivers : call.Delivers 1 data) {after : Option (Block Sector × Bool)} :
    Preserves c [call] ((c.setBacking 1 data).setLine 1 after) := by
  intro other dirty isDirty
  by_cases isOne : other = 1
  · rw [isOne] at isDirty ⊢
    have same : dirty = data := congrArg Prod.fst (some.inj (isDirty.symm.trans line))
    rw [same]
    exact .inr ⟨call, mem_singleton_self call, delivers⟩
  · rw [setLine_of_ne isOne]
    exact .inl isDirty

theorem TakenOut.preserves (out : TakenOut c calls c') : Preserves c calls c' := by
  cases out with
  | nothing => exact Preserves.refl
  | clean line =>
    refine Preserves.setLine (fun data isDirty => ?_)
    have same := line.symm.trans isDirty
    simp at same
  | dirty line delivers => exact Preserves.delivered line delivers

/-! ## Calls -/

/-- The cache is well linked and accepted data is kept. -/
def Ledger.Safe (st : Ledger Sector) : Prop := (∃ c, Shows st.cache c) ∧ st.Kept

variable {st : Ledger Sector}

/-- A call that preserves the dirty lines keeps the accepted data. -/
theorem Ledger.Kept.preserve (kept : st.Kept) (shows : Shows st.cache c) {after : Cache Sector}
    (showsAfter : Shows after c') (preserves : Preserves c calls c') :
    Ledger.Kept
      { cache := after, accepted := st.accepted, since := fun b => st.since b ++ calls } := by
  intro block data accepted
  rcases kept block data accepted with cached | ⟨call, member, delivers⟩
  · rcases preserves block data (shows.cachedDirty_iff.mp cached) with line |
      ⟨call, member, delivers⟩
    · exact .inl (showsAfter.cachedDirty_iff.mpr line)
    · exact .inr ⟨call, mem_append_right _ member, delivers⟩
  · exact .inr ⟨call, mem_append_left _ member, delivers⟩

theorem Ledger.Safe.preserve (safe : st.Safe) (shows : Shows st.cache c)
    (showsAfter : Shows result.2 c') (preserves : Preserves c result.1.calls c') {op : Op Sector}
    (notWrite : st.record op result =
      { cache := result.2
        accepted := st.accepted
        since := fun b => st.since b ++ result.1.calls }) : (st.record op result).Safe := by
  rw [notWrite]
  exact ⟨⟨c', showsAfter⟩, safe.2.preserve shows showsAfter preserves⟩

theorem Ledger.Safe.accept (safe : st.Safe) (shows : Shows st.cache c) {buf : Block Sector}
    (outcome : result.1 = .ofCode 0)
    (showsAfter : Shows result.2 (c.setLine block (some (buf, true)))) :
    (st.record (.write block buf) result).Safe := by
  have recorded : st.record (.write block buf) result =
      { cache := result.2
        accepted := update st.accepted block (some buf)
        since := update (fun b => st.since b ++ []) block [] } := by
    rw [Ledger.record, outcome]
    rfl
  rw [recorded]
  refine ⟨⟨_, showsAfter⟩, fun other data accepted => ?_⟩
  dsimp only at accepted ⊢
  by_cases here : other = block
  · rw [here, update_self] at accepted
    cases accepted
    rw [here]
    exact .inl (showsAfter.cachedDirty_iff.mpr setLine_self)
  · rw [update_of_ne here] at accepted
    rw [update_of_ne here, append_nil]
    refine (safe.2 other data accepted).imp (fun cached => ?_) id
    refine showsAfter.cachedDirty_iff.mpr ?_
    rw [setLine_of_ne here]
    exact shows.cachedDirty_iff.mp cached

/-- **A safe call loses no accepted data.** -/
theorem Ledger.Safe.step (safe : st.Safe) {call : Answers Sector × Op Sector}
    (careful : SafeWriteBack st.cache call.1 call.2) : Returns (st.step call) Ledger.Safe := by
  obtain ⟨answers, op⟩ := call
  obtain ⟨c, shows⟩ := safe.1
  cases op with
  | read block =>
    cases line : c.lines block with
    | some marked =>
      refine (shows.read_hit line).map fun result how => ?_
      exact safe.preserve shows how.2 Preserves.refl rfl
    | none =>
      refine (shows.read_miss line (careful (shows.absent_of_line line))).map fun result how => ?_
      obtain ⟨noCalls, ⟨data, -, -, -, -, after⟩ | ⟨-, -, unchanged, -⟩⟩ := how
      · refine safe.preserve shows after ?_ rfl
        rw [noCalls]
        exact Preserves.setLine (fun _ isDirty => by rw [line] at isDirty; cases isDirty)
      · refine safe.preserve shows (unchanged ▸ shows) Preserves.refl rfl
  | write block buf =>
    refine shows.write.map fun result how => ?_
    rcases how with ⟨outcome, after⟩ | ⟨outcome, after⟩
    · exact safe.accept shows outcome after
    · refine safe.preserve shows after Preserves.refl ?_
      rw [Ledger.record, outcome]
      rfl
  | flush block =>
    refine (shows.flush (shows.dirty_line careful)).map fun result how => ?_
    rcases how with ⟨-, after⟩ | ⟨data, call, line, calls, delivers, after⟩ |
      ⟨call, backing, -, -, -, after⟩
    · exact safe.preserve shows after Preserves.refl rfl
    · refine safe.preserve shows after ?_ rfl
      rw [calls]
      exact Preserves.delivered line delivers
    · exact safe.preserve shows after (fun _ _ line => .inl line) rfl
  | flushAll =>
    have lines := shows.dirty_lines (P := fun block => block = 1 ∧ answers.writes 1) careful
    refine (shows.flushAll (fun b data line => (lines b data line).1)
      fun data line => (lines 1 data line).2).map fun result how => ?_
    obtain ⟨c', after, -, ⟨-, rfl⟩ | ⟨data, call, line, calls, delivers, rfl⟩⟩ := how
    · exact safe.preserve shows after Preserves.refl rfl
    · refine safe.preserve shows after ?_ rfl
      rw [calls]
      exact Preserves.delivered line delivers
  | evict =>
    refine (shows.evict careful).map fun result how => ?_
    obtain ⟨c', after, out⟩ := how
    exact safe.preserve shows after out.preserves rfl
  | prefetch block =>
    refine (shows.prefetch fun line => careful (shows.absent_of_line line)).map fun result how => ?_
    obtain ⟨noCalls, after | ⟨line, -, data, -, after⟩⟩ := how
    · exact safe.preserve shows after Preserves.refl rfl
    · refine safe.preserve shows after ?_ rfl
      rw [noCalls]
      exact Preserves.setLine (fun _ isDirty => by rw [line] at isDirty; cases isDirty)
  | invalidate block =>
    refine (shows.invalidate (shows.dirty_line careful)).map fun result how => ?_
    obtain ⟨c', after, out⟩ := how
    exact safe.preserve shows after out.preserves rfl
  | setMaxEntries max =>
    refine (shows.setMaxEntries careful).map fun result how => ?_
    exact safe.preserve shows how.2 Preserves.refl rfl

/-! ## Runs -/

/-- **Accepted data is kept in every run of safe calls**: it is cached and marked dirty, or a
call of `ide_write_sectors` that reported success has put it into the sectors of its block
since it was accepted. Every call of such a run returns. -/
theorem accepted_data_is_kept (disk : Nat → Sector) (max : Nat) (anything : Block Sector)
    (calls : List (Answers Sector × Op Sector))
    (careful : MeetsPartial Ledger.step (fun st call => SafeWriteBack st.cache call.1 call.2)
      (Ledger.start disk max anything) calls) :
    Returns (runPartial Ledger.step (Ledger.start disk max anything) calls) Ledger.Kept :=
  (careful.invariant (P := Ledger.Safe) (fun _ _ safe call => safe.step call)
    ⟨⟨_, cacheInit_shows⟩, fun _ _ accepted => by cases accepted⟩).mono fun _ safe => safe.2

/-- Transfers to the disk fail. -/
def brokenDriver : Answers Nat := { workingDriver with writes := fun _ => false }

/-- A flush of block 1 fails, a second one succeeds, and the entry is evicted. -/
def flushTwice : List (Answers Nat × Op Nat) :=
  [(workingDriver, .write 1 fun _ => 7), (brokenDriver, .flush 1), (workingDriver, .flush 1),
    (workingDriver, .evict), (workingDriver, .write 5 fun _ => 9)]

theorem flushTwice_keeps :
    Returns (runPartial Ledger.step (Ledger.start (fun l => l) 0 fun _ => 0) flushTwice)
      Ledger.Kept :=
  accepted_data_is_kept _ _ _ flushTwice (by decide +kernel)

/-- Block 1 is written, and flushed with everything else while the driver fails. -/
def flushAllFails : List (Answers Nat × Op Nat) :=
  [(workingDriver, .write 1 fun _ => 7), (brokenDriver, .flushAll)]

/-- The data is neither dirty in the cache nor written. -/
theorem failed_flush_loses_data :
    ∃ st, runPartial Ledger.step (Ledger.start (fun l => l) 0 fun _ => 0) flushAllFails =
        some st ∧ ¬st.Kept := by
  refine Returns.of_map (f := fun st => ((st.accepted 1).isSome,
    (cachedEntry st.cache 1).map st.cache.dirty, (st.since 1).map WriteCall.ok))
    (v := (true, some false, [false])) (by decide +kernel) fun st values kept => ?_
  simp only [Prod.mk.injEq] at values
  obtain ⟨isAccepted, notDirty, failed⟩ := values
  obtain ⟨data, accepted⟩ := isSome_iff_exists.mp isAccepted
  rcases kept 1 data accepted with ⟨entry, found, isDirty, -⟩ | ⟨call, member, delivers⟩
  · rw [mem_def.mp found, map_some, isDirty] at notDirty
    cases notDirty
  · have isFalse : call.ok ∈ [false] := failed ▸ mem_map_of_mem member
    rw [delivers.1] at isFalse
    cases isFalse with
    | tail _ impossible => cases impossible

end FunsOS.BlockCache
