import FunsOS.BlockCache.Linked

/-!
# What the operations of the block cache do

`Shows s c`: the lists of `s` are in order and its entries are the lines of the write-back
cache `c`. Each operation is described by what it makes of `c`, for any state that shows it
and any answers of the environment. The descriptions of the write-backs are for block 1,
since the transfer of any other block goes to other sectors than its own.
-/

set_option autoImplicit false

namespace FunsOS.BlockCache

open Foundation Function List Option

variable {Sector : Type} {s : Cache Sector} {lru : List Nat} {chain : Nat → List Nat}
  {entry block max : Nat} {c : WriteBack Nat (Block Sector)} {answers : Answers Sector}
  {data : Block Sector}

/-- The state is well linked and its entries are the lines of `c`. -/
def Shows (s : Cache Sector) (c : WriteBack Nat (Block Sector)) : Prop :=
  ∃ lru chain, Linked s lru chain ∧ view s lru = c

theorem Shows.intro (linked : Linked s lru chain) (same : view s lru = c) : Shows s c :=
  ⟨lru, chain, linked, same⟩

theorem cacheInit_shows {disk : Nat → Sector} {anything : Block Sector} :
    Shows (cacheInit disk max anything) { lines := fun _ => none, backing := blockOf disk } :=
  .intro cacheInit_linked rfl

/-- What the client sees is on the disk or in the entry that `cache_lookup` finds. -/
theorem Shows.lookup (shows : Shows s c) : ∃ found, cacheLookup s block = some found ∧
      c.lines block = found.map fun entry => (s.data entry, s.dirty entry) := by
  obtain ⟨lru, chain, linked, rfl⟩ := shows
  exact ⟨_, linked.lookup_eq block, rfl⟩

/-! ## Reading and writing -/

/-- After an insertion into a cache without the block, the lookup finds the new entry. -/
theorem Linked.lookup_linkEntry (linked : Linked s lru chain)
    (absent : entryOf s lru block = none) :
    cacheLookup (linkEntry s block data) block = some (some s.nextEntry) := by
  have linked' := linked.inserted absent data
  rw [linked'.lookup_eq]
  refine congrArg some (linked'.entryOf_eq_some.mpr ⟨mem_cons_self, ?_⟩)
  exact update_self _ _ _

/-- **`cache_read` of a cached block.** -/
theorem Shows.read_hit (shows : Shows s c) {line : Block Sector × Bool}
    (hit : c.lines block = some line) :
    Returns (cacheRead s block answers) fun result =>
      result.1 = { code := 0, buf := some line.1, calls := [] } ∧ Shows result.2 c := by
  obtain ⟨lru, chain, linked, rfl⟩ := shows
  obtain ⟨e, member, isBlock, rfl⟩ := linked.line_iff.mp hit
  rw [cacheRead, linked.lookup_eq, linked.entryOf_eq_some.mpr ⟨member, isBlock⟩]
  have counted := linked.of_same (sameLists_addRef s e)
  exact ⟨_, rfl, rfl, .intro (counted.touched member) (counted.view_touch member)⟩

/-- **`cache_read` of a block that is not cached**, if the transfer fits the buffer: the block
is cached as it was read, or the call fails. -/
theorem Shows.read_miss (shows : Shows s c) (miss : c.lines block = none)
    (fits : answers.buffer → transferCount block ≤ 8) :
    Returns (cacheRead s block answers) fun result =>
      result.1.calls = [] ∧
        ((∃ data, answers.buffer ∧ readBlock s block answers = some data ∧
            result.1.code = 0 ∧ result.1.buf = some data ∧
            Shows result.2 (c.setLine block (some (data, false)))) ∨
          result.1.code = -1 ∧ result.1.buf = none ∧ result.2 = s ∧
            ¬(answers.buffer ∧ answers.reads ∧ answers.entry)) := by
  obtain ⟨lru, chain, linked, rfl⟩ := shows
  have absent : entryOf s lru block = none := by simpa [view_lines] using miss
  rw [cacheRead, linked.lookup_eq, absent, bind_some]
  dsimp only
  by_cases buffer : answers.buffer
  · rw [if_pos buffer]
    obtain ⟨data, read⟩ : ∃ data, readBlock s block answers = some data := by
      rw [readBlock, if_neg (Nat.not_lt.mpr (fits buffer))]
      exact ⟨_, rfl⟩
    rw [read, bind_some]
    by_cases reads : answers.reads
    · rw [if_pos reads, cacheInsert]
      by_cases allocated : answers.entry
      · rw [if_pos allocated, linked.lookup_linkEntry absent]
        have linked' := linked.inserted absent data
        refine ⟨_, rfl, rfl, .inl ⟨data, buffer, rfl, rfl, ?_, .intro
          (linked'.of_same (sameLists_addRef _ _)) (linked.view_linkEntry absent)⟩⟩
        exact congrArg some (update_self _ _ _)
      · rw [if_neg allocated, linked.lookup_eq, absent]
        exact ⟨_, rfl, rfl, .inr ⟨rfl, rfl, rfl, fun all => allocated all.2.2⟩⟩
    · rw [if_neg reads]
      exact ⟨_, rfl, rfl, .inr ⟨rfl, rfl, rfl, fun all => reads all.2.1⟩⟩
  · rw [if_neg buffer]
    exact ⟨_, rfl, rfl, .inr ⟨rfl, rfl, rfl, fun all => buffer all.1⟩⟩

/-- **`cache_write`**: the block is cached with the new contents and marked dirty, or the call
fails and nothing has changed. -/
theorem Shows.write (shows : Shows s c) {buf : Block Sector} :
    Returns (cacheWrite s block buf answers) fun result =>
      (result.1 = .ofCode 0 ∧ Shows result.2 (c.setLine block (some (buf, true)))) ∨
        result.1 = .ofCode (-1) ∧ Shows result.2 c := by
  obtain ⟨lru, chain, linked, rfl⟩ := shows
  rw [cacheWrite, linked.lookup_eq]
  cases found : entryOf s lru block with
  | some e =>
    obtain ⟨member, -⟩ := linked.entryOf_eq_some.mp found
    let stored : Cache Sector :=
      setDirty { s with data := update s.data e buf } e true
    have same : SameLists s stored := ⟨rfl, rfl, rfl, rfl, rfl, rfl, rfl, rfl, rfl, rfl⟩
    have changed := linked.view_change same found
      (fun f ne => ⟨update_of_ne ne _ _, update_of_ne ne _ _⟩) rfl
    have data : stored.data e = buf := update_self _ _ _
    have dirty : stored.dirty e := update_self _ _ _
    rw [data, dirty] at changed
    have linked' := linked.of_same same
    refine ⟨_, rfl, .inl ⟨rfl, .intro (linked'.touched member) ?_⟩⟩
    exact (linked'.view_touch member).trans changed
  | none =>
    dsimp only
    rw [cacheInsert]
    by_cases allocated : answers.entry
    · rw [if_pos allocated, linked.lookup_linkEntry found]
      have linked' := linked.inserted found buf
      have newEntry := linked'.lookup_eq block
      rw [linked.lookup_linkEntry found, Option.some.injEq] at newEntry
      have data : (linkEntry s block buf).data s.nextEntry = buf := update_self _ _ _
      have marked := linked'.view_setDirty newEntry.symm true
      rw [data, linked.view_linkEntry found] at marked
      refine ⟨_, rfl, .inl ⟨rfl, .intro (linked'.of_same (sameLists_setDirty _)) ?_⟩⟩
      rw [marked, WriteBack.setLine_setLine]
    · rw [if_neg allocated, linked.lookup_eq, found]
      exact ⟨_, rfl, .inr ⟨rfl, .intro linked rfl⟩⟩

theorem Linked.countEntries_returns (linked : Linked s lru chain) :
    ∃ entries, countEntries s = some entries := by
  have from_ : ∀ (idxs : List Nat) (count : Nat),
      ∃ entries, runPartial (countChain s) count idxs = some entries := by
    intro idxs
    induction idxs with
    | nil => exact fun count => ⟨count, rfl⟩
    | cons i idxs ih =>
      intro count
      have walked : countChain s count i = some ((chain i).foldl (countEntry s) count) :=
        @Seg.forEachNode_eq _ _ _ _ _ (fun _ => s.hashNext) (countEntry s) (fun _ _ => rfl) count
          (linked.hashed i).forward linked.chain_length
      obtain ⟨entries, rest⟩ := ih ((chain i).foldl (countEntry s) count)
      exact ⟨entries, by rw [runPartial, walked, bind_some, rest]⟩
  exact from_ _ 0

/-- **`cache_prefetch`**, if the transfer fits the buffer. -/
theorem Shows.prefetch (shows : Shows s c)
    (fits : c.lines block = none → answers.buffer → transferCount block ≤ 8) :
    Returns (cachePrefetch s block answers) fun result =>
      result.1.calls = [] ∧
        (Shows result.2 c ∨ c.lines block = none ∧ answers.buffer ∧
          ∃ data, readBlock s block answers = some data ∧
            Shows result.2 (c.setLine block (some (data, false)))) := by
  obtain ⟨lru, chain, linked, rfl⟩ := shows
  have unchanged : Shows s (view s lru) := .intro linked rfl
  rw [cachePrefetch, linked.lookup_eq, bind_some]
  cases found : entryOf s lru block with
  | some e =>
    obtain ⟨member, -⟩ := linked.entryOf_eq_some.mp found
    exact ⟨_, rfl, rfl, .inl (.intro (linked.touched member) (linked.view_touch member))⟩
  | none =>
    have miss : (view s lru).lines block = none := view_line_of_none found
    obtain ⟨entries, counted⟩ := linked.countEntries_returns
    dsimp only
    rw [counted, bind_some]
    split
    · exact ⟨_, rfl, rfl, .inl unchanged⟩
    · by_cases buffer : answers.buffer
      · rw [if_pos buffer]
        obtain ⟨data, read⟩ : ∃ data, readBlock s block answers = some data := by
          rw [readBlock, if_neg (Nat.not_lt.mpr (fits miss buffer))]
          exact ⟨_, rfl⟩
        rw [read, map_some]
        split
        · rw [cacheInsert]
          split
          · refine ⟨_, rfl, rfl, .inr ⟨miss, buffer, data, rfl, ?_⟩⟩
            exact .intro (linked.inserted found data) (linked.view_linkEntry found)
          · exact ⟨_, rfl, rfl, .inl unchanged⟩
        · exact ⟨_, rfl, rfl, .inl unchanged⟩
      · rw [if_neg buffer]
        exact ⟨_, rfl, rfl, .inl unchanged⟩

/-! ## Write-backs -/

/-- The call puts the data into the sectors of the block, and reports success. -/
def WriteCall.Delivers (call : WriteCall Sector) (block : Nat) (data : Block Sector) : Prop :=
  call.ok ∧ ∀ k : Fin 8, call.lba ≤ 8 * block + k ∧ 8 * block + k < call.lba + call.count ∧
    call.buf (8 * block + k - call.lba) = data k

/-- The line of block 1 is written back and is no longer dirty. -/
def saved (c : WriteBack Nat (Block Sector)) (data : Block Sector) : WriteBack Nat (Block Sector) :=
  (c.setBacking 1 data).setLine 1 (some (data, false))

theorem writeCall_delivers (isOne : s.blockNum entry = 1) (ok : answers.writes 1) :
    (writeCall s entry answers).Delivers 1 (s.data entry) := by
  refine ⟨?_, fun k => ?_⟩
  · rw [writeCall, isOne]
    exact ok
  · rw [writeCall, isOne, transferCount_one, transferLba]
    dsimp only
    refine ⟨by omega, by omega, ?_⟩
    rw [dif_pos (by omega)]
    exact congrArg (s.data entry) (Fin.ext (by show 8 * 1 + (k : Nat) - 8 = k; omega))

/-- Writing the entry of block 1 back and unmarking it saves the line. -/
theorem Linked.view_save (linked : Linked s lru chain) (found : entryOf s lru 1 = some entry)
    (ok : answers.writes 1) :
    view (setDirty (writeEntry s entry answers) entry false) lru =
      saved (view s lru) (s.data entry) := by
  have isOne := (linked.entryOf_eq_some.mp found).2
  have linked' := linked.of_same (sameLists_writeEntry s entry answers)
  have cleaned := linked'.view_setDirty found false
  rw [view_writeEntry isOne ok] at cleaned
  exact cleaned

/-- **`cache_flush`**: nothing, or the line of block 1 is saved, or the write fails and the line
stays dirty. -/
theorem Shows.flush (shows : Shows s c)
    (careful : ∀ data, c.lines block = some (data, true) → answers.writes block → block = 1) :
    Returns (cacheFlush s block answers) fun result =>
      (result.1.calls = [] ∧ Shows result.2 c) ∨
        (∃ data call, c.lines 1 = some (data, true) ∧ result.1.calls = [call] ∧
          call.Delivers 1 data ∧ Shows result.2 (saved c data)) ∨
        ∃ call backing, result.1.calls = [call] ∧ call.ok = false ∧
          answers.writes block = false ∧ Shows result.2 { c with backing } := by
  obtain ⟨lru, chain, linked, rfl⟩ := shows
  rw [cacheFlush, linked.lookup_eq, map_some]
  cases found : entryOf s lru block with
  | none => exact ⟨_, rfl, .inl ⟨rfl, .intro linked rfl⟩⟩
  | some e =>
    obtain ⟨member, isBlock⟩ := linked.entryOf_eq_some.mp found
    dsimp only
    by_cases isDirty : s.dirty e
    · rw [if_pos isDirty]
      have line : (view s lru).lines block = some (s.data e, true) := by
        rw [view_line_of_some found, isDirty]
      have okEq : (writeCall s e answers).ok = answers.writes block := by
        rw [writeCall, isBlock]
      cases ok : answers.writes block with
      | true =>
        have isOne := careful _ line ok
        rw [isOne] at found isBlock line ok
        rw [okEq, isOne, ok]
        refine ⟨_, rfl, .inr (.inl ⟨s.data e, _, line, rfl, writeCall_delivers isBlock ok, ?_⟩)⟩
        refine .intro (linked.of_same ?_) (linked.view_save found ok)
        exact (sameLists_writeEntry s e answers).trans (sameLists_setDirty _)
      | false =>
        rw [okEq, ok]
        have failed : Shows (writeEntry s e answers)
            { view s lru with backing := blockOf (writeEntry s e answers).disk } :=
          .intro (linked.of_same (sameLists_writeEntry s e answers)) rfl
        exact ⟨_, rfl, .inr (.inr ⟨_, _, rfl, okEq.trans ok, rfl, failed⟩)⟩
    · rw [if_neg isDirty]
      exact ⟨_, rfl, .inl ⟨rfl, .intro linked rfl⟩⟩

/-! ## Flushing everything -/

variable (acc : Cache Sector × List (WriteCall Sector)) {entries : List Nat}

theorem sameLists_flushEntry (entry : Nat) (answers : Answers Sector) :
    SameLists acc.1 (flushEntry answers acc entry).1 := by
  unfold flushEntry
  split
  · exact (sameLists_writeEntry _ _ answers).trans (sameLists_setDirty _)
  · exact SameLists.refl _

theorem sameLists_flushEntries : SameLists acc.1 (entries.foldl (flushEntry answers) acc).1 := by
  induction entries generalizing acc with
  | nil => exact SameLists.refl _
  | cons e entries ih => exact (sameLists_flushEntry acc e answers).trans (ih _)

variable {acc : Cache Sector × List (WriteCall Sector)}

/-- The loops of `cache_flush_all` visit the entries of the chains one after the other. -/
theorem Linked.flushChains (linked : Linked acc.1 lru chain) {idxs : List Nat} :
    runPartial (flushChain answers) acc idxs =
      some ((idxs.flatMap chain).foldl (flushEntry answers) acc) := by
  induction idxs generalizing acc with
  | nil => rfl
  | cons i idxs ih =>
    have walked : flushChain answers acc i = some ((chain i).foldl (flushEntry answers) acc) :=
      (linked.hashed i).forward.forEachNode_eq
        (fun acc e => (sameLists_flushEntry acc e answers).hashNext) linked.chain_length
    rw [runPartial, walked, flatMap_cons, foldl_append]
    exact ih (linked.of_same (sameLists_flushEntries acc))

def OnlyOneDirty (c : WriteBack Nat (Block Sector)) : Prop :=
  ∀ b data, c.lines b = some (data, true) → b = 1

theorem OnlyOneDirty.saved_clean (only : OnlyOneDirty c) :
    ∀ b other, (saved c data).lines b ≠ some (other, true) := by
  intro b other line
  by_cases isOne : b = 1
  · rw [isOne, saved] at line
    cases line
  · rw [saved, WriteBack.setLine_of_ne isOne] at line
    exact isOne (only b other line)

/-- The state of the flushing loop: nothing has been written yet, or the line of block 1 has
been saved. -/
inductive Flushing (c : WriteBack Nat (Block Sector)) (lru : List Nat) (chain : Nat → List Nat) :
    Cache Sector × List (WriteCall Sector) → Prop
  | clean {s : Cache Sector} (linked : Linked s lru chain) (same : view s lru = c) :
      Flushing c lru chain (s, [])
  | wrote {s : Cache Sector} {data : Block Sector} {call : WriteCall Sector}
      (linked : Linked s lru chain) (line : c.lines 1 = some (data, true))
      (delivers : call.Delivers 1 data) (same : view s lru = saved c data) :
      Flushing c lru chain (s, [call])

section

variable (flushing : Flushing c lru chain acc)
include flushing

theorem Flushing.linked : Linked acc.1 lru chain := by
  cases flushing with
  | clean linked => exact linked
  | wrote linked => exact linked

section

variable (only : OnlyOneDirty c) (ok : ∀ data, c.lines 1 = some (data, true) → answers.writes 1)
include only ok

theorem Flushing.step (member : entry ∈ lru) :
    Flushing c lru chain (flushEntry answers acc entry) := by
  unfold flushEntry
  split
  · rename_i marked
    rw [Bool.and_eq_true] at marked
    have line := flushing.linked.line_iff.mpr ⟨entry, member, rfl, rfl⟩
    rw [marked.1] at line
    cases flushing with
    | @clean s linked same =>
      rw [same] at line
      have isOne := only _ _ line
      have found := linked.entryOf_eq_some.mpr ⟨member, isOne⟩
      rw [isOne] at line
      have wrote := linked.view_save found (ok _ line)
      rw [same] at wrote
      refine .wrote (linked.of_same ?_) line (writeCall_delivers isOne (ok _ line)) wrote
      exact (sameLists_writeEntry _ _ answers).trans (sameLists_setDirty _)
    | wrote linked _ _ same =>
      rw [same] at line
      exact absurd line (only.saved_clean _ _)
  · exact flushing

theorem Flushing.steps (members : ∀ e ∈ entries, e ∈ lru) :
    Flushing c lru chain (entries.foldl (flushEntry answers) acc) :=
  foldl_invariant_of_mem
    (fun _ e isIn flushing => Flushing.step flushing only ok (members e isIn)) flushing

end

end

/-- An entry that the loop has visited is not dirty any more. -/
theorem flushEntries_clean (acc : Cache Sector × List (WriteCall Sector))
    (valid : ∀ e ∈ entries, acc.1.valid e) : ∀ e, e ∈ entries ∨ acc.1.dirty e = false →
      (entries.foldl (flushEntry answers) acc).1.dirty e = false := by
  induction entries generalizing acc with
  | nil => exact fun e known => known.resolve_left not_mem_nil
  | cons first entries ih =>
    intro e known
    have lists := sameLists_flushEntry acc first answers
    refine ih (flushEntry answers acc first) (fun f isIn => ?_) e ?_
    · rw [lists.valid]
      exact valid f (mem_cons_of_mem _ isIn)
    · by_cases later : e ∈ entries
      · exact .inl later
      · right
        have firstValid := valid first mem_cons_self
        unfold flushEntry
        by_cases here : e = first
        · rw [here]
          split
          · exact update_self _ _ _
          · rename_i notBoth
            simpa [firstValid] using notBoth
        · have wasClean := known.resolve_left fun isIn =>
            (mem_cons.mp isIn).elim here later
          split
          · exact (update_of_ne here _ _).trans wasClean
          · exact wasClean

/-- **`cache_flush_all`**, if no block but block 1 is dirty and its write succeeds: no line is
dirty any more, and nothing else has changed. -/
theorem Shows.flushAll (shows : Shows s c) (only : OnlyOneDirty c)
    (ok : ∀ data, c.lines 1 = some (data, true) → answers.writes 1) :
    Returns (cacheFlushAll s answers) fun result =>
      ∃ c', Shows result.2 c' ∧ (∀ b data, c'.lines b ≠ some (data, true)) ∧
        (result.1.calls = [] ∧ c' = c ∨
          ∃ data call, c.lines 1 = some (data, true) ∧ result.1.calls = [call] ∧
            call.Delivers 1 data ∧ c' = saved c data) := by
  obtain ⟨lru, chain, linked, same⟩ := shows
  have entriesIn : ∀ e, e ∈ (range cacheHashSize).flatMap chain ↔ e ∈ lru := by
    intro e
    rw [mem_flatMap]
    constructor
    · rintro ⟨i, -, isIn⟩
      exact ((linked.mem_chain i e).mp isIn).1
    · intro isIn
      refine ⟨cacheHashFn (s.blockNum e), mem_range.mpr (Nat.mod_lt _ (by decide)), ?_⟩
      exact (linked.mem_chain _ e).mpr ⟨isIn, rfl⟩
  rw [cacheFlushAll, linked.flushChains]
  refine ⟨_, rfl, ?_⟩
  have flushing : Flushing c lru chain
      (((range cacheHashSize).flatMap chain).foldl (flushEntry answers) (s, [])) :=
    Flushing.steps (.clean linked same) only ok fun e => (entriesIn e).mp
  have clean : ∀ e ∈ lru,
      (((range cacheHashSize).flatMap chain).foldl (flushEntry answers) (s, [])).1.dirty e =
        false := fun e isIn =>
    flushEntries_clean (s, []) (fun f isIn => linked.valid f ((entriesIn f).mp isIn)) e
      (.inl ((entriesIn e).mpr isIn))
  generalize ((range cacheHashSize).flatMap chain).foldl (flushEntry answers) (s, []) = acc
    at flushing clean
  have noDirty : ∀ b data, (view acc.1 lru).lines b ≠ some (data, true) := by
    intro b data line
    obtain ⟨e, isIn, -, isLine⟩ := flushing.linked.line_iff.mp line
    exact Bool.false_ne_true ((clean e isIn).symm.trans (congrArg Prod.snd isLine))
  cases flushing with
  | clean linked same =>
    rw [same] at noDirty
    exact ⟨c, .intro linked same, noDirty, .inl ⟨rfl, rfl⟩⟩
  | @wrote _ data call linked line delivers same =>
    rw [same] at noDirty
    exact ⟨_, .intro linked same, noDirty, .inr ⟨data, call, line, rfl, delivers, rfl⟩⟩

/-! ## Taking entries out -/

/-- An entry is written back if it is dirty, and taken out of the lists. -/
theorem Linked.writeOut (linked : Linked s lru chain) (found : entryOf s lru block = some entry)
    (careful : s.dirty entry → block = 1 ∧ answers.writes 1) :
    ((writeIfDirty s entry answers).1 = [] ∧ s.dirty entry = false ∧
        Shows (unlink (writeIfDirty s entry answers).2 entry) ((view s lru).setLine block none)) ∨
      ∃ call, (writeIfDirty s entry answers).1 = [call] ∧ s.dirty entry ∧ block = 1 ∧
        call.Delivers 1 (s.data entry) ∧
        Shows (unlink (writeIfDirty s entry answers).2 entry)
          (((view s lru).setBacking 1 (s.data entry)).setLine 1 none) := by
  obtain ⟨member, isBlock⟩ := linked.entryOf_eq_some.mp found
  unfold writeIfDirty
  cases isDirty : s.dirty entry with
  | false =>
    exact .inl ⟨rfl, rfl, .intro (linked.unlinked member) (linked.view_unlink found)⟩
  | true =>
    obtain ⟨isOne, ok⟩ := careful isDirty
    rw [isOne] at found isBlock
    have linked' := linked.of_same (sameLists_writeEntry s entry answers)
    have out := linked'.view_unlink found
    rw [view_writeEntry isBlock ok] at out
    refine .inr ⟨_, rfl, rfl, isOne, writeCall_delivers isBlock ok, ?_⟩
    exact .intro (linked'.unlinked member) out

/-- What evicting or invalidating does to the lines. -/
inductive TakenOut (c : WriteBack Nat (Block Sector)) :
    List (WriteCall Sector) → WriteBack Nat (Block Sector) → Prop
  | nothing : TakenOut c [] c
  | clean {block : Nat} {data : Block Sector} (line : c.lines block = some (data, false)) :
      TakenOut c [] (c.setLine block none)
  | dirty {data : Block Sector} {call : WriteCall Sector} (line : c.lines 1 = some (data, true))
      (delivers : call.Delivers 1 data) :
      TakenOut c [call] ((c.setBacking 1 data).setLine 1 none)

theorem Linked.takenOut (linked : Linked s lru chain) (found : entryOf s lru block = some entry)
    (careful : s.dirty entry → block = 1 ∧ answers.writes 1) :
    ∃ c', Shows (unlink (writeIfDirty s entry answers).2 entry) c' ∧
      TakenOut (view s lru) (writeIfDirty s entry answers).1 c' := by
  have line := view_line_of_some found
  rcases linked.writeOut found careful with ⟨calls, isClean, shows⟩ |
    ⟨call, calls, isDirty, isOne, delivers, shows⟩
  · rw [isClean] at line
    rw [calls]
    exact ⟨_, shows, .clean line⟩
  · rw [isDirty, isOne] at line
    rw [calls]
    exact ⟨_, shows, .dirty line delivers⟩

/-- **`cache_evict`**, if a dirty victim is block 1 and its write succeeds. -/
theorem Shows.evict (shows : Shows s c)
    (careful : ∀ entry ∈ (evictionVictim s).join, s.dirty entry →
      s.blockNum entry = 1 ∧ answers.writes 1) :
    Returns (cacheEvict s answers) fun result =>
      ∃ c', Shows result.2 c' ∧ TakenOut c result.1.calls c' := by
  obtain ⟨lru, chain, linked, rfl⟩ := shows
  have scanned : evictionVictim s = some (lru.reverse.find? fun e => s.refCount e == 0) :=
    linked.recent.backward.scanList_eq (by rw [length_reverse]; exact linked.few)
  rw [scanned] at careful
  rw [cacheEvict, scanned]
  cases victim : lru.reverse.find? (fun e => s.refCount e == 0) with
  | none => exact ⟨_, rfl, _, .intro linked rfl, .nothing⟩
  | some e =>
    have member : e ∈ lru := mem_reverse.mp (mem_of_find?_eq_some victim)
    have found := linked.entryOf_eq_some.mpr ⟨member, rfl⟩
    exact ⟨_, rfl, linked.takenOut found (careful e victim)⟩

/-- **`cache_invalidate`**, if a dirty block is block 1 and its write succeeds. -/
theorem Shows.invalidate (shows : Shows s c)
    (careful : ∀ data, c.lines block = some (data, true) → block = 1 ∧ answers.writes 1) :
    Returns (cacheInvalidate s block answers) fun result =>
      ∃ c', Shows result.2 c' ∧ TakenOut c result.1.calls c' := by
  obtain ⟨lru, chain, linked, rfl⟩ := shows
  rw [cacheInvalidate, linked.lookup_eq, map_some]
  cases found : entryOf s lru block with
  | none => exact ⟨_, rfl, _, .intro linked rfl, .nothing⟩
  | some e =>
    obtain ⟨member, -⟩ := linked.entryOf_eq_some.mp found
    dsimp only
    rw [if_pos (linked.valid e member)]
    refine ⟨_, rfl, linked.takenOut found fun isDirty => careful (s.data e) ?_⟩
    rw [view_line_of_some found, isDirty]

/-- **`cache_set_max_entries`**, if there are not too many entries already. -/
theorem Shows.setMaxEntries (shows : Shows s c)
    (room : max = 0 ∨ ∀ entries ∈ countEntries s, entries ≤ max) :
    Returns (cacheSetMaxEntries s max) fun result => result.1.calls = [] ∧ Shows result.2 c := by
  obtain ⟨lru, chain, linked, rfl⟩ := shows
  obtain ⟨entries, counted⟩ := linked.countEntries_returns
  have fits : max = 0 ∨ entries ≤ max := room.imp id fun few => few entries counted
  rw [cacheSetMaxEntries, counted, bind_some, if_neg (by omega)]
  refine ⟨_, rfl, rfl, .intro (linked.of_same ?_) rfl⟩
  exact ⟨rfl, rfl, rfl, rfl, rfl, rfl, rfl, rfl, rfl, rfl⟩

end FunsOS.BlockCache
