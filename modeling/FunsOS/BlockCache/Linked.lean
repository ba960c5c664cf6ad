import Mathlib.Data.List.Perm.Subperm
import FunsOS.BlockCache.Code
import FunsOS.Foundation.WriteBack

/-!
# The lists of the block cache

`Linked s lru chain` says that the entries `lru` are the doubly linked list of recently used
entries, that each hash chain is a doubly linked list of those with its hash value, and that
no two entries are for one block.

The operations on the lists are four: a search (`Linked.lookup_eq`), moving an entry to the
front (`Linked.touched`), adding one (`Linked.inserted`) and taking one out (`Linked.unlinked`).
-/

set_option autoImplicit false

namespace FunsOS.BlockCache

open Foundation List Nat WriteBack
open Function (update update_of_ne update_self)

variable {Sector : Type} {s s' : Cache Sector} {lru : List Nat} {chain : Nat → List Nat}
  {entry : Nat}

/-- The entries of the cache and how they are linked. -/
structure Linked (s : Cache Sector) (lru : List Nat) (chain : Nat → List Nat) : Prop where
  recent : Dll s.lruNext s.lruPrev s.lruHead s.lruTail lru
  hashed : ∀ i, Dll s.hashNext s.hashPrev (s.cacheHash i) (chain i).getLast? (chain i)
  mem_chain : ∀ i e, e ∈ chain i ↔ e ∈ lru ∧ cacheHashFn (s.blockNum e) = i
  valid : ∀ e ∈ lru, s.valid e
  distinct : ∀ e ∈ lru, ∀ f ∈ lru, s.blockNum e = s.blockNum f → e = f
  old : ∀ e ∈ lru, e < s.nextEntry
  few : lru.length ≤ s.nextEntry

/-- The two states have the same lists. -/
structure SameLists (s s' : Cache Sector) : Prop where
  lruNext : s'.lruNext = s.lruNext
  lruPrev : s'.lruPrev = s.lruPrev
  lruHead : s'.lruHead = s.lruHead
  lruTail : s'.lruTail = s.lruTail
  hashNext : s'.hashNext = s.hashNext
  hashPrev : s'.hashPrev = s.hashPrev
  cacheHash : s'.cacheHash = s.cacheHash
  blockNum : s'.blockNum = s.blockNum
  valid : s'.valid = s.valid
  nextEntry : s'.nextEntry = s.nextEntry

theorem SameLists.trans {s'' : Cache Sector} (first : SameLists s s') (second : SameLists s' s'') :
    SameLists s s'' where
  lruNext := second.lruNext.trans first.lruNext
  lruPrev := second.lruPrev.trans first.lruPrev
  lruHead := second.lruHead.trans first.lruHead
  lruTail := second.lruTail.trans first.lruTail
  hashNext := second.hashNext.trans first.hashNext
  hashPrev := second.hashPrev.trans first.hashPrev
  cacheHash := second.cacheHash.trans first.cacheHash
  blockNum := second.blockNum.trans first.blockNum
  valid := second.valid.trans first.valid
  nextEntry := second.nextEntry.trans first.nextEntry

variable (s)

theorem SameLists.refl : SameLists s s :=
  ⟨rfl, rfl, rfl, rfl, rfl, rfl, rfl, rfl, rfl, rfl⟩

theorem sameLists_addRef (entry : Nat) : SameLists s (addRef s entry) :=
  ⟨rfl, rfl, rfl, rfl, rfl, rfl, rfl, rfl, rfl, rfl⟩

theorem sameLists_setDirty {dirty : Bool} : SameLists s (setDirty s entry dirty) :=
  ⟨rfl, rfl, rfl, rfl, rfl, rfl, rfl, rfl, rfl, rfl⟩

theorem sameLists_writeEntry (entry : Nat) (answers : Answers Sector) :
    SameLists s (writeEntry s entry answers) :=
  ⟨rfl, rfl, rfl, rfl, rfl, rfl, rfl, rfl, rfl, rfl⟩

variable {s}

theorem cacheInit_linked {disk : Nat → Sector} {max : Nat} {anything : Block Sector} :
    Linked (cacheInit disk max anything) [] fun _ => [] where
  recent := dll_nil
  hashed := fun _ => dll_nil
  mem_chain := fun _ _ => by simp
  valid := fun _ member => by cases member
  distinct := fun _ member => by cases member
  old := fun _ member => by cases member
  few := le_refl 0

def entryOf (s : Cache Sector) (lru : List Nat) (block : Nat) : Option Nat :=
  lru.find? fun entry => s.blockNum entry == block

variable {block e i : Nat} {before after : List Nat} {answers : Answers Sector}

theorem entryOf_eq_none : entryOf s lru block = none ↔ ∀ e ∈ lru, s.blockNum e ≠ block := by
  simp [entryOf]

theorem erase_of_split (outside : e ∉ before) :
    (before ++ e :: after).erase e = before ++ after := by
  rw [erase_append_right _ outside, erase_cons_head]

/-- `lru_add_front` adds an entry to the list of recently used ones. -/
theorem lruAddFront_dll (recent : Dll s.lruNext s.lruPrev s.lruHead s.lruTail lru)
    (outside : entry ∉ lru) :
    Dll (lruAddFront s entry).lruNext (lruAddFront s entry).lruPrev (lruAddFront s entry).lruHead
      (lruAddFront s entry).lruTail (entry :: lru) := by
  have pushed := recent.pushFront outside
  have tail : restart s.lruTail s.lruHead (some entry) =
      if s.lruTail = none then some entry else s.lruTail := by
    rw [recent.head_eq, recent.tail_eq]
    cases lru with
    | nil => rfl
    | cons a as => simp [restart]
  rw [tail] at pushed
  exact pushed

theorem hashRemove_head
    (chained : Dll s.hashNext s.hashPrev (s.cacheHash (cacheHashFn (s.blockNum entry)))
      (before ++ entry :: after).getLast? (before ++ entry :: after)) :
    (hashRemove s entry).cacheHash (cacheHashFn (s.blockNum entry)) =
      restart (s.cacheHash (cacheHashFn (s.blockNum entry))) (s.hashPrev entry)
        (s.hashNext entry) := by
  rw [chained.links.2]
  have head := chained.head_eq
  unfold hashRemove
  dsimp only
  rw [head]
  cases before with
  | nil => simp [restart]
  | cons first before =>
    have ne : first ≠ entry := by
      have nodup := nodup_cons.mp (nodup_middle.mp chained.nodup)
      exact fun same => nodup.1 (by simp [same])
    rw [getLast?_cons]
    simp [restart, ne, head]

/-- Take an entry out of both lists. -/
def unlink (s : Cache Sector) (entry : Nat) : Cache Sector := hashRemove (lruRemove s entry) entry

section

variable (linked : Linked s lru chain)
include linked

/-- The lists do not depend on the contents of the entries. -/
theorem Linked.of_same (same : SameLists s s') : Linked s' lru chain := by
  constructor
  case recent =>
    rw [same.lruNext, same.lruPrev, same.lruHead, same.lruTail]
    exact linked.recent
  case hashed =>
    intro i
    rw [same.hashNext, same.hashPrev, same.cacheHash]
    exact linked.hashed i
  case mem_chain =>
    rw [same.blockNum]
    exact linked.mem_chain
  case valid =>
    rw [same.valid]
    exact linked.valid
  case distinct =>
    rw [same.blockNum]
    exact linked.distinct
  case old =>
    rw [same.nextEntry]
    exact linked.old
  case few =>
    rw [same.nextEntry]
    exact linked.few

/-! ## Searching -/

theorem Linked.entryOf_eq_some :
    entryOf s lru block = some entry ↔ entry ∈ lru ∧ s.blockNum entry = block := by
  constructor
  · intro found
    exact ⟨mem_of_find?_eq_some found, by simpa using find?_some found⟩
  · rintro ⟨member, isBlock⟩
    cases found : entryOf s lru block with
    | none =>
      have other := find?_eq_none.mp found entry member
      simp [isBlock] at other
    | some other =>
      have otherBlock : s.blockNum other = block := by simpa using find?_some found
      exact congrArg some (linked.distinct other (mem_of_find?_eq_some found) entry member
        (otherBlock.trans isBlock.symm))

/-- A chain has no more nodes than there are entries. -/
theorem Linked.chain_length : (chain i).length ≤ s.nextEntry := by
  have sub : (chain i).Subperm lru :=
    (linked.hashed i).nodup.subperm fun e member => ((linked.mem_chain i e).mp member).1
  exact le_trans sub.length_le linked.few

/-- **A search of the hash chain finds the entry of the block.** -/
theorem Linked.lookup_eq (block : Nat) : cacheLookup s block = some (entryOf s lru block) := by
  rw [cacheLookup, (linked.hashed _).forward.scanList_eq linked.chain_length]
  refine congrArg some ?_
  cases found : (chain (cacheHashFn block)).find?
      (fun entry => s.blockNum entry == block && s.valid entry) with
  | some e =>
    have inChain := mem_of_find?_eq_some found
    have isBlock : s.blockNum e = block := by
      have both := find?_some found
      rw [Bool.and_eq_true, beq_iff_eq] at both
      exact both.1
    exact (linked.entryOf_eq_some.mpr ⟨((linked.mem_chain _ e).mp inChain).1, isBlock⟩).symm
  | none =>
    refine (entryOf_eq_none.mpr fun e member isBlock => ?_).symm
    have inChain : e ∈ chain (cacheHashFn block) :=
      (linked.mem_chain _ e).mpr ⟨member, by rw [isBlock]⟩
    have misses := find?_eq_none.mp found e inChain
    simp [isBlock, linked.valid e member] at misses

/-! ## Moving to the front -/

/-- `lru_remove` takes an entry out of the list of recently used ones. -/
theorem Linked.lruRemove_dll (member : entry ∈ lru) :
    Dll (lruRemove s entry).lruNext (lruRemove s entry).lruPrev (lruRemove s entry).lruHead
      (lruRemove s entry).lruTail (lru.erase entry) := by
  obtain ⟨before, after, rfl⟩ := append_of_mem member
  have nodup := linked.recent.nodup
  have outside : entry ∉ before ++ after := (nodup_cons.mp (nodup_middle.mp nodup)).1
  rw [erase_of_split fun inBefore => outside (mem_append_left _ inBefore)]
  have removed := linked.recent.remove
  -- the links of the removed entry are cleared, which the list does not see
  refine removed.congr (fun b isIn => ?_) fun b isIn => ?_
  all_goals exact update_of_ne (fun (same : b = entry) => outside (same ▸ isIn)) _ _

theorem Linked.touched (member : entry ∈ lru) :
    Linked (touch s entry) (entry :: lru.erase entry) chain := by
  have mem_iff : ∀ e, e ∈ entry :: lru.erase entry ↔ e ∈ lru := by
    intro e
    rw [mem_cons, linked.recent.nodup.mem_erase_iff]
    constructor
    · rintro (rfl | ⟨-, isIn⟩)
      · exact member
      · exact isIn
    · intro isIn
      by_cases same : e = entry
      · exact .inl same
      · exact .inr ⟨same, isIn⟩
  constructor
  case recent =>
    exact lruAddFront_dll (linked.lruRemove_dll member) linked.recent.nodup.not_mem_erase
  case hashed => exact linked.hashed
  case mem_chain =>
    intro i e
    rw [mem_iff]
    exact linked.mem_chain i e
  case valid => exact fun e isIn => linked.valid e ((mem_iff e).mp isIn)
  case distinct =>
    exact fun e isIn f alsoIn => linked.distinct e ((mem_iff e).mp isIn) f ((mem_iff f).mp alsoIn)
  case old => exact fun e isIn => linked.old e ((mem_iff e).mp isIn)
  case few =>
    show (entry :: lru.erase entry).length ≤ s.nextEntry
    rw [length_cons, length_erase_of_mem member]
    have := length_pos_of_mem member
    have := linked.few
    omega

/-! ## Adding an entry -/

/-- Entries of different chains are different. -/
theorem Linked.chains_apart {j : Nat} (ne : i ≠ j) {f : Nat} (inFirst : e ∈ chain i)
    (inSecond : f ∈ chain j) : e ≠ f := by
  rintro rfl
  exact ne (((linked.mem_chain i e).mp inFirst).2.symm.trans ((linked.mem_chain j e).mp inSecond).2)

theorem Linked.inserted (absent : entryOf s lru block = none) (data : Block Sector) :
    Linked (linkEntry s block data) (s.nextEntry :: lru)
      (update chain (cacheHashFn block) (s.nextEntry :: chain (cacheHashFn block))) := by
  have fresh : s.nextEntry ∉ lru := fun member => lt_irrefl _ (linked.old _ member)
  have freshIn : ∀ i, s.nextEntry ∉ chain i := fun i member =>
    fresh ((linked.mem_chain i _).mp member).1
  have blockOf : ∀ e ∈ lru, update s.blockNum s.nextEntry block e = s.blockNum e := by
    intro e member
    exact update_of_ne (fun (same : e = s.nextEntry) => fresh (same ▸ member)) _ _
  constructor
  case recent => exact lruAddFront_dll linked.recent fresh
  case hashed =>
    intro i
    show Dll (update s.hashNext s.nextEntry (s.cacheHash (cacheHashFn block)))
      (redirect (update s.hashPrev s.nextEntry none) (s.cacheHash (cacheHashFn block))
        (some s.nextEntry))
      (update s.cacheHash (cacheHashFn block) (some s.nextEntry) i) _ _
    by_cases here : i = cacheHashFn block
    · rw [here, update_self, update_self]
      have pushed := (linked.hashed (cacheHashFn block)).pushFront (freshIn _)
      rwa [pushed.tail_eq] at pushed
    · rw [update_of_ne here, update_of_ne here]
      refine (linked.hashed i).congr (fun b isIn => ?_) fun b isIn => ?_
      · exact update_of_ne (fun (same : b = s.nextEntry) => freshIn i (same ▸ isIn)) _ _
      · rw [redirect_of_ne fun isHead => ?_]
        · exact update_of_ne (fun (same : b = s.nextEntry) => freshIn i (same ▸ isIn)) _ _
        · rw [(linked.hashed _).head_eq] at isHead
          exact linked.chains_apart here isIn (mem_of_head? isHead) rfl
  case mem_chain =>
    intro i e
    show _ ↔ _ ∧ cacheHashFn (update s.blockNum s.nextEntry block e) = i
    by_cases isNew : e = s.nextEntry
    · rw [isNew, update_self]
      by_cases here : i = cacheHashFn block
      · rw [here]
        simp
      · rw [update_of_ne here]
        exact iff_of_false (freshIn i) fun both => here both.2.symm
    · rw [update_of_ne isNew, mem_cons, or_iff_right isNew, ← linked.mem_chain i e]
      by_cases here : i = cacheHashFn block
      · rw [here, update_self, mem_cons, or_iff_right isNew]
      · rw [update_of_ne here]
  case valid =>
    rintro e (_ | ⟨_, member⟩)
    · exact update_self _ _ _
    · have same := linked.valid e member
      rw [← same]
      exact update_of_ne (fun (same : e = s.nextEntry) => fresh (same ▸ member)) _ _
  case distinct =>
    have apart : ∀ e ∈ lru, s.blockNum e ≠ block := entryOf_eq_none.mp absent
    show ∀ e ∈ _, ∀ f ∈ _, update s.blockNum s.nextEntry block e =
      update s.blockNum s.nextEntry block f → e = f
    rintro e (_ | ⟨_, isIn⟩) f (_ | ⟨_, alsoIn⟩) same
    · rfl
    · rw [update_self, blockOf f alsoIn] at same
      exact absurd same.symm (apart f alsoIn)
    · rw [update_self, blockOf e isIn] at same
      exact absurd same (apart e isIn)
    · rw [blockOf e isIn, blockOf f alsoIn] at same
      exact linked.distinct e isIn f alsoIn same
  case old =>
    rintro e (_ | ⟨_, member⟩)
    · exact lt_succ_self _
    · exact lt_succ_of_lt (linked.old e member)
  case few => exact succ_le_succ linked.few

/-! ## Taking an entry out -/

theorem Linked.unlinked (member : entry ∈ lru) :
    Linked (unlink s entry) (lru.erase entry)
      (update chain (cacheHashFn (s.blockNum entry))
        ((chain (cacheHashFn (s.blockNum entry))).erase entry)) := by
  have inChain : entry ∈ chain (cacheHashFn (s.blockNum entry)) :=
    (linked.mem_chain _ _).mpr ⟨member, rfl⟩
  have among : ∀ e ∈ lru.erase entry, e ∈ lru := fun e => mem_of_mem_erase
  constructor
  case recent => exact linked.lruRemove_dll member
  case hashed =>
    intro i
    show Dll (redirect s.hashNext (s.hashPrev entry) (s.hashNext entry))
      (redirect s.hashPrev (s.hashNext entry) (s.hashPrev entry))
      ((hashRemove s entry).cacheHash i) _ _
    have chained := linked.hashed (cacheHashFn (s.blockNum entry))
    obtain ⟨before, after, split⟩ := append_of_mem inChain
    rw [split] at chained
    by_cases here : i = cacheHashFn (s.blockNum entry)
    · rw [here, update_self, hashRemove_head chained, split]
      have outside : entry ∉ before ++ after := (nodup_cons.mp (nodup_middle.mp chained.nodup)).1
      rw [erase_of_split fun inBefore => outside (mem_append_left _ inBefore)]
      have removed := chained.remove
      rwa [removed.tail_eq] at removed
    · have sameHead : (hashRemove s entry).cacheHash i = s.cacheHash i := by
        unfold hashRemove
        dsimp only
        split
        · exact update_of_ne here _ _
        · rfl
      rw [update_of_ne here, sameHead]
      have apart : ∀ b ∈ chain i, ∀ c ∈ before ++ entry :: after, b ≠ c := fun b isIn c alsoIn =>
        linked.chains_apart here isIn (split ▸ alsoIn)
      refine (linked.hashed i).congr (fun b isIn => ?_) fun b isIn => ?_
      · refine redirect_of_ne fun isPrev => ?_
        rw [chained.links.2] at isPrev
        exact apart b isIn b (mem_append_left _ (mem_of_getLast? isPrev)) rfl
      · refine redirect_of_ne fun isNext => ?_
        rw [chained.links.1] at isNext
        exact apart b isIn b (mem_append_right _ (mem_cons_of_mem _ (mem_of_head? isNext))) rfl
  case mem_chain =>
    intro i e
    show _ ↔ _ ∧ cacheHashFn (s.blockNum e) = i
    rw [linked.recent.nodup.mem_erase_iff, and_assoc, ← linked.mem_chain i e]
    by_cases here : i = cacheHashFn (s.blockNum entry)
    · rw [here, update_self, (linked.hashed _).nodup.mem_erase_iff]
    · rw [update_of_ne here]
      refine (and_iff_right_of_imp fun isIn => ?_).symm
      exact linked.chains_apart here isIn inChain
  case valid => exact fun e isIn => linked.valid e (among e isIn)
  case distinct =>
    exact fun e isIn f alsoIn => linked.distinct e (among e isIn) f (among f alsoIn)
  case old => exact fun e isIn => linked.old e (among e isIn)
  case few => exact le_trans (length_erase_le) linked.few

end

/-!
## The block cache as a write-back cache

The entries of the cache are the lines of a write-back cache whose backing store is the disk,
block by block (`view`). Each change of the code's state is a change of a line, or of the
store, or of neither:

* moving an entry to the front or counting a reader changes neither (`Linked.view_touch`);
* a new entry sets a line, an entry that is taken out removes one (`Linked.view_linkEntry`,
  `Linked.view_unlink`);
* storing into an entry and setting its flag change its line (`Linked.view_change`);
* the transfer of block 1 goes to the sectors of block 1 (`view_writeEntry`,
  `readBlock_one`). It is the only block whose transfer does.
-/

def blockOf (disk : Nat → Sector) (block : Nat) : Block Sector := fun k => disk (8 * block + k)

def view (s : Cache Sector) (lru : List Nat) : WriteBack Nat (Block Sector) :=
  { lines := fun block => (entryOf s lru block).map fun entry => (s.data entry, s.dirty entry)
    backing := blockOf s.disk }

theorem view_lines : (view s lru).lines block =
      (entryOf s lru block).map fun entry => (s.data entry, s.dirty entry) := rfl

theorem view_line_of_none (absent : entryOf s lru block = none) :
    (view s lru).lines block = none := by
  rw [view_lines, absent]
  rfl

theorem view_line_of_some (found : entryOf s lru block = some entry) :
    (view s lru).lines block = some (s.data entry, s.dirty entry) := by
  rw [view_lines, found]
  rfl

section

variable (linked : Linked s lru chain)
include linked

theorem Linked.line_iff {line : Block Sector × Bool} :
    (view s lru).lines block = some line ↔
      ∃ e ∈ lru, s.blockNum e = block ∧ (s.data e, s.dirty e) = line := by
  constructor
  · intro isLine
    obtain ⟨e, found, same⟩ := Option.map_eq_some_iff.mp isLine
    obtain ⟨member, isBlock⟩ := linked.entryOf_eq_some.mp found
    exact ⟨e, member, isBlock, same⟩
  · rintro ⟨e, member, isBlock, rfl⟩
    exact view_line_of_some (linked.entryOf_eq_some.mpr ⟨member, isBlock⟩)

/-! ## Changes that a client does not see -/

/-- Reordering the entries changes nothing. -/
theorem Linked.view_touch (member : entry ∈ lru) :
    view (touch s entry) (entry :: lru.erase entry) = view s lru := by
  have moved := linked.touched member
  have entries : ∀ b, entryOf (touch s entry) (entry :: lru.erase entry) b = entryOf s lru b := by
    intro b
    refine Option.ext fun e => ?_
    rw [moved.entryOf_eq_some, linked.entryOf_eq_some]
    rw [mem_cons, linked.recent.nodup.mem_erase_iff]
    refine and_congr_left fun _ => ⟨?_, fun isIn => ?_⟩
    · rintro (rfl | ⟨-, isIn⟩)
      · exact member
      · exact isIn
    · by_cases same : e = entry
      · exact .inl same
      · exact .inr ⟨same, isIn⟩
  unfold view
  simp only [entries]
  rfl

/-! ## Changes of a line -/

theorem Linked.view_setLine {lru' : List Nat} {chain' : Nat → List Nat}
    {line : Option (Block Sector × Bool)}
    (linked' : Linked s' lru' chain') (here : (view s' lru').lines block = line)
    (entries : ∀ e b, b ≠ block → (e ∈ lru' ∧ s'.blockNum e = b ↔ e ∈ lru ∧ s.blockNum e = b))
    (contents : ∀ e ∈ lru, s.blockNum e ≠ block → s'.data e = s.data e ∧ s'.dirty e = s.dirty e)
    (disk : s'.disk = s.disk) : view s' lru' = (view s lru).setLine block line := by
  have lines : ∀ b, (view s' lru').lines b = ((view s lru).setLine block line).lines b := by
    intro b
    by_cases isHere : b = block
    · rw [isHere, here, setLine_self]
    · rw [setLine_of_ne isHere]
      have same : entryOf s' lru' b = entryOf s lru b := Option.ext fun e => by
        rw [linked'.entryOf_eq_some, linked.entryOf_eq_some]
        exact entries e b isHere
      rw [view_lines, same]
      refine Option.map_congr fun e found => ?_
      obtain ⟨member, isBlock⟩ := linked.entryOf_eq_some.mp found
      obtain ⟨data, dirty⟩ := contents e member fun same => isHere (isBlock.symm.trans same)
      rw [data, dirty]
  have backing : (view s' lru').backing = ((view s lru).setLine block line).backing :=
    congrArg blockOf disk
  exact WriteBack.ext (funext lines) backing

theorem Linked.view_change (same : SameLists s s') (found : entryOf s lru block = some entry)
    (others : ∀ e ≠ entry, s'.data e = s.data e ∧ s'.dirty e = s.dirty e)
    (disk : s'.disk = s.disk) :
    view s' lru = (view s lru).setLine block (some (s'.data entry, s'.dirty entry)) := by
  refine linked.view_setLine (linked.of_same same) (view_line_of_some ?_) (fun e b _ => ?_)
    (fun e _ ne => others e ?_) disk
  · rw [entryOf, same.blockNum]
    exact found
  · rw [same.blockNum]
  · rintro rfl
    exact ne (linked.entryOf_eq_some.mp found).2

theorem Linked.view_setDirty (found : entryOf s lru block = some entry) (dirty : Bool) :
    view (setDirty s entry dirty) lru =
      (view s lru).setLine block (some (s.data entry, dirty)) := by
  have same : SameLists s (setDirty s entry dirty) := sameLists_setDirty s
  have changed := linked.view_change same found (fun e ne => ⟨rfl, update_of_ne ne _ _⟩) rfl
  have isDirty : (setDirty s entry dirty).dirty entry = dirty := update_self _ _ _
  rwa [isDirty] at changed

theorem Linked.view_linkEntry (absent : entryOf s lru block = none) {data : Block Sector} :
    view (linkEntry s block data) (s.nextEntry :: lru) =
      (view s lru).setLine block (some (data, false)) := by
  have linked' := linked.inserted absent data
  have fresh : ∀ e ∈ lru, e ≠ s.nextEntry := fun e member => Nat.ne_of_lt (linked.old e member)
  have newBlock : (linkEntry s block data).blockNum s.nextEntry = block := update_self _ _ _
  have oldBlock : ∀ e ≠ s.nextEntry, (linkEntry s block data).blockNum e = s.blockNum e :=
    fun e ne => update_of_ne ne _ _
  refine linked.view_setLine linked' ?_ (fun e b notHere => ?_) (fun e member _ => ?_) rfl
  · have found := linked'.entryOf_eq_some.mpr ⟨mem_cons_self, newBlock⟩
    rw [view_line_of_some found]
    refine congrArg some (Prod.ext ?_ ?_)
    · exact update_self _ _ _
    · exact update_self _ _ _
  · by_cases isNew : e = s.nextEntry
    · rw [isNew, newBlock]
      refine iff_of_false (fun both => notHere both.2.symm) fun both => ?_
      exact fresh _ both.1 rfl
    · rw [oldBlock e isNew, mem_cons, or_iff_right isNew]
  · exact ⟨update_of_ne (fresh e member) _ _, update_of_ne (fresh e member) _ _⟩

theorem Linked.view_unlink (found : entryOf s lru block = some entry) :
    view (unlink s entry) (lru.erase entry) = (view s lru).setLine block none := by
  obtain ⟨member, isBlock⟩ := linked.entryOf_eq_some.mp found
  have nodup := linked.recent.nodup
  refine linked.view_setLine (linked.unlinked member) (view_line_of_none ?_) (fun e b notHere => ?_)
    (fun e _ _ => ⟨rfl, rfl⟩) rfl
  · refine entryOf_eq_none.mpr fun e isIn same => ?_
    obtain ⟨ne, isIn⟩ := nodup.mem_erase_iff.mp isIn
    exact ne (linked.distinct e isIn entry member (same.trans isBlock.symm))
  · rw [nodup.mem_erase_iff]
    refine and_congr_left fun eBlock => and_iff_right ?_
    rintro rfl
    exact notHere (eBlock.symm.trans isBlock)

end

/-! ## Transfers -/

/-- The transfer of block 1 is eight sectors from sector 8 on. -/
theorem transferCount_one : transferCount 1 = 8 := rfl

theorem readBlock_one : readBlock s 1 answers = some (blockOf s.disk 1) := by
  refine congrArg some (funext fun k => ?_)
  rw [ideReadSectors, if_pos (show (k : Nat) < transferCount 1 from k.isLt)]
  rfl

theorem blockOf_writeEntry (isOne : s.blockNum entry = 1) (ok : answers.writes 1) :
    blockOf (writeEntry s entry answers).disk block =
      if block = 1 then s.data entry else blockOf s.disk block := by
  funext k
  show (writeCall s entry answers).apply answers.failed s.disk (8 * block + k) = _
  rw [WriteCall.apply, writeCall, isOne, ok, transferCount_one, transferLba]
  dsimp only
  by_cases here : block = 1
  · have index : 8 * block + (k : Nat) - 8 = k := by omega
    rw [if_pos here, if_pos (by omega), dif_pos (by omega)]
    exact congrArg (s.data entry) (Fin.ext index)
  · rw [if_neg here, if_neg (by omega)]
    rfl

theorem view_writeEntry (isOne : s.blockNum entry = 1) (ok : answers.writes 1) :
    view (writeEntry s entry answers) lru = (view s lru).setBacking 1 (s.data entry) := by
  refine WriteBack.ext rfl (funext fun block => (blockOf_writeEntry isOne ok).trans ?_)
  by_cases here : block = 1
  · rw [if_pos here, here, WriteBack.setBacking_self]
  · rw [if_neg here, setBacking_of_ne here]
    rfl

end FunsOS.BlockCache
