import FunsOS.Foundation.LinkedList
import FunsOS.Foundation.Layout
import FunsOS.Kheap.Heap

/-!
# The block list and what each heap call does to it

`Blocks h as` says that the headers at `as`, in this order, are the list from
`heap_first`, that their extents lie in order and without overlap in
`[heap_start, heap_current)`, and that the addresses involved are far enough
from both ends of the address space for the 32-bit sums of the code to be sums.

The calls are then described by what they do to `as`: `carve` may insert the
rest of the block it takes (`carve_blocks`), `appendBlock` adds a block at the
old `heap_current` (`appendBlock_blocks`), `absorb` drops a block
(`absorb_blocks`). `kmalloc_spec` and `kfree_spec` collect this: both leave every
block in use where and as large as it was, the freed one apart.
-/

set_option autoImplicit false

namespace FunsOS.Kheap

open Foundation Function List Option Nat Heap

/-- The bytes a block takes, header included. -/
def extent (h : Heap) (a : Nat) : Nat := headerSize + h.size a

/-- The headers at `as` are the heap's list, laid out in the heap's range. -/
structure Blocks (h : Heap) (as : List Nat) : Prop where
  chain : Seg h.next h.heapFirst as none
  laid : Laid (extent h) h.heapStart as h.heapCurrent
  magic : ∀ a ∈ as, h.magic a = blockMagic
  above : pageSize ≤ h.heapStart
  below : h.heapCurrent < wordLimit

def InUse (h : Heap) (as : List Nat) (a : Nat) : Prop := a ∈ as ∧ h.isFree a = false

/-- The block is still in use, and as large as before. -/
def Kept (h h' : Heap) (as' : List Nat) (a : Nat) : Prop := InUse h' as' a ∧ h'.size a = h.size a

/-- The two heaps differ at most in the headers in `len` bytes at `lo`. -/
structure SameOutside (h h' : Heap) (lo len : Nat) : Prop where
  start : h'.heapStart = h.heapStart
  current : h'.heapCurrent = h.heapCurrent
  first : h'.heapFirst = h.heapFirst
  magic : ∀ a, ¬ (lo ≤ a ∧ a < lo + len) → h'.magic a = h.magic a
  size : ∀ a, ¬ (lo ≤ a ∧ a < lo + len) → h'.size a = h.size a
  isFree : ∀ a, ¬ (lo ≤ a ∧ a < lo + len) → h'.isFree a = h.isFree a
  next : ∀ a, ¬ (lo ≤ a ∧ a < lo + len) → h'.next a = h.next a

theorem zeroRange_sameOutside {h : Heap} {lo len : Nat} :
    SameOutside h (h.zeroRange lo len) lo len :=
  ⟨rfl, rfl, rfl, fun _ out => if_neg out, fun _ out => if_neg out, fun _ out => if_neg out,
    fun _ out => if_neg out⟩

theorem copyRange_sameOutside (h : Heap) (src dst len : Nat) :
    SameOutside h (h.copyRange src dst len) dst len :=
  ⟨rfl, rfl, rfl, fun _ out => if_neg out, fun _ out => if_neg out, fun _ out => if_neg out,
    fun _ out => if_neg out⟩

section

variable {h h' : Heap} {as : List Nat} {a b : Nat}

section

variable (blocks : Blocks h as)
include blocks

theorem Blocks.bounds (member : a ∈ as) :
    pageSize ≤ a ∧ a + headerSize + h.size a ≤ h.heapCurrent := by
  obtain ⟨lower, upper⟩ := blocks.laid.bounds member
  have above := blocks.above
  rw [extent] at upper
  omega

theorem Blocks.lt_current (member : a ∈ as) : a < h.heapCurrent := by
  have upper := (blocks.bounds member).2
  have positive : 0 < headerSize := by decide
  omega

/-- The payload leads back to the header. -/
theorem Blocks.header_eq (member : a ∈ as) : sub32 (a + headerSize) headerSize = a := by
  have upper := (blocks.bounds member).2
  have below := blocks.below
  rw [sub32_of_le (by omega) (by omega), Nat.add_sub_cancel]

theorem Blocks.length_lt : as.length < walkLimit := by
  have counted := blocks.laid.length_le fun a => by rw [extent, headerSize]; omega
  have below := blocks.below
  rw [walkLimit]
  omega

theorem Blocks.payload (member : a ∈ as) (other : b ∈ as) :
    ¬ (a + headerSize ≤ b ∧ b < a + headerSize + h.size a) := by
  rintro ⟨lower, upper⟩
  obtain ⟨before, after, rfl⟩ := append_of_mem member
  obtain ⟨left, right⟩ := laid_split.mp blocks.laid
  have positive : 0 < headerSize := by decide
  rcases mem_append.mp other with earlier | later
  · have ends := (left.bounds earlier).2
    omega
  · rcases mem_cons.mp later with same | later
    · omega
    · have starts := (right.bounds later).1
      rw [extent] at starts
      omega

/-- The list is read at its own headers only. -/
theorem Blocks.congr (start : h'.heapStart = h.heapStart)
    (current : h'.heapCurrent = h.heapCurrent) (first : h'.heapFirst = h.heapFirst)
    (magic : ∀ a ∈ as, h'.magic a = h.magic a) (size : ∀ a ∈ as, h'.size a = h.size a)
    (next : ∀ a ∈ as, h'.next a = h.next a) : Blocks h' as where
  chain := first ▸ blocks.chain.congr next
  laid := by
    rw [start, current]
    exact blocks.laid.congr fun a member => by rw [extent, extent, size a member]
  magic := fun a member => (magic a member).trans (blocks.magic a member)
  above := start ▸ blocks.above
  below := current ▸ blocks.below

/-- Setting `is_free` does not change the list. -/
theorem Blocks.setFree (flags : Nat → Bool) : Blocks { h with isFree := flags } as :=
  blocks.congr rfl rfl rfl (fun _ _ => rfl) (fun _ _ => rfl) fun _ _ => rfl

theorem Blocks.payload_write (member : a ∈ as) {len : Nat}
    (fits : len ≤ h.size a) (same : SameOutside h h' (a + headerSize) len) :
    Blocks h' as ∧ ∀ b ∈ as, h'.isFree b = h.isFree b ∧ h'.size b = h.size b := by
  have outside : ∀ b ∈ as, ¬ (a + headerSize ≤ b ∧ b < a + headerSize + len) := by
    rintro b other ⟨lower, upper⟩
    exact blocks.payload member other ⟨lower, by omega⟩
  refine ⟨blocks.congr same.start same.current same.first ?_ ?_ ?_, fun b other => ?_⟩
  · exact fun b other => same.magic b (outside b other)
  · exact fun b other => same.size b (outside b other)
  · exact fun b other => same.next b (outside b other)
  · exact ⟨same.isFree b (outside b other), same.size b (outside b other)⟩

end

theorem ne_of_free_of_used (free : h.isFree a) (used : h.isFree b = false) : b ≠ a := by
  rintro rfl
  exact absurd (free.symm.trans used) (by decide)

theorem pointer_of_pos {address : Nat} (positive : 0 < address) :
    pointer address = some address := if_neg (by omega)

end

/-! ## The walks -/

variable {header last : Nat} {p : Option Nat}

section Walks

variable {h : Heap} {fuel : Nat}

/-- The first-fit walk returns a block that fits, or there is none. -/
theorem search_spec {size : Nat} {as : List Nat} (chain : Seg h.next p as none)
    (magic : ∀ a ∈ as, h.magic a = blockMagic) (enough : as.length < fuel) :
    (∃ a ∈ as, h.isFree a ∧ size ≤ h.size a ∧ search h size fuel p = some (.found a)) ∨
      ((∀ a ∈ as, ¬ (h.isFree a ∧ size ≤ h.size a)) ∧ search h size fuel p = some .exhausted) := by
  induction as generalizing p fuel with
  | nil =>
    obtain ⟨fuel, rfl⟩ := exists_eq_succ_of_ne_zero (ne_zero_of_lt enough)
    right
    cases chain
    exact ⟨fun a member => absurd member not_mem_nil, rfl⟩
  | cons b bs ih =>
    obtain ⟨fuel, rfl⟩ := exists_eq_succ_of_ne_zero (ne_zero_of_lt enough)
    obtain ⟨rfl, rest⟩ := chain
    have good := magic b mem_cons_self
    by_cases fits : h.isFree b ∧ size ≤ h.size b
    · left
      exact ⟨b, mem_cons_self, fits.1, fits.2, by simp [search, good, fits]⟩
    · have continues : search h size (fuel + 1) (some b) = search h size fuel (h.next b) := by
        rw [search, if_neg (not_not_intro good), if_neg fits]
      rw [continues]
      rcases ih rest (forall_mem_cons.mp magic).2 (lt_of_succ_lt_succ enough) with
        ⟨a, member, free, large, found⟩ | ⟨none, exhausted⟩
      · exact .inl ⟨a, mem_cons_of_mem _ member, free, large, found⟩
      · exact .inr ⟨forall_mem_cons.mpr ⟨fits, none⟩, exhausted⟩

/-- The walk to the end finds the last block. -/
theorem lastBlock_spec {as : List Nat} {a : Nat} (chain : Seg h.next (some a) (as ++ [last]) none)
    (enough : as.length < fuel) : lastBlock h fuel a = some last := by
  induction as generalizing a fuel with
  | nil =>
    obtain ⟨fuel, rfl⟩ := exists_eq_succ_of_ne_zero (ne_zero_of_lt enough)
    obtain ⟨same, ends⟩ := chain
    cases same
    rw [seg_nil] at ends
    simp only [lastBlock, ends]
  | cons b bs ih =>
    obtain ⟨fuel, rfl⟩ := exists_eq_succ_of_ne_zero (ne_zero_of_lt enough)
    obtain ⟨same, rest⟩ := chain
    cases same
    obtain ⟨c, cs, split⟩ : ∃ c cs, bs ++ [last] = c :: cs := by
      cases bs with
      | nil => exact ⟨last, [], rfl⟩
      | cons c cs => exact ⟨c, cs ++ [last], rfl⟩
    have following : h.next b = some c := by
      have whole : Seg h.next (h.next b) (c :: cs) none := split ▸ rest
      exact whole.1
    rw [following] at rest
    simp only [lastBlock, following]
    exact ih rest (lt_of_succ_lt_succ enough)

/-- The walk of `kfree` stops at the header with the block before it. -/
theorem findPrev_spec {before after : List Nat} {prev : Option Nat}
    (chain : Seg h.next p (before ++ header :: after) none) (fresh : header ∉ before)
    (enough : before.length < fuel) :
    findPrev h header fuel prev p = some (before.getLast?.or prev) := by
  induction before generalizing p prev fuel with
  | nil =>
    obtain ⟨fuel, rfl⟩ := exists_eq_succ_of_ne_zero (ne_zero_of_lt enough)
    obtain ⟨rfl, -⟩ := chain
    simp [findPrev]
  | cons b bs ih =>
    obtain ⟨fuel, rfl⟩ := exists_eq_succ_of_ne_zero (ne_zero_of_lt enough)
    obtain ⟨rfl, rest⟩ := chain
    have other : b ≠ header := (ne_of_not_mem_cons fresh).symm
    have continues : findPrev h header fuel (some b) (h.next b) = some (bs.getLast?.or (some b)) :=
      ih rest (not_mem_of_not_mem_cons fresh) (lt_of_succ_lt_succ enough)
    rw [findPrev, if_neg other, continues]
    cases bs with
    | nil => rfl
    | cons c cs => simp [List.getLast?_cons]

end Walks

/-! ## Taking a block -/

variable {h : Heap} {a n avail size num : Nat} {as before after : List Nat}

/-- Splitting a block puts its rest after it. -/
theorem splitBlock_blocks (blocks : Blocks h (before ++ a :: after))
    (large : size + 24 < h.size a) :
    Blocks (splitBlock h a size) (before ++ a :: (a + headerSize + size) :: after) := by
  have member : a ∈ before ++ a :: after := by simp
  obtain ⟨lower, upper⟩ := blocks.bounds member
  have below := blocks.below
  have header : headerSize = 16 := rfl
  have page : pageSize = 4096 := rfl
  have place : add32 (add32 a headerSize) size = a + headerSize + size :=
    add32_add32_of_lt (by omega)
  have rest : sub32 (sub32 (h.size a) size) headerSize = h.size a - size - headerSize := by
    rw [@sub32_of_le (h.size a) size (by omega) (by omega), sub32_of_le (by omega) (by omega)]
  have fresh : a + headerSize + size ∉ before ++ a :: after := fun other =>
    blocks.payload member other ⟨by omega, by omega⟩
  have inBefore : ∀ c ∈ before, c ≠ a ∧ c ≠ a + headerSize + size := fun c earlier =>
    ⟨blocks.chain.split_ne.1 c earlier, fun same => fresh (by simp [← same, earlier])⟩
  have inAfter : ∀ c ∈ after, c ≠ a ∧ c ≠ a + headerSize + size := fun c later =>
    ⟨blocks.chain.split_ne.2 c later, fun same => fresh (by simp [← same, later])⟩
  have apart : a + headerSize + size ≠ a := by omega
  obtain ⟨left, right⟩ := seg_split.mp blocks.chain
  obtain ⟨lowLaid, highLaid⟩ := laid_split.mp blocks.laid
  simp only [splitBlock, writeHeader, place, rest, pointer_of_pos (lt_of_lt_of_le
    (show 0 < a by omega) (by omega : a ≤ a + headerSize + size))]
  constructor
  case above => exact blocks.above
  case below => exact blocks.below
  case magic =>
    intro c other
    by_cases same : c = a + headerSize + size
    · simp [same]
    · simp only [update_of_ne same]
      apply blocks.magic
      simp only [mem_append, mem_cons, same, false_or] at other ⊢
      exact other
  case chain =>
    refine seg_split.mpr ⟨left.congr fun c earlier => ?_, ?_⟩
    · simp [update_of_ne, inBefore c earlier]
    · refine ⟨by simp, ?_⟩
      simp only [update_of_ne apart, update_self]
      exact right.congr fun c later => by simp [update_of_ne, inAfter c later]
  case laid =>
    refine laid_split.mpr ⟨lowLaid.congr fun c earlier => ?_, ?_, ?_⟩
    · simp [extent, update_of_ne, inBefore c earlier]
    · simp only [extent, update_self]
      omega
    · have ends : a + headerSize + size +
          (headerSize + (h.size a - size - headerSize)) = a + extent h a := by
        rw [extent]
        omega
      simp only [extent, update_of_ne apart, update_self, ends]
      exact highLaid.congr fun c later => by simp [extent, update_of_ne, inAfter c later]

/-- A list with one more block has the blocks it had. -/
theorem mem_of_one_more {new b : Nat} (member : b ∈ before ++ a :: after) :
    b ∈ before ++ a :: new :: after :=
  (((sublist_cons_self new after).cons_cons a).append_left before).subset member

/-- Taking a block that fits keeps the list, with the rest of the block as a new
block when it is split. -/
theorem carve_blocks (blocks : Blocks h as) (member : a ∈ as) (fits : size ≤ h.size a) :
    ∃ as', Blocks (carve h a size) as' ∧ InUse (carve h a size) as' a ∧
      size ≤ (carve h a size).size a ∧
      ∀ b ∈ as, b ≠ a → h.isFree b = false → Kept h (carve h a size) as' b := by
  obtain ⟨lower, upper⟩ := blocks.bounds member
  have below := blocks.below
  have page : pageSize = 4096 := rfl
  have sum : add32 (add32 size headerSize) alignment = size + 24 :=
    add32_add32_of_lt (c := 8) (by omega)
  by_cases large : size + 24 < h.size a
  · obtain ⟨before, after, rfl⟩ := append_of_mem member
    have place : add32 (add32 a headerSize) size = a + headerSize + size :=
      add32_add32_of_lt (by omega)
    have taken : carve h a size = { splitBlock h a size with
        isFree := update (splitBlock h a size).isFree a false } := by
      rw [carve, sum, if_pos large]
    refine ⟨before ++ a :: (a + headerSize + size) :: after, ?_, ?_, ?_, ?_⟩
    · rw [taken]
      exact (splitBlock_blocks blocks large).setFree _
    · exact ⟨by simp, by simp [taken]⟩
    · simp [taken, splitBlock]
    · intro b other apart used
      have fresh : b ≠ a + headerSize + size := fun same =>
        blocks.payload member other ⟨by omega, by omega⟩
      refine ⟨⟨?_, ?_⟩, ?_⟩
      · exact mem_of_one_more other
      · simp [taken, splitBlock, writeHeader, place, apart, fresh, used]
      · simp [taken, splitBlock, writeHeader, place, apart, fresh]
  · have taken : carve h a size =
        { h with isFree := update h.isFree a false } := by
      rw [carve, sum, if_neg large]
    refine ⟨as, ?_, ?_, ?_, ?_⟩
    · rw [taken]
      exact blocks.setFree _
    · exact ⟨member, by simp [taken]⟩
    · simpa [taken] using fits
    · intro b other apart used
      exact ⟨⟨other, by simp [taken, apart, used]⟩, by rw [taken]⟩

/-! ## Growing the heap -/

/-- `h'` is `h` with `bytes` more at the end, whatever they hold. -/
structure Grown (h h' : Heap) (bytes : Nat) : Prop where
  start : h'.heapStart = h.heapStart
  current : h'.heapCurrent = h.heapCurrent + bytes
  first : h'.heapFirst = h.heapFirst
  magic : ∀ a < h.heapCurrent, h'.magic a = h.magic a
  size : ∀ a < h.heapCurrent, h'.size a = h.size a
  isFree : ∀ a < h.heapCurrent, h'.isFree a = h.isFree a
  next : ∀ a < h.heapCurrent, h'.next a = h.next a

theorem Grown.refl : Grown h h 0 :=
  ⟨rfl, rfl, rfl, fun _ _ => rfl, fun _ _ => rfl, fun _ _ => rfl, fun _ _ => rfl⟩

theorem Grown.trans {h' h'' : Heap} {m : Nat} (first : Grown h h' m) (second : Grown h' h'' n) :
    Grown h h'' (m + n) := by
  have earlier : ∀ a < h.heapCurrent, a < h'.heapCurrent := by
    intro a below
    rw [first.current]
    omega
  refine ⟨second.start.trans first.start, ?_, second.first.trans first.first, ?_, ?_, ?_, ?_⟩
  · rw [second.current, first.current, add_assoc]
  · exact fun a below => (second.magic a (earlier a below)).trans (first.magic a below)
  · exact fun a below => (second.size a (earlier a below)).trans (first.size a below)
  · exact fun a below => (second.isFree a (earlier a below)).trans (first.isFree a below)
  · exact fun a below => (second.next a (earlier a below)).trans (first.next a below)

/-- Mapping and clearing one page. -/
theorem grown_page (fits : h.heapCurrent + pageSize < wordLimit) :
    Grown h { h.zeroRange h.heapCurrent pageSize with
      heapCurrent := add32 h.heapCurrent pageSize } pageSize := by
  have outside : ∀ a < h.heapCurrent, ¬ (h.heapCurrent ≤ a ∧ a < h.heapCurrent + pageSize) := by
    rintro a below ⟨above, -⟩
    omega
  refine ⟨rfl, add32_of_lt fits, rfl, ?_, ?_, ?_, ?_⟩
  all_goals exact fun a below => if_neg (outside a below)

theorem expandPages_spec {pages : Nat} (enough : pages ≤ avail)
    (fits : h.heapCurrent + pages * pageSize < wordLimit) :
    ∃ h', expandPages pages avail h = (h', true) ∧ Grown h h' (pages * pageSize) := by
  induction pages generalizing avail h with
  | zero => exact ⟨h, rfl, by simpa using Grown.refl⟩
  | succ pages ih =>
    obtain ⟨avail, rfl⟩ := exists_eq_succ_of_ne_zero (n := avail) (by omega)
    rw [succ_mul] at fits
    have page := grown_page (h := h) (by omega)
    obtain ⟨h', expanded, grown⟩ := ih (le_of_succ_le_succ enough) (by rw [page.current]; omega)
    refine ⟨h', expanded, ?_⟩
    rw [succ_mul, add_comm]
    exact page.trans grown

theorem pageSize_dvd_needed : needed size / pageSize * pageSize = needed size :=
  Nat.div_mul_cancel alignUp_dvd

theorem expandHeap_grown (enough : needed size / pageSize ≤ avail)
    (fits : h.heapCurrent + needed size < wordLimit) :
    Grown h (expandHeap h size avail) (needed size) := by
  obtain ⟨h', expanded, grown⟩ := expandPages_spec enough (by rw [pageSize_dvd_needed]; exact fits)
  rw [pageSize_dvd_needed] at grown
  rw [expandHeap, expanded]
  exact ⟨grown.start, grown.current, grown.first, grown.magic, grown.size, grown.isFree, grown.next⟩

/-- The heap after a new header at the old end has been linked behind `last`. -/
def linkBlock (grown : Heap) (place size last : Nat) : Heap :=
  { grown.writeHeader place size false none with
    next := Function.update (grown.writeHeader place size false none).next last (some place) }

theorem linkBlock_blocks {grown : Heap} {bytes : Nat} (blocks : Blocks h (as ++ [last]))
    (grows : Grown h grown bytes) (room : headerSize + size ≤ bytes)
    (fits : h.heapCurrent + bytes < wordLimit) :
    Blocks (linkBlock grown h.heapCurrent size last) (as ++ [last] ++ [h.heapCurrent]) := by
  have before : ∀ a ∈ as ++ [last], a < h.heapCurrent := fun _ => blocks.lt_current
  have apart : ∀ a ∈ as ++ [last], a ≠ h.heapCurrent := fun a member =>
    Nat.ne_of_lt (before a member)
  have inits := blocks.chain.split_ne.1
  have lastMember : last ∈ as ++ [last] := by simp
  constructor
  case above =>
    show pageSize ≤ grown.heapStart
    rw [grows.start]
    exact blocks.above
  case below =>
    show grown.heapCurrent < wordLimit
    rw [grows.current]
    exact fits
  case magic =>
    intro a member
    rcases mem_append.mp member with old | new
    · simp [linkBlock, writeHeader, apart a old, grows.magic a (before a old), blocks.magic a old]
    · simp [linkBlock, writeHeader, mem_singleton.mp new]
  case chain =>
    show Seg _ grown.heapFirst _ _
    rw [grows.first, append_assoc]
    obtain ⟨left, -⟩ := seg_split.mp blocks.chain
    refine seg_split.mpr ⟨left.congr fun a member => ?_, ?_⟩
    · have old : a ∈ as ++ [last] := mem_append_left _ member
      simp [linkBlock, writeHeader, inits a member, apart a old, grows.next a (before a old)]
    · refine ⟨by simp [linkBlock], ?_⟩
      simp [linkBlock, writeHeader, (apart last lastMember).symm]
  case laid =>
    show Laid _ grown.heapStart _ grown.heapCurrent
    rw [grows.start, grows.current]
    refine laid_append.mpr ⟨h.heapCurrent, blocks.laid.congr fun a old => ?_, ?_⟩
    · simp [linkBlock, writeHeader, extent, apart a old, grows.size a (before a old)]
    · simp only [laid_cons, laid_nil, le_refl, true_and]
      simp only [extent, linkBlock, writeHeader, update_self]
      omega

/-- Growing the heap by the pages of a new block puts the block at the old end. -/
theorem appendBlock_blocks (blocks : Blocks h as) (nonempty : h.heapFirst ≠ none)
    (small : size + headerSize + (pageSize - 1) < wordLimit)
    (enough : needed size / pageSize ≤ avail) (fits : h.heapCurrent + needed size < wordLimit) :
    ∃ h', appendBlock h size avail = some (h', some (h.heapCurrent + headerSize)) ∧
      Blocks h' (as ++ [h.heapCurrent]) ∧ InUse h' (as ++ [h.heapCurrent]) h.heapCurrent ∧
      h'.size h.heapCurrent = size ∧
      ∀ b ∈ as, h.isFree b = false → Kept h h' (as ++ [h.heapCurrent]) b := by
  have header : headerSize = 16 := rfl
  have page : pageSize = 4096 := rfl
  have grows := expandHeap_grown enough fits
  have room : headerSize + size ≤ needed size := by
    rw [needed, add32_of_lt (by omega), add_comm]
    exact le_alignUp (by decide) (by omega)
  have place : sub32 (expandHeap h size avail).heapCurrent (needed size) = h.heapCurrent := by
    rw [grows.current, sub32_of_le (by omega) fits, Nat.add_sub_cancel]
  have positive : 0 < h.heapCurrent := by
    have lower := blocks.above
    have upper := blocks.laid.le
    omega
  -- the list is not empty, so it has a last block
  obtain ⟨before, last, rfl⟩ : ∃ before last, as = before ++ [last] := by
    rcases eq_nil_or_concat as with rfl | ⟨before, last, rfl⟩
    · exact absurd blocks.chain nonempty
    · exact ⟨before, last, by simp⟩
  obtain ⟨first, starts⟩ := ne_none_iff_exists'.mp nonempty
  have below : ∀ a ∈ before ++ [last], a < h.heapCurrent := fun _ => blocks.lt_current
  have walked : lastBlock ((expandHeap h size avail).writeHeader h.heapCurrent size false none)
      walkLimit first = some last := by
    have counted := blocks.length_lt
    rw [length_append] at counted
    have chain := blocks.chain
    rw [starts] at chain
    refine lastBlock_spec (chain.congr fun a member => ?_) (by omega)
    have apart : a ≠ h.heapCurrent := Nat.ne_of_lt (below a member)
    simp [writeHeader, apart, grows.next a (below a member)]
  refine ⟨linkBlock (expandHeap h size avail) h.heapCurrent size last, ?_,
    linkBlock_blocks blocks grows room fits, ⟨by simp, ?_⟩, ?_, ?_⟩
  · have result : add32 h.heapCurrent headerSize = h.heapCurrent + headerSize :=
      add32_of_lt (by omega)
    have link := pointer_of_pos positive
    have returned : pointer (h.heapCurrent + headerSize) = some (h.heapCurrent + headerSize) :=
      pointer_of_pos (by omega)
    simp only [appendBlock, place]
    have kept : ((expandHeap h size avail).writeHeader h.heapCurrent size false none).heapFirst =
        some first := grows.first.trans starts
    simp only [kept, walked, map_some, result, link, returned, linkBlock]
  · simp [linkBlock, writeHeader]
  · simp [linkBlock, writeHeader]
  · intro b member used
    have apart : b ≠ h.heapCurrent := Nat.ne_of_lt (below b member)
    refine ⟨⟨mem_append_left _ member, ?_⟩, ?_⟩
    · simp [linkBlock, writeHeader, apart, grows.isFree b (below b member), used]
    · simp [linkBlock, writeHeader, apart, grows.size b (below b member)]

/-! ## Coalescing -/

theorem absorb_blocks {b : Nat} (blocks : Blocks h (before ++ a :: b :: after)) :
    Blocks (absorb h a b) (before ++ a :: after) := by
  have bMember : b ∈ before ++ a :: b :: after := by simp
  have below := blocks.below
  obtain ⟨lowLaid, follows, highLaid⟩ := laid_split.mp blocks.laid
  obtain ⟨left, next, right⟩ := seg_split.mp blocks.chain
  have bUpper := (blocks.bounds bMember).2
  rw [extent] at follows
  have inBefore := blocks.chain.split_ne.1
  have inAfter : ∀ c ∈ after, c ≠ a := (forall_mem_cons.mp blocks.chain.split_ne.2).2
  have size : add32 (h.size a) (add32 headerSize (h.size b)) =
      h.size a + (headerSize + h.size b) := by
    rw [add32_of_lt (a := headerSize) (by omega), add32_of_lt (by omega)]
  simp only [absorb, size]
  constructor
  case above => exact blocks.above
  case below => exact blocks.below
  case magic =>
    intro c other
    exact blocks.magic c (mem_of_one_more other)
  case chain =>
    refine seg_split.mpr ⟨left.congr fun c earlier => ?_, ?_⟩
    · simp [inBefore c earlier]
    · simp only [update_self]
      exact right.congr fun c later => by simp [inAfter c later]
  case laid =>
    refine laid_split.mpr ⟨lowLaid.congr fun c earlier => ?_, ?_⟩
    · simp [extent, inBefore c earlier]
    · have shorter : a + (headerSize + (h.size a + (headerSize + h.size b))) ≤ b + extent h b := by
        rw [extent]
        omega
      simp only [extent, update_self]
      exact (highLaid.congr fun c later => by simp [extent, inAfter c later]).mono_left shorter

@[simp] theorem coalesceNext_heapFirst : (coalesceNext h header).heapFirst = h.heapFirst := by
  rw [coalesceNext]
  split <;> rfl

theorem coalesceNext_blocks (blocks : Blocks h (before ++ a :: after)) :
    ∃ after', Blocks (coalesceNext h a) (before ++ a :: after') ∧
      (coalesceNext h a).isFree = h.isFree ∧
      (∀ b ≠ a, (coalesceNext h a).size b = h.size b) ∧
      ∀ b ∈ after, h.isFree b = false → b ∈ after' := by
  have next := (seg_split.mp blocks.chain).2.start_eq_head?
  cases after with
  | nil =>
    have same : coalesceNext h a = h := by simp [coalesceNext, next, canAbsorb]
    rw [same]
    exact ⟨[], blocks, rfl, fun _ _ => rfl, fun _ member _ => member⟩
  | cons b bs =>
    have magic := blocks.magic b (by simp)
    by_cases free : h.isFree b
    · have merged : coalesceNext h a = absorb h a b := by
        simp [coalesceNext, next, canAbsorb, magic, free]
      rw [merged]
      refine ⟨bs, absorb_blocks blocks, rfl, fun c other => ?_, fun c member used => ?_⟩
      · simp [absorb, other]
      · exact mem_of_ne_of_mem (ne_of_free_of_used free used) member
    · have same : coalesceNext h a = h := by simp [coalesceNext, next, canAbsorb, free]
      rw [same]
      exact ⟨b :: bs, blocks, rfl, fun _ _ => rfl, fun _ member _ => member⟩

theorem coalescePrev_blocks (blocks : Blocks h (before ++ a :: after)) :
    ∃ as', Blocks (coalescePrev h before.getLast? a) as' ∧
      ∀ b ∈ before ++ a :: after, b ≠ a → h.isFree b = false →
        Kept h (coalescePrev h before.getLast? a) as' b := by
  rcases eq_nil_or_concat before with rfl | ⟨earlier, prev, rfl⟩
  · exact ⟨a :: after, blocks, fun b member _ used => ⟨⟨member, used⟩, rfl⟩⟩
  · have magic := blocks.magic prev (by simp)
    rw [concat_eq_append, append_assoc] at blocks
    simp only [concat_eq_append, List.getLast?_append, List.getLast?_singleton, some_or]
    by_cases free : h.isFree prev
    · have merged : coalescePrev h (some prev) a = absorb h prev a := by
        simp [coalescePrev, canAbsorb, magic, free]
      rw [merged]
      refine ⟨earlier ++ prev :: after, absorb_blocks blocks, fun b member other used => ?_⟩
      have apart := ne_of_free_of_used free used
      refine ⟨⟨?_, used⟩, by simp [absorb, apart]⟩
      simp only [mem_append, mem_cons, not_mem_nil, or_false] at member ⊢
      obtain (sooner | isPrev) | isBlock | later := member
      · exact .inl sooner
      · exact absurd isPrev apart
      · exact absurd isBlock other
      · exact .inr (.inr later)
    · have same : coalescePrev h (some prev) a = h := by
        simp [coalescePrev, canAbsorb, free]
      rw [same]
      refine ⟨_, blocks, fun b member other used => ⟨⟨?_, used⟩, rfl⟩⟩
      simpa using member

/-! ## The calls -/

/-- `kcalloc`'s test rejects exactly the products that do not fit. -/
theorem kcalloc_test :
    (num ≠ 0 ∧ size ≠ 0 ∧ (wordLimit - 1) / size < num) ↔ wordLimit ≤ num * size := by
  have positive : 0 < wordLimit := by decide
  rcases Nat.eq_zero_or_pos size with rfl | nonzero
  · omega
  rw [div_lt_iff_lt_mul nonzero]
  constructor
  · rintro ⟨-, -, large⟩
    omega
  · intro large
    refine ⟨?_, by omega, by omega⟩
    rintro rfl
    omega

variable (blocks : Blocks h as)
include blocks

/-- `kfree` of a block of the list keeps every other block in use. -/
theorem kfree_spec (member : a ∈ as) :
    ∃ h' as', kfree h (some (a + headerSize)) = some h' ∧ Blocks h' as' ∧
      ∀ b ∈ as, b ≠ a → h.isFree b = false → Kept h h' as' b := by
  have header := blocks.header_eq member
  have magic := blocks.magic a member
  obtain ⟨before, after, rfl⟩ := append_of_mem member
  have marked := blocks.setFree (update h.isFree a true)
  obtain ⟨after', merged, flags, sizes, kept⟩ := coalesceNext_blocks marked
  have counted := merged.length_lt
  rw [length_append] at counted
  have chain := merged.chain
  rw [coalesceNext_heapFirst] at chain
  have walked : findPrev (coalesceNext { h with isFree := update h.isFree a true } a)
      a walkLimit none h.heapFirst = some (before.getLast?.or none) :=
    findPrev_spec chain (fun earlier => chain.split_ne.1 a earlier rfl) (by omega)
  obtain ⟨as', final, rest⟩ := coalescePrev_blocks merged
  refine ⟨_, as', ?_, final, fun b other apart used => ?_⟩
  · rw [or_none] at walked
    simp only [kfree, header, magic, ne_eq, not_true_eq_false, if_false, coalesceNext_heapFirst]
    rw [walked, map_some]
  · have stillUsed : update h.isFree a true b = false := by
      rw [update_of_ne apart, used]
    have there : b ∈ before ++ a :: after' := by
      rcases mem_append.mp other with earlier | later
      · exact mem_append_left _ earlier
      · rcases mem_cons.mp later with same | later
        · exact absurd same apart
        · have stays := kept b later stillUsed
          simp [stays]
    obtain ⟨inUse, size⟩ := rest b there apart (by rw [flags]; exact stillUsed)
    exact ⟨inUse, size.trans (sizes b apart)⟩

/-- Some block of the list is free and large enough. -/
def HasFit (h : Heap) (size : Nat) : Prop :=
  ∃ as, Seg h.next h.heapFirst as none ∧ ∃ a ∈ as, h.isFree a ∧ size ≤ h.size a

/-- The heap can be grown by a block of `size` bytes: there is a list to append
to, the rounded sums and the new end are below `2 ^ 32`, and `pmm_alloc_page`
has every page. -/
structure CanGrow (h : Heap) (size avail : Nat) : Prop where
  listed : h.heapFirst ≠ none
  small : size + headerSize + (pageSize - 1) < wordLimit
  pages : needed size / pageSize ≤ avail
  fits : h.heapCurrent + needed size < wordLimit

/-- The request can be rounded up, and there is a block for it or room to grow. -/
def AllocOk (h : Heap) (n avail : Nat) : Prop :=
  n = 0 ∨ (n + (alignment - 1) < wordLimit ∧
    (HasFit h (alignUp n alignment) ∨ CanGrow h (alignUp n alignment) avail))

/-- What a call that allocates `n` bytes does: it keeps every block in use, and
returns NULL or the payload of a large enough block that was not in use. -/
structure Allocates (h : Heap) (as : List Nat) (n : Nat) (h' : Heap) (as' : List Nat)
    (result : Option Nat) : Prop where
  blocks : Blocks h' as'
  kept : ∀ b ∈ as, h.isFree b = false → Kept h h' as' b
  returned : ∀ q, result = some q →
    ∃ a, InUse h' as' a ∧ q = a + headerSize ∧ n ≤ h'.size a ∧ ¬ InUse h as a

/-- A call that returns NULL and does nothing. -/
theorem Allocates.refused : Allocates h as n h as none :=
  ⟨blocks, fun _ member used => ⟨⟨member, used⟩, rfl⟩, by simp⟩

/-- `kmalloc` of an acceptable request allocates. -/
theorem kmalloc_spec (ok : AllocOk h n avail) :
    ∃ h' result as', kmalloc h n avail = some (h', result) ∧ Allocates h as n h' as' result := by
  by_cases zero : n = 0
  · subst zero
    exact ⟨h, none, as, rfl, .refused blocks⟩
  obtain ⟨rounds, room⟩ := ok.resolve_left zero
  have size : n ≤ alignUp n alignment := le_alignUp (by decide) rounds
  rcases search_spec blocks.chain blocks.magic
      blocks.length_lt with ⟨a, member, free, large, found⟩ | ⟨unfit, exhausted⟩
  · -- a block fits
    obtain ⟨as', kept, inUse, fits, others⟩ := carve_blocks blocks member large
    obtain ⟨lower, upper⟩ := blocks.bounds member
    have below := blocks.below
    have returned : pointer (add32 a headerSize) = some (a + headerSize) := by
      rw [add32_of_lt (by omega)]
      exact pointer_of_pos (Nat.add_pos_right a (by decide))
    refine ⟨carve h a (alignUp n alignment), some (a + headerSize), as', ?_, ⟨kept, ?_, ?_⟩⟩
    · rw [kmalloc, if_neg zero, found]
      exact congrArg some (congrArg (Prod.mk _) returned)
    · exact fun b other used => others b other (ne_of_free_of_used free used) used
    · intro q result
      cases result
      refine ⟨a, inUse, rfl, le_trans size fits, ?_⟩
      exact fun unused => ne_of_free_of_used free unused.2 rfl
  · -- none does: the heap grows
    have grows : CanGrow h (alignUp n alignment) avail := by
      refine room.resolve_left ?_
      rintro ⟨bs, chain, a, member, fits⟩
      rw [chain.unique_of_none blocks.chain] at member
      exact unfit a member fits
    obtain ⟨h', appended, listed, inUse, exact, kept⟩ :=
      appendBlock_blocks blocks grows.listed grows.small grows.pages grows.fits
    refine ⟨h', some (h.heapCurrent + headerSize), as ++ [h.heapCurrent], ?_, ⟨listed, kept, ?_⟩⟩
    · rw [kmalloc, if_neg zero, exhausted]
      exact appended
    · intro q result
      cases result
      refine ⟨h.heapCurrent, inUse, rfl, exact ▸ size, ?_⟩
      exact fun unused => (blocks.lt_current unused.1).ne rfl

/-- `kcalloc` allocates, or returns NULL because the product does not fit. -/
theorem kcalloc_spec (ok : num * size < wordLimit → AllocOk h (num * size) avail) :
    ∃ h' result as', kcalloc h num size avail = some (h', result) ∧
      Allocates h as (num * size) h' as' result := by
  by_cases large : wordLimit ≤ num * size
  · refine ⟨h, none, as, ?_, .refused blocks⟩
    rw [kcalloc, if_pos (kcalloc_test.mpr large)]
  have total : num * size % wordLimit = num * size := mod_eq_of_lt (by omega)
  obtain ⟨h', result, as', called, allocates⟩ := kmalloc_spec blocks (ok (by omega))
  rw [kcalloc, if_neg fun test => large (kcalloc_test.mp test), total]
  simp only [called, map_some]
  cases result with
  | none => exact ⟨h', none, as', rfl, allocates⟩
  | some q =>
    obtain ⟨a, inUse, rfl, fits, fresh⟩ := allocates.returned q rfl
    -- the bytes cleared are payload of the new block
    obtain ⟨cleared, same⟩ :=
      allocates.blocks.payload_write inUse.1 fits zeroRange_sameOutside
    refine ⟨_, _, as', rfl, cleared, fun b member used => ?_, ?_⟩
    · obtain ⟨stillUsed, sameSize⟩ := allocates.kept b member used
      obtain ⟨flag, size⟩ := same b stillUsed.1
      exact ⟨⟨stillUsed.1, flag.trans stillUsed.2⟩, size.trans sameSize⟩
    · intro q result
      cases result
      obtain ⟨flag, size⟩ := same a inUse.1
      exact ⟨a, ⟨inUse.1, flag.trans inUse.2⟩, rfl, size ▸ fits, fresh⟩

/-- `krealloc` of a block in use to a size that is not zero returns NULL and
keeps every block, or returns a large enough block and keeps every other one. -/
theorem krealloc_spec (inUse : InUse h as a) (nonzero : n ≠ 0)
    (ok : h.size a < n → AllocOk h n avail) :
    ∃ h' result as', krealloc h (some (a + headerSize)) n avail = some (h', result) ∧
      Blocks h' as' ∧
      (∀ b ∈ as, h.isFree b = false → (result = none ∨ b ≠ a) → Kept h h' as' b) ∧
      ∀ q, result = some q → ∃ c, InUse h' as' c ∧ q = c + headerSize ∧ n ≤ h'.size c := by
  have header := blocks.header_eq inUse.1
  have magic := blocks.magic a inUse.1
  simp only [krealloc, header, magic, nonzero, ne_eq, not_true_eq_false, if_false]
  by_cases fits : n ≤ h.size a
  · rw [if_pos fits]
    refine ⟨h, _, as, rfl, blocks, fun b member used _ => ⟨⟨member, used⟩, rfl⟩, ?_⟩
    intro q result
    cases result
    exact ⟨a, inUse, rfl, fits⟩
  rw [if_neg fits]
  obtain ⟨h', result, as', called, allocates⟩ := kmalloc_spec blocks (ok (by omega))
  rw [called]
  cases result with
  | none =>
    exact ⟨h', none, as', rfl, allocates.blocks,
      fun b member used _ => allocates.kept b member used, by simp⟩
  | some q =>
    obtain ⟨c, newUse, rfl, large, fresh⟩ := allocates.returned q rfl
    obtain ⟨oldUse, oldSize⟩ := allocates.kept a inUse.1 inUse.2
    -- the copy is as long as the old block, and the new block is longer
    have room : h'.size a ≤ h'.size c := by omega
    obtain ⟨copied, same⟩ := allocates.blocks.payload_write newUse.1 room
      (copyRange_sameOutside h' (a + headerSize) (c + headerSize) (h'.size a))
    obtain ⟨h'', as'', freed, final, kept⟩ := kfree_spec copied oldUse.1
    refine ⟨h'', some (c + headerSize), as'', by simp [freed], final, ?_, ?_⟩
    · rintro b member used (absent | apart)
      · exact absurd absent (by simp)
      · obtain ⟨stillUsed, sameSize⟩ := allocates.kept b member used
        obtain ⟨flag, size⟩ := same b stillUsed.1
        obtain ⟨lastUse, lastSize⟩ := kept b stillUsed.1 apart (flag.trans stillUsed.2)
        exact ⟨lastUse, lastSize.trans (size.trans sameSize)⟩
    · intro q result
      cases result
      have apart : c ≠ a := by
        rintro rfl
        exact fresh inUse
      obtain ⟨flag, size⟩ := same c newUse.1
      obtain ⟨lastUse, lastSize⟩ := kept c newUse.1 apart (flag.trans newUse.2)
      exact ⟨c, lastUse, rfl, by rw [lastSize, size]; exact large⟩

end FunsOS.Kheap
