import FunsOS.Foundation.Bitmap
import FunsOS.Mm.Vmm
import Mathlib.Data.List.Find

/-!
# The bitmap of physical pages

`kernel/pmm.c`: a bitmap in 32-bit words with a bit for every page, which is set when the
page is in use, and a counter of the pages in use. Pointers are numbers and NULL is 0. The
loops over words and pages are searches and folds over the numbers they run through.

The addresses of the bitmap and of the kernel image are fixed when the kernel is linked;
they are arguments (`Image`). Of the boot information only `mem_upper` is read. Page numbers
stay below `PMM_MAX_PAGES`, so that the multiplications with the page size do not wrap.
-/

set_option autoImplicit false

namespace FunsOS.Pmm

open Foundation Bitmap Function
open Mm (pageSize)

def pmmMaxPages : Nat := 1048576

/-- The static variables. `BITS_PER_UINT32` is 32. -/
structure Pages where
  bitmap : Bitmap 32
  totalPages : Nat
  usedPages : Nat
  bitmapSize : Nat

/-- Where the linker puts the bitmap and the kernel. -/
structure Image where
  bitmap : Nat
  kernelStart : Nat
  kernelEnd : Nat

/-- The page numbers of a loop. -/
def pagesBetween (first last : Nat) : List Nat := List.range' first (last - first)

theorem mem_pagesBetween {first last p : Nat} : p ∈ pagesBetween first last ↔ first ≤ p ∧ p < last := by
  unfold pagesBetween
  rw [List.mem_range'_1]
  omega

/-! ## Single pages -/

variable (s : Pages)

/-- `bitmap_set` and `used_pages++`. -/
def Pages.take (p : Nat) : Pages :=
  { s with bitmap := s.bitmap.set p, usedPages := add32 s.usedPages 1 }

/-- A page is taken if it is free. -/
def Pages.reserve (p : Nat) : Pages := if s.bitmap.test p then s else s.take p

/-- A page that is in use is given back: `bitmap_clear` and `used_pages--`. -/
def Pages.release (p : Nat) : Pages :=
  if s.bitmap.test p then
    { s with bitmap := s.bitmap.clear p, usedPages := sub32 s.usedPages 1 }
  else s

/-! ## The start -/

def maxAddr : Option Nat → Nat
  | none => 0xFFFFFFFF
  | some memUpper =>
    let maxAddr := memUpper * 1024 % wordLimit
    if maxAddr = 0 then 0xFFFFFFFF else maxAddr

/-- `total_pages` after `init_pmm`. -/
def totalPagesOf (info : Option Nat) : Nat :=
  let totalPages := maxAddr info / pageSize
  if pmmMaxPages < totalPages then pmmMaxPages else totalPages

/-- `bitmap_size` after `init_pmm`. -/
def bitmapSizeOf (totalPages : Nat) : Nat :=
  let bitmapSize := (totalPages + 32 - 1) / 32
  if pmmMaxPages / 32 < bitmapSize then pmmMaxPages / 32 else bitmapSize

/-- The number of the page after the one that holds the byte before an address. -/
def endPage (address : Nat) : Nat := sub32 (add32 address pageSize) 1 / pageSize

/-- The pages of the bitmap, `bitmap_start_page` and `bitmap_end_page`. -/
def Image.bitmapPages (image : Image) (totalPages : Nat) : List Nat :=
  let bitmapBytes := bitmapSizeOf totalPages * 4
  pagesBetween (image.bitmap / pageSize) (min (endPage (add32 image.bitmap bitmapBytes)) totalPages)

def Image.kernelPages (image : Image) (totalPages : Nat) : List Nat :=
  let kernelEnd := if image.kernelEnd < image.kernelStart then image.kernelStart else image.kernelEnd
  pagesBetween (image.kernelStart / pageSize) (min (endPage kernelEnd) totalPages)

/-- The first page that `init_pmm` frees, at 1 MB. -/
def startPage : Nat := 0x100000 / pageSize

def allUsed (totalPages : Nat) : Pages where
  bitmap := (List.range (bitmapSizeOf totalPages)).foldl
    (fun bitmap i => bitmap.setWord i (BitVec.allOnes 32)) ⟨fun _ => 0⟩
  totalPages
  usedPages := totalPages
  bitmapSize := bitmapSizeOf totalPages

def initPmm (image : Image) (info : Option Nat) : Pages :=
  let totalPages := totalPagesOf info
  let s := (pagesBetween startPage totalPages).foldl Pages.release (allUsed totalPages)
  let s := s.take 0
  let s := (image.bitmapPages totalPages).foldl Pages.reserve s
  (image.kernelPages totalPages).foldl Pages.reserve s

/-! ## Allocation -/

/-- The loop over the bits of a word: `some none` is the return of NULL at the end of the
memory. -/
def Pages.scanWord (i : Nat) : Option (Option Nat) :=
  (List.range 32).findSome? fun j =>
    let index := i * 32 + j
    if s.totalPages ≤ index then some none
    else if s.bitmap.words i &&& 1#32 <<< j = 0#32 then some (some index)
    else none

/-- The loop over the words. -/
def Pages.scanWords : Option (Option Nat) :=
  (List.range s.bitmapSize).findSome? fun i =>
    if s.bitmap.words i = BitVec.allOnes 32 then none else s.scanWord i

def pmmAllocPage : Pages × Nat :=
  match s.scanWords with
  | some (some index) => (s.take index, index * pageSize)
  | _ => (s, 0)

/-- The loop of `pmm_alloc_pages`, with the number of pages that are left. -/
def scanRun (free : Nat → Bool) (count : Nat) : Nat → Nat → Nat → Nat → Option Nat
  | 0, _, _, _ => none
  | left + 1, i, consecutive, startIndex =>
    if free i then
      let startIndex := if consecutive = 0 then i else startIndex
      if consecutive + 1 = count then some startIndex
      else scanRun free count left (i + 1) (consecutive + 1) startIndex
    else scanRun free count left (i + 1) 0 startIndex

def pmmAllocPages (count : Nat) : Pages × Nat :=
  if count = 0 then (s, 0)
  else if count = 1 then pmmAllocPage s
  else
    match scanRun (fun i => !s.bitmap.test i) count s.totalPages 0 0 0 with
    | none => (s, 0)
    | some startIndex =>
      ((pagesBetween startIndex (startIndex + count)).foldl Pages.take s, startIndex * pageSize)

/-! ## Freeing -/

def pmmFreePage (phys : Nat) : Pages :=
  if phys % pageSize ≠ 0 then s
  else
    let index := phys / pageSize
    if s.totalPages ≤ index then s else s.release index

/-- The loop of `pmm_free_pages`. -/
def freeFrom : Nat → Nat → Pages → Pages
  | 0, _, s => s
  | left + 1, index, s =>
    if s.totalPages ≤ index then s else freeFrom left (add32 index 1) (s.release index)

def pmmFreePages (phys count : Nat) : Pages :=
  if phys % pageSize ≠ 0 then s else freeFrom count (phys / pageSize) s

def pmmGetFreePages : Nat := sub32 s.totalPages s.usedPages

/-!
## The two searches of the page allocator

`pmm_alloc_page` looks at the bitmap word by word, `pmm_alloc_pages` page by page with a
counter of consecutive free pages that is reset at a page in use. Both find the lowest
place: the first page that is free (`pmmAllocPage_of_free`), and the first run of free pages
(`scanRun_spec`).
-/

open List Nat

/-! ## Runs of free pages -/

/-- Pages from `start` on are free, and below the limit. -/
def IsRun (free : Nat → Bool) (count limit start : Nat) : Prop :=
  start + count ≤ limit ∧ ∀ p, start ≤ p → p < start + count → free p

/-- What the counters of the search say before page `i`: the pages behind it are free, and
no run starts before those. -/
structure Scanned (free : Nat → Bool) (count limit i consecutive startIndex : Nat) : Prop where
  short : consecutive < count
  counted : consecutive ≤ i
  start : consecutive ≠ 0 → startIndex = i - consecutive
  behind : ∀ p, i - consecutive ≤ p → p < i → free p
  before : ∀ start < i - consecutive, ¬ IsRun free count limit start

section ScanRun

variable {free : Nat → Bool} {count limit i consecutive startIndex : Nat}

section

variable (scanned : Scanned free count limit i consecutive startIndex)
include scanned

/-- The search goes on behind a free page. -/
theorem Scanned.next_free (isFree : free i) (short : consecutive + 1 ≠ count) :
    Scanned free count limit (i + 1) (consecutive + 1) (if consecutive = 0 then i else startIndex) where
  short := by have := scanned.short; omega
  counted := succ_le_succ scanned.counted
  start _ := by
    split
    case isTrue none => omega
    case isFalse some => rw [scanned.start some]; omega
  behind p low high := by
    rcases Nat.lt_succ_iff_lt_or_eq.mp high with earlier | rfl
    · exact scanned.behind p (by omega) earlier
    · exact isFree
  before start early := scanned.before start (by omega)

/-- A page in use ends every run that starts at or before it. -/
theorem Scanned.next_used
    (isUsed : free i = false) : Scanned free count limit (i + 1) 0 startIndex where
  short := zero_lt_of_lt scanned.short
  counted := zero_le _
  start nonzero := absurd rfl nonzero
  behind p low high := by omega
  before start early run := by
    by_cases earlier : start < i - consecutive
    · exact scanned.before start earlier run
    · have := scanned.short
      have isFree := run.2 i (by omega) (by omega)
      rw [isUsed] at isFree
      cases isFree

theorem Scanned.found (isFree : free i) (reached : consecutive + 1 = count) (below : i < limit) :
    let start := if consecutive = 0 then i else startIndex
    IsRun free count limit start ∧ ∀ earlier < start, ¬ IsRun free count limit earlier := by
  have isStart : (if consecutive = 0 then i else startIndex) = i - consecutive := by
    split
    case isTrue none => omega
    case isFalse some => exact scanned.start some
  have := scanned.counted
  rw [isStart]
  refine ⟨⟨by omega, fun p low high => ?_⟩, scanned.before⟩
  rcases lt_or_ge p i with earlier | last
  · exact scanned.behind p low earlier
  · obtain rfl : p = i := by omega
    exact isFree

/-- **The search finds the lowest run**, if there is one. -/
theorem scanRun_spec {left : Nat} (ends : i + left = limit) :
    (∀ start, scanRun free count left i consecutive startIndex = some start →
      IsRun free count limit start ∧ ∀ earlier < start, ¬ IsRun free count limit earlier) ∧
    (scanRun free count left i consecutive startIndex = none →
      ∀ start, ¬ IsRun free count limit start) := by
  induction left generalizing i consecutive startIndex with
  | zero =>
    refine ⟨nofun, fun _ start run => ?_⟩
    have := scanned.short
    have := run.1
    exact scanned.before start (by omega) run
  | succ left ih =>
    rw [scanRun]
    split
    case isTrue isFree =>
      dsimp only
      split
      case isTrue reached =>
        refine ⟨fun start isStart => ?_, nofun⟩
        obtain rfl := Option.some.inj isStart
        exact scanned.found isFree reached (by omega)
      case isFalse short => exact ih (scanned.next_free isFree short) (by omega)
    case isFalse isUsed => exact ih (scanned.next_used (by simpa using isUsed)) (by omega)

end

/-- The search from the first page. -/
theorem scanRun_from_zero (positive : 0 < count) :
    (∀ start, scanRun free count limit 0 0 0 = some start →
      IsRun free count limit start ∧ ∀ earlier < start, ¬ IsRun free count limit earlier) ∧
    (scanRun free count limit 0 0 0 = none → ∀ start, ¬ IsRun free count limit start) := by
  refine scanRun_spec ⟨positive, le_refl 0, fun nonzero => absurd rfl nonzero, ?_, ?_⟩ (zero_add _)
  · intro p low high
    omega
  · intro start early
    omega

end ScanRun

/-! ## The first free page -/

/-- A search through the first numbers stops at the first one with an answer. -/
theorem findSome?_range_eq_some {α : Type} {f : Nat → Option α} {n : Nat} {answer : α}
    (found : (range n).findSome? f = some answer) :
    ∃ i < n, f i = some answer ∧ ∀ j < i, f j = none := by
  induction n with
  | zero => cases found
  | succ n ih =>
    rw [range_succ, findSome?_append] at found
    cases earlier : (range n).findSome? f with
    | some answer' =>
      rw [earlier] at found
      obtain ⟨i, below, rest⟩ := ih (earlier.trans found)
      exact ⟨i, lt_succ_of_lt below, rest⟩
    | none =>
      rw [earlier] at found
      rw [findSome?_eq_none_iff] at earlier
      refine ⟨n, lt_succ_self n, ?_, fun j below => earlier j (mem_range.mpr below)⟩
      simpa using found

def Pages.firstFree (s : Pages) : Option Nat :=
  (range s.totalPages).find? fun p => !s.bitmap.test p

section FirstFree

variable {s : Pages} {i p : Nat}

theorem test_word {j : Nat} (below : j < 32) :
    s.bitmap.test (i * 32 + j) = (s.bitmap.words i).getLsbD j := by
  have word : (i * 32 + j) / 32 = i := by omega
  have place : (i * 32 + j) % 32 = j := by omega
  rw [test_eq_getLsbD (by decide), word, place]

/-- The pages of the words before `i` are in use. -/
def Pages.FullBefore (s : Pages) (i : Nat) : Prop := ∀ p < i * 32, s.bitmap.test p

theorem firstFree_eq_some (below : p < s.totalPages) (isFree : s.bitmap.test p = false)
    (before : ∀ q < p, s.bitmap.test q) : s.firstFree = some p := by
  refine find?_range_eq_some.mpr ⟨by simp [isFree], mem_range.mpr below, fun q earlier => ?_⟩
  simp [before q earlier]

theorem firstFree_eq_none (full : ∀ p < s.totalPages, s.bitmap.test p) : s.firstFree = none :=
  List.find?_range_eq_none.mpr fun p below => by simp [full p below]

/-- A word with a clear bit ends the search, at the first free page if it is in the memory. -/
theorem scanWord_spec (notFull : s.bitmap.words i ≠ BitVec.allOnes 32) (before : s.FullBefore i) :
    ∃ answer, s.scanWord i = some answer ∧ s.firstFree = answer := by
  obtain ⟨clear, clear_lt, isClear⟩ := exists_clear_of_ne_allOnes notFull
  cases scanned : s.scanWord i with
  | none =>
    unfold Pages.scanWord at scanned
    rw [List.findSome?_eq_none_iff] at scanned
    have passed := scanned clear (mem_range.mpr clear_lt)
    dsimp only at passed
    rw [if_pos ((and_mask_eq_zero clear_lt).mpr isClear)] at passed
    split at passed
    case isTrue => cases passed
    case isFalse => cases passed
  | some answer =>
    refine ⟨answer, rfl, ?_⟩
    obtain ⟨j, j_lt, answered, passed⟩ := findSome?_range_eq_some scanned
    dsimp only at answered passed
    -- the bits that were passed are set, and their pages in the memory
    have earlier : ∀ p < i * 32 + j, s.bitmap.test p := by
      intro p low
      by_cases inWord : i * 32 ≤ p
      · obtain ⟨k, rfl⟩ := Nat.exists_eq_add_of_le inWord
        have skipped := passed k (by omega)
        rw [test_word (by omega)]
        by_contra isClear'
        rw [if_pos ((and_mask_eq_zero (by omega)).mpr (by simpa using isClear'))] at skipped
        split at skipped
        case isTrue => cases skipped
        case isFalse => cases skipped
      · exact before p (by omega)
    split at answered
    case isTrue outside =>
      obtain rfl := Option.some.inj answered
      exact firstFree_eq_none fun p below => earlier p (by omega)
    case isFalse inside =>
      split at answered
      case isTrue masked =>
        obtain rfl := Option.some.inj answered
        refine firstFree_eq_some (by omega) ?_ earlier
        rw [test_word j_lt]
        exact (and_mask_eq_zero j_lt).mp masked
      case isFalse => cases answered

theorem fullBefore_of_passed
    (passed : ∀ k < i, (if s.bitmap.words k = BitVec.allOnes 32 then none else s.scanWord k) = none) :
    s.FullBefore i := by
  induction i with
  | zero => exact fun p below => by omega
  | succ i ih =>
    have before := ih fun k below => passed k (lt_succ_of_lt below)
    have here := passed i (lt_succ_self i)
    split at here
    case isTrue full =>
      intro p below
      by_cases inWord : i * 32 ≤ p
      · refine test_of_allOnes (by decide) ?_
        have word : p / 32 = i := by omega
        rw [word, full]
      · exact before p (by omega)
    case isFalse notFull =>
      obtain ⟨answer, scanned, -⟩ := scanWord_spec notFull before
      rw [scanned] at here
      cases here

section

variable (covers : s.totalPages ≤ s.bitmapSize * 32)
include covers

/-- **The search word by word finds the lowest free page.** -/
theorem scanWords_eq_firstFree : s.scanWords.join = s.firstFree := by
  cases scanned : s.scanWords with
  | none =>
    unfold Pages.scanWords at scanned
    rw [List.findSome?_eq_none_iff] at scanned
    have full := fullBefore_of_passed fun k below => scanned k (mem_range.mpr below)
    exact (firstFree_eq_none fun p below => full p (by omega)).symm
  | some answer =>
    obtain ⟨i, -, answered, passed⟩ := findSome?_range_eq_some scanned
    split at answered
    case isTrue => cases answered
    case isFalse notFull =>
      obtain ⟨answer', scanned', found⟩ := scanWord_spec notFull (fullBefore_of_passed passed)
      obtain rfl := Option.some.inj (scanned'.symm.trans answered)
      exact found.symm

theorem pmmAllocPage_of_free
    (found : s.firstFree = some p) : pmmAllocPage s = (s.take p, p * pageSize) := by
  have scanned := scanWords_eq_firstFree covers
  rw [found] at scanned
  have isSome : s.scanWords = some (some p) := by
    cases answer : s.scanWords with
    | none => rw [answer] at scanned; cases scanned
    | some answer' => rw [answer] at scanned; exact congrArg some scanned
  unfold pmmAllocPage
  rw [isSome]

theorem pmmAllocPage_of_full (full : s.firstFree = none) : pmmAllocPage s = (s, 0) := by
  have scanned := scanWords_eq_firstFree covers
  rw [full] at scanned
  unfold pmmAllocPage
  split
  case h_1 index answer => rw [answer] at scanned; cases scanned
  case h_2 => rfl

end

end FirstFree

end FunsOS.Pmm
