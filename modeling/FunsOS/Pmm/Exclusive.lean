import FunsOS.Pmm.Accounting

/-!
# Pages have one holder

The callers of the page allocator, with the pages that they hold: a call gives a caller the
pages of the address it returns, and a caller gives back pages that are held. In every such
run no page is held twice, the pages that `init_pmm` set aside are never handed out, and
`pmm_alloc_pages` hands out the lowest run that is free (`frames_exclusive`).

The invariant (`Exclusive`) says that the pages that are held and those that were set aside
are in use and are different pages. An allocation adds pages that are not in use, so it
cannot touch either.
-/

set_option autoImplicit false

namespace FunsOS.Pmm

open Foundation Bool Pages
open List hiding count
open Mm (pageSize)

/-! ## The callers -/

/-- The allocator, and the pages of every allocation that are held. -/
structure Holders where
  pages : Pages
  held : List (List Nat)

/-- The calls of the callers; what is given back is named by its first page. -/
inductive Call where
  | allocPage
  | allocPages (count : Nat)
  | freePage (page : Nat)
  | freePages (page count : Nat)
  deriving DecidableEq, Repr

/-- A call that returned NULL gives nothing. -/
def grant (address count : Nat) (held : List (List Nat)) : List (List Nat) :=
  if address = 0 then held
  else pagesBetween (address / pageSize) (address / pageSize + count) :: held

/-- The allocations without the pages from `page` on. -/
def giveBack (page count : Nat) (held : List (List Nat)) : List (List Nat) :=
  held.map (filter fun p => !(decide (page ≤ p) && decide (p < page + count)))

def Holders.step (h : Holders) : Call → Holders
  | .allocPage =>
    let result := pmmAllocPage h.pages
    ⟨result.1, grant result.2 1 h.held⟩
  | .allocPages count =>
    let result := pmmAllocPages h.pages count
    ⟨result.1, grant result.2 count h.held⟩
  | .freePage page => ⟨pmmFreePage h.pages (page * pageSize), giveBack page 1 h.held⟩
  | .freePages page count =>
    ⟨pmmFreePages h.pages (page * pageSize) count, giveBack page count h.held⟩

/-- What is given back is held. -/
def Holders.Holds (h : Holders) : Call → Prop
  | .allocPage | .allocPages _ => True
  | .freePage page => page ∈ h.held.flatten
  | .freePages page count => ∀ p ∈ pagesBetween page (page + count), p ∈ h.held.flatten

instance (h : Holders) : ∀ call, Decidable (h.Holds call)
  | .allocPage | .allocPages _ => inferInstanceAs (Decidable True)
  | .freePage page => inferInstanceAs (Decidable (page ∈ h.held.flatten))
  | .freePages page count =>
    inferInstanceAs (Decidable (∀ p ∈ pagesBetween page (page + count), _))

/-- The page is below 1 MB, or set aside for the bitmap or the kernel. -/
def Image.Reserved (image : Image) (totalPages p : Nat) : Prop :=
  p < startPage ∨ p ∈ image.bitmapPages totalPages ∨ p ∈ image.kernelPages totalPages

/-- **The invariant**: pages that are held are in use, have one holder, and are none of
those set aside, which are in use too. -/
structure Exclusive (image : Image) (totalPages : Nat) (h : Holders) : Prop where
  total : h.pages.totalPages = totalPages
  covers : h.pages.totalPages ≤ h.pages.bitmapSize * 32
  size : totalPages ≤ pmmMaxPages
  inUse : ∀ p ∈ h.held.flatten,
    p < totalPages ∧ h.pages.bitmap.test p ∧ ¬ image.Reserved totalPages p
  distinct : h.held.flatten.Nodup
  reserved : ∀ p < totalPages, image.Reserved totalPages p → h.pages.bitmap.test p

section Exclusive

variable {image : Image} {totalPages count p : Nat} {h : Holders} {s : Pages}

/-! ## Allocation -/

theorem test_foldl_mark {mark : Pages → Nat → Pages}
    (marks : ∀ s p q, (mark s p).bitmap.test q = (decide (q = p) || s.bitmap.test q))
    (pages : List Nat) (s : Pages) (q : Nat) :
    (pages.foldl mark s).bitmap.test q = (decide (q ∈ pages) || s.bitmap.test q) := by
  induction pages generalizing s with
  | nil => simp
  | cons p pages ih =>
    rw [foldl_cons, ih, marks]
    simp only [mem_cons, decide_or]
    rw [Bool.or_assoc, Bool.or_left_comm]

theorem grant_of_pos (nonzero : p * pageSize ≠ 0) {held : List (List Nat)} :
    grant (p * pageSize) count held = pagesBetween p (p + count) :: held := by
  unfold Pmm.grant
  rw [if_neg nonzero, Nat.mul_div_cancel p (by decide)]

theorem test_release {q : Nat} :
    (s.release p).bitmap.test q = (!decide (q = p) && s.bitmap.test q) := by
  by_cases here : q = p
  · subst here
    unfold release
    split
    case isTrue => simp [Bitmap.test_clear]
    case isFalse isFree => simpa using isFree
  · simp [test_release_of_ne here, here]

@[simp] theorem release_bitmapSize : (s.release p).bitmapSize = s.bitmapSize := by
  unfold release
  split <;> rfl

/-- The loop of `pmm_free_pages` over pages of the memory. -/
theorem freeFrom_spec {left index : Nat} (size : s.totalPages ≤ pmmMaxPages)
    (inside : ∀ p, index ≤ p → p < index + left → p < s.totalPages) :
    (freeFrom left index s).totalPages = s.totalPages ∧
      (freeFrom left index s).bitmapSize = s.bitmapSize ∧
      ∀ q, (freeFrom left index s).bitmap.test q =
        (!(decide (index ≤ q) && decide (q < index + left)) && s.bitmap.test q) := by
  induction left generalizing index s with
  | zero =>
    refine ⟨rfl, rfl, fun q => ?_⟩
    have empty : ¬ (index ≤ q ∧ q < index + 0) := by omega
    rw [← decide_and, decide_eq_false empty]
    rfl
  | succ left ih =>
    have below := inside index (le_refl _) (by omega)
    have fits : index + 1 < wordLimit := by
      unfold pmmMaxPages at size
      unfold wordLimit
      omega
    unfold freeFrom
    rw [if_neg (not_le.mpr below), add32_of_lt fits]
    obtain ⟨total, words, test⟩ := @ih (s.release index) (index + 1)
      (by rwa [release_totalPages]) (fun p low high => by
        rw [release_totalPages]
        exact inside p (by omega) (by omega))
    refine ⟨total.trans (release_totalPages ..), words.trans (release_bitmapSize ..), fun q => ?_⟩
    rw [test q, test_release, Bool.eq_iff_iff]
    simp only [and_eq_true, not_eq_true', and_eq_false_iff, decide_eq_false_iff_not]
    constructor
    · rintro ⟨outside, other, isUsed⟩
      exact ⟨by omega, isUsed⟩
    · rintro ⟨outside, isUsed⟩
      exact ⟨by omega, by omega, isUsed⟩

variable (exclusive : Exclusive image totalPages h) {page : Nat}
include exclusive

theorem Exclusive.grant {granted : List Nat} (nodup : granted.Nodup)
    (below : ∀ p ∈ granted, p < totalPages) (free : ∀ p ∈ granted, h.pages.bitmap.test p = false) :
    Exclusive image totalPages ⟨granted.foldl take h.pages, granted :: h.held⟩ where
  total := (foldl_totalPages take_totalPages).trans exclusive.total
  covers := by
    have size : (granted.foldl take h.pages).bitmapSize = h.pages.bitmapSize :=
      foldl_invariant (P := fun s : Pages => s.bitmapSize = h.pages.bitmapSize) (f := take)
        (fun _ _ same => same) rfl granted
    rw [foldl_totalPages take_totalPages, size]
    exact exclusive.covers
  size := exclusive.size
  inUse p member := by
    rw [flatten_cons, mem_append] at member
    rw [test_foldl_mark test_take]
    rcases member with new | old
    · refine ⟨below p new, by simp [new], fun isReserved => ?_⟩
      have isUsed := exclusive.reserved p (below p new) isReserved
      rw [free p new] at isUsed
      cases isUsed
    · obtain ⟨inside, isUsed, apart⟩ := exclusive.inUse p old
      exact ⟨inside, by simp [isUsed], apart⟩
  distinct := by
    rw [flatten_cons, nodup_append']
    refine ⟨nodup, exclusive.distinct, fun p new old => ?_⟩
    have isUsed := (exclusive.inUse p old).2.1
    rw [free p new] at isUsed
    cases isUsed
  reserved p inside isReserved := by
    rw [test_foldl_mark test_take, exclusive.reserved p inside isReserved, Bool.or_true]

/-- Page 0 is set aside, so that no call returns it for NULL. -/
theorem Exclusive.pos_of_free (below : p < totalPages) (free : h.pages.bitmap.test p = false) :
    p * pageSize ≠ 0 := by
  intro zero
  obtain rfl : p = 0 := by simpa [pageSize] using zero
  have isUsed := exclusive.reserved 0 below (.inl (by decide))
  rw [free] at isUsed
  cases isUsed

theorem Exclusive.allocPage : Exclusive image totalPages (h.step .allocPage) := by
  change Exclusive image totalPages ⟨(pmmAllocPage h.pages).1, Pmm.grant (pmmAllocPage h.pages).2 1 h.held⟩
  cases found : h.pages.firstFree with
  | none =>
    rw [pmmAllocPage_of_full exclusive.covers found]
    exact exclusive
  | some p =>
    obtain ⟨isFree, below, -⟩ := find?_range_eq_some.mp found
    have free : h.pages.bitmap.test p = false := by simpa using isFree
    have inside : p < totalPages := exclusive.total ▸ mem_range.mp below
    rw [pmmAllocPage_of_free exclusive.covers found]
    rw [grant_of_pos (exclusive.pos_of_free inside free)]
    have only : ∀ q ∈ pagesBetween p (p + 1), q = p := fun q member => by
      have := mem_pagesBetween.mp member
      omega
    have granted := exclusive.grant nodup_range'
      (fun q member => only q member ▸ inside) fun q member => only q member ▸ free
    unfold pagesBetween at granted ⊢
    simpa using granted

theorem Exclusive.run_pos {start : Nat} (positive : 0 < count)
    (run : IsRun (fun p => !h.pages.bitmap.test p) count h.pages.totalPages start) :
    start * pageSize ≠ 0 := by
  have := exclusive.total
  have := run.1
  exact exclusive.pos_of_free (by omega) (by simpa using run.2 start (le_refl _) (by omega))

theorem Exclusive.allocPages : Exclusive image totalPages (h.step (.allocPages count)) := by
  change Exclusive image totalPages
    ⟨(pmmAllocPages h.pages count).1, Pmm.grant (pmmAllocPages h.pages count).2 count h.held⟩
  unfold pmmAllocPages
  split
  case isTrue => exact exclusive
  case isFalse nonzero =>
    split
    case isTrue one =>
      subst one
      exact exclusive.allocPage
    case isFalse =>
      split
      case h_1 => exact exclusive
      case h_2 start found =>
        have positive := pos_of_ne_zero nonzero
        obtain ⟨run, -⟩ := (scanRun_from_zero positive).1 start found
        rw [grant_of_pos (exclusive.run_pos positive run)]
        refine exclusive.grant nodup_range' (fun p member => ?_) fun p member => ?_
        · have := mem_pagesBetween.mp member
          have := exclusive.total
          have := run.1
          omega
        · have here := mem_pagesBetween.mp member
          simpa using run.2 p here.1 here.2

/-! ## Giving back -/

theorem Exclusive.drop (total : s.totalPages = h.pages.totalPages)
    (size : s.bitmapSize = h.pages.bitmapSize) (test : ∀ q, s.bitmap.test q =
      (!(decide (page ≤ q) && decide (q < page + count)) && h.pages.bitmap.test q))
    (held : ∀ p ∈ pagesBetween page (page + count), p ∈ h.held.flatten) :
    Exclusive image totalPages ⟨s, giveBack page count h.held⟩ where
  total := total.trans exclusive.total
  covers := by
    rw [total, size]
    exact exclusive.covers
  size := exclusive.size
  inUse p member := by
    unfold giveBack at member
    rw [← filter_flatten, mem_filter] at member
    obtain ⟨inside, isUsed, apart⟩ := exclusive.inUse p member.1
    refine ⟨inside, ?_, apart⟩
    rw [test p, member.2, isUsed, Bool.true_and]
  distinct := by
    unfold giveBack
    rw [← filter_flatten]
    exact exclusive.distinct.filter _
  reserved p inside isReserved := by
    have outside : ¬ (page ≤ p ∧ p < page + count) := fun here =>
      (exclusive.inUse p (held p (mem_pagesBetween.mpr here))).2.2 isReserved
    rw [test p, exclusive.reserved p inside isReserved, ← decide_and, decide_eq_false outside]
    rfl

theorem Exclusive.freePages (held : ∀ p ∈ pagesBetween page (page + count), p ∈ h.held.flatten) :
    Exclusive image totalPages (h.step (.freePages page count)) := by
  have inside : ∀ p, page ≤ p → p < page + count → p < h.pages.totalPages := fun p low high => by
    rw [exclusive.total]
    exact (exclusive.inUse p (held p (mem_pagesBetween.mpr ⟨low, high⟩))).1
  obtain ⟨total, words, test⟩ := freeFrom_spec (exclusive.total ▸ exclusive.size) inside
  have freed : pmmFreePages h.pages (page * pageSize) count = freeFrom count page h.pages := by
    unfold pmmFreePages
    rw [if_neg (by simp), Nat.mul_div_cancel page (by decide)]
  change Exclusive image totalPages
    ⟨pmmFreePages h.pages (page * pageSize) count, giveBack page count h.held⟩
  rw [freed]
  exact exclusive.drop total words test held

theorem Exclusive.step {call : Call} (holds : h.Holds call) :
    Exclusive image totalPages (h.step call) := by
  cases call with
  | allocPage => exact exclusive.allocPage
  | allocPages count => exact exclusive.allocPages
  | freePage page =>
    have single : ∀ p ∈ pagesBetween page (page + 1), p ∈ h.held.flatten := by
      intro p member
      have := mem_pagesBetween.mp member
      obtain rfl : p = page := by omega
      exact holds
    exact exclusive.freePages single
  | freePages page count => exact exclusive.freePages holds

end Exclusive

/-! ## The start -/

theorem test_reserve (s : Pages) (p q : Nat) :
    (s.reserve p).bitmap.test q = (decide (q = p) || s.bitmap.test q) := by
  unfold reserve
  split
  case isTrue isUsed =>
    by_cases here : q = p
    · simp [here, isUsed]
    · simp [here]
  case isFalse => exact test_take s p q

/-- Nothing is held yet. -/
def Holders.start (image : Image) (info : Option Nat) : Holders := ⟨initPmm image info, []⟩

theorem Exclusive.start {image : Image} {info : Option Nat} :
    Exclusive image (totalPagesOf info) (Holders.start image info) where
  total := initPmm_totalPages
  covers := Ahead.initPmm.covers
  size := totalPagesOf_le info
  inUse p member := by cases member
  distinct := nodup_nil
  reserved p inside isReserved := by
    change (initPmm image info).bitmap.test p
    rw [initPmm_eq, test_foldl_mark test_reserve, test_foldl_mark test_reserve, test_take]
    rcases isReserved with low | bitmap | kernel
    · simp [test_freed low inside]
    · simp [bitmap]
    · simp [kernel]

/-! ## Every run -/

/-- The pages from `start` on are free. -/
def Pages.Run (s : Pages) (count start : Nat) : Prop :=
  IsRun (fun p => !s.bitmap.test p) count s.totalPages start

/-- `pmm_alloc_pages` returns the lowest run of free pages; it returns NULL exactly when
there is none, and then changes nothing. -/
structure FirstFit (s : Pages) (count : Nat) : Prop where
  lowest : ∀ start, s.Run count start → (∀ earlier < start, ¬ s.Run count earlier) →
    (pmmAllocPages s count).2 = start * pageSize
  null : (pmmAllocPages s count).2 = 0 ↔ ∀ start, ¬ s.Run count start
  unchanged : (pmmAllocPages s count).2 = 0 → (pmmAllocPages s count).1 = s

theorem Exclusive.firstFit {image : Image} {totalPages count : Nat} {h : Holders}
    (exclusive : Exclusive image totalPages h) (several : 2 ≤ count) : FirstFit h.pages count := by
  have positive : 0 < count := by omega
  obtain ⟨found, missed⟩ :=
    scanRun_from_zero positive
  cases result : scanRun (fun i => !h.pages.bitmap.test i) count h.pages.totalPages 0 0 0 with
  | none =>
    have noRun : ∀ start, ¬ h.pages.Run count start := missed result
    have allocates : pmmAllocPages h.pages count = (h.pages, 0) := by
      rw [pmmAllocPages, if_neg (by omega), if_neg (by omega), result]
    constructor
    · exact fun start run => absurd run (noRun start)
    · rw [allocates]
      exact iff_of_true rfl noRun
    · rw [allocates]
      exact fun _ => rfl
  | some start =>
    obtain ⟨run, first⟩ := found start result
    have nonzero := exclusive.run_pos positive run
    have allocates : pmmAllocPages h.pages count =
        ((pagesBetween start (start + count)).foldl take h.pages, start * pageSize) := by
      rw [pmmAllocPages, if_neg (by omega), if_neg (by omega), result]
    constructor
    · intro other isRun isFirst
      rw [allocates]
      -- two lowest runs are the same
      rcases lt_trichotomy start other with before | rfl | behind
      · exact absurd run (isFirst start before)
      · rfl
      · exact absurd isRun (first other behind)
    · rw [allocates]
      exact iff_of_false nonzero fun noRun => noRun start run
    · rw [allocates]
      exact fun zero => absurd zero nonzero

/-- **Pages have one holder.** In every run in which only pages that are held are given
back, allocations that are held do not share a page, none contains a page below 1 MB or one
of the bitmap or the kernel, and `pmm_alloc_pages` is first fit. -/
theorem frames_exclusive (image : Image) (info : Option Nat) (calls : List Call)
    (frees : Meets Holders.step Holders.Holds (Holders.start image info) calls) :
    let h := calls.foldl Holders.step (Holders.start image info)
    h.held.Pairwise List.Disjoint ∧
      (∀ pages ∈ h.held, ∀ p ∈ pages, ¬ image.Reserved h.pages.totalPages p) ∧
      ∀ count, 2 ≤ count → FirstFit h.pages count := by
  have exclusive : Exclusive image (totalPagesOf info)
      (calls.foldl Holders.step (Holders.start image info)) :=
    frees.invariant (fun _ _ holds condition => Exclusive.step holds condition) Exclusive.start
  refine ⟨(nodup_flatten.mp exclusive.distinct).2, fun pages member p inPages => ?_,
    fun count several => exclusive.firstFit several⟩
  rw [exclusive.total]
  exact (exclusive.inUse p (mem_flatten_of_mem member inPages)).2.2

/-- A machine with three pages behind the kernel. -/
def threePages : Holders := Holders.start ⟨0x100000, 0x100000, 0x101000⟩ (some 1040)

def twoOneBack : List Call := [.allocPages 2, .allocPage, .freePages 257 2]

/-- The theorem at a run in which a caller gives its pages back. -/
theorem frames_exclusive_twoOneBack :
    (twoOneBack.foldl Holders.step threePages).held = [[259], []] ∧
      FirstFit (twoOneBack.foldl Holders.step threePages).pages 2 :=
  ⟨by decide +kernel,
    (frames_exclusive ⟨0x100000, 0x100000, 0x101000⟩ (some 1040) twoOneBack
      (by decide +kernel)).2.2 2 (le_refl 2)⟩

/-! ## The frames of the page tables -/

/-- The bits of the bitmap are the frames in use. -/
structure Represents (s : Pages) (vm : Mm.Vm) : Prop where
  totalPages : vm.totalPages = s.totalPages
  used : ∀ p < s.totalPages, vm.used p = s.bitmap.test p

section Represents

open Function (update_apply)

variable {s : Pages} {vm : Mm.Vm} (represents : Represents s vm)
include represents

theorem Represents.lowestFree : vm.lowestFree = s.firstFree := by
  unfold Mm.Vm.lowestFree Pages.firstFree
  rw [represents.totalPages]
  refine find?_congr fun p member => ?_
  rw [represents.used p (mem_range.mp member)]

/-- The allocator of `FunsOS.Mm.Vmm` is the search for the lowest free frame. -/
theorem Represents.pmmAllocPage (covers : s.totalPages ≤ s.bitmapSize * 32) :
    Represents (pmmAllocPage s).1 (Mm.pmmAllocPage vm).1 ∧
      (pmmAllocPage s).2 = (Mm.pmmAllocPage vm).2.getD 0 * pageSize := by
  unfold Mm.pmmAllocPage
  rw [represents.lowestFree]
  cases found : s.firstFree with
  | none =>
    rw [pmmAllocPage_of_full covers found]
    exact ⟨represents, (zero_mul _).symm⟩
  | some p =>
    rw [pmmAllocPage_of_free covers found]
    refine ⟨⟨represents.totalPages, fun q below => ?_⟩, ?_⟩
    · dsimp only
      rw [test_take, update_apply, represents.used q below]
      split <;> simp [*]
    · by_cases zero : p = 0 <;> simp [zero]

theorem Represents.pmmFreePage {phys : Nat} (aligned : phys % pageSize = 0) :
    Represents (pmmFreePage s phys) (Mm.pmmFreePage vm (phys / pageSize)) := by
  unfold Pmm.pmmFreePage Mm.pmmFreePage
  rw [if_neg (not_not_intro aligned)]
  by_cases inside : phys / pageSize < s.totalPages
  · rw [if_neg (Nat.not_le.mpr inside), if_pos (represents.totalPages ▸ inside)]
    refine ⟨represents.totalPages.trans (release_totalPages ..).symm, fun q below => ?_⟩
    dsimp only
    rw [test_release, update_apply, represents.used q (by simpa using below)]
    split <;> simp [*]
  · rw [if_pos (Nat.not_lt.mp inside), if_neg (represents.totalPages ▸ inside)]
    exact represents

end Represents

/-- The calls for one frame: `none` asks for one, and `some phys` frees the one at `phys`. -/
def pageStep (s : Pages) : Option Nat → Pages
  | none => (pmmAllocPage s).1
  | some phys => pmmFreePage s phys

/-- An address inside a frame frees nothing. -/
def frameStep (vm : Mm.Vm) : Option Nat → Mm.Vm
  | none => (Mm.pmmAllocPage vm).1
  | some phys => if phys % pageSize = 0 then Mm.pmmFreePage vm (phys / pageSize) else vm

theorem represents_self {s : Pages} {vm : Mm.Vm} :
    Represents s { vm with totalPages := s.totalPages, used := s.bitmap.test } :=
  ⟨rfl, fun _ _ => rfl⟩

/-- **The bitmap refines the set of frames in use.** After every run from `init_pmm` on they
agree, and the next allocation returns the same frame on both. -/
theorem bitmap_refines_frames (image : Image) (info : Option Nat) (vm : Mm.Vm)
    (calls : List (Option Nat)) :
    let start := initPmm image info
    let s := calls.foldl pageStep start
    let vm' := calls.foldl frameStep
      { vm with totalPages := start.totalPages, used := start.bitmap.test }
    Represents s vm' ∧ (pmmAllocPage s).2 = (Mm.pmmAllocPage vm').2.getD 0 * pageSize := by
  intro start s vm'
  have run : Ahead 1 s ∧ Represents s vm' := by
    refine foldl_rel (r := fun s vm => Ahead 1 s ∧ Represents s vm)
      ⟨Ahead.initPmm, represents_self⟩ ?_
    rintro call - s vm ⟨ahead, represents⟩
    cases call with
    | none => exact ⟨ahead.pmmAllocPage, (represents.pmmAllocPage ahead.covers).1⟩
    | some phys =>
      refine ⟨ahead.pmmFreePage, ?_⟩
      by_cases aligned : phys % pageSize = 0
      · rw [frameStep, if_pos aligned]
        exact represents.pmmFreePage aligned
      · rw [pageStep, frameStep, if_neg aligned, Pmm.pmmFreePage, if_pos aligned]
        exact represents
  exact ⟨run.2, (run.2.pmmAllocPage run.1.covers).2⟩

end FunsOS.Pmm
