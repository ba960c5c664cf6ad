import Mathlib.Data.List.Nodup
import FunsOS.Foundation.Runs
import FunsOS.Pmm.Pages

/-!
# The counter of pages in use

`init_pmm` counts page 0 twice: the page is in use from the start, when all pages are
counted, and is counted again when it is marked. After that every operation changes the
counter with the bitmap. So in every state the counter is one ahead of the bitmap
(`never_accounted`), and `pmm_get_free_pages` one behind.
-/

set_option autoImplicit false

namespace FunsOS.Pmm

open Foundation List Pages Bitmap

/-- The counter is `k` ahead of the bitmap. -/
structure Ahead (k : Nat) (s : Pages) : Prop where
  small : k ≤ 1
  counter : s.usedPages = s.bitmap.setBits s.totalPages + k
  size : s.totalPages ≤ pmmMaxPages
  covers : s.totalPages ≤ s.bitmapSize * 32

variable (s : Pages)

@[simp] theorem take_totalPages {p : Nat} : (s.take p).totalPages = s.totalPages := rfl

@[simp] theorem release_totalPages {p : Nat} : (s.release p).totalPages = s.totalPages := by
  unfold release
  split <;> rfl

@[simp] theorem reserve_totalPages {p : Nat} : (s.reserve p).totalPages = s.totalPages := by
  unfold reserve
  split <;> rfl

theorem test_take (p q : Nat) : (s.take p).bitmap.test q = (decide (q = p) || s.bitmap.test q) :=
  test_set (by decide) s.bitmap p q

section Ahead

variable {k p : Nat} {s : Pages}

/-- The counter is far from the end of its range. -/
theorem Ahead.counter_lt (ahead : Ahead k s) : s.usedPages + 1 < wordLimit := by
  have bits := s.bitmap.setBits_le s.totalPages
  have := ahead.small
  have := ahead.size
  rw [ahead.counter]
  unfold pmmMaxPages at *
  unfold wordLimit
  omega

section

variable (ahead : Ahead k s) (below : p < s.totalPages)
include ahead below

theorem Ahead.take (isFree : s.bitmap.test p = false) : Ahead k (s.take p) where
  small := ahead.small
  counter := by
    unfold Pages.take
    dsimp only
    rw [add32_of_lt ahead.counter_lt, ahead.counter,
      setBits_of_set below isFree (test_set (by decide) _ _)]
    omega
  size := ahead.size
  covers := ahead.covers

theorem Ahead.reserve : Ahead k (s.reserve p) := by
  unfold Pages.reserve
  split
  case isTrue => exact ahead
  case isFalse isFree => exact ahead.take below (by simpa using isFree)

theorem Ahead.release : Ahead k (s.release p) := by
  unfold Pages.release
  split
  case isTrue isUsed =>
    have bits := setBits_clear (by decide) below isUsed
    have limit := ahead.counter_lt
    have counter := ahead.counter
    refine ⟨ahead.small, ?_, ahead.size, ahead.covers⟩
    dsimp only
    rw [sub32_of_le (by omega) (by omega)]
    omega
  case isFalse => exact ahead

end

/-- A loop over pages of the memory. -/
theorem Ahead.foldl {f : Pages → Nat → Pages} (keeps : ∀ s p, (f s p).totalPages = s.totalPages)
    (step : ∀ s p, Ahead k s → p < s.totalPages → Ahead k (f s p)) {pages : List Nat}
    (ahead : Ahead k s) (inside : ∀ p ∈ pages, p < s.totalPages) : Ahead k (pages.foldl f s) := by
  refine (foldl_invariant_of_mem (P := fun s' => Ahead k s' ∧ s'.totalPages = s.totalPages)
    (fun s' p member holds => ?_) ⟨ahead, rfl⟩).1
  exact ⟨step s' p holds.1 (holds.2 ▸ inside p member), (keeps s' p).trans holds.2⟩

/-- The loop that takes a run of free pages does not test them again. -/
theorem Ahead.takeAll {pages : List Nat} (ahead : Ahead k s) (distinct : pages.Nodup)
    (inside : ∀ p ∈ pages, p < s.totalPages) (free : ∀ p ∈ pages, s.bitmap.test p = false) :
    Ahead k (pages.foldl Pages.take s) := by
  induction pages generalizing s with
  | nil => exact ahead
  | cons p pages ih =>
    obtain ⟨absent, distinct⟩ := nodup_cons.mp distinct
    refine ih (ahead.take (inside p mem_cons_self) (free p mem_cons_self)) distinct
      (forall_mem_cons.mp inside).2 fun q member => ?_
    have other : q ≠ p := fun same => absent (same ▸ member)
    rw [test_take, free q (mem_cons_of_mem _ member)]
    simp [other]

end Ahead

/-! ## The operations -/

/-- The calls of the allocator, with any arguments. -/
inductive Op where
  | allocPage
  | allocPages (count : Nat)
  | freePage (phys : Nat)
  | freePages (phys count : Nat)
  deriving DecidableEq, Repr

/-- The state after a call. -/
def Pages.step (s : Pages) : Op → Pages
  | .allocPage => (pmmAllocPage s).1
  | .allocPages count => (pmmAllocPages s count).1
  | .freePage phys => pmmFreePage s phys
  | .freePages phys count => pmmFreePages s phys count

section Operations

variable {k : Nat} {s : Pages} (ahead : Ahead k s)
include ahead

theorem Ahead.pmmAllocPage : Ahead k (pmmAllocPage s).1 := by
  cases found : s.firstFree with
  | none =>
    rw [pmmAllocPage_of_full ahead.covers found]
    exact ahead
  | some p =>
    obtain ⟨isFree, below, -⟩ := List.find?_range_eq_some.mp found
    rw [pmmAllocPage_of_free ahead.covers found]
    exact ahead.take (mem_range.mp below) (by simpa using isFree)

theorem Ahead.pmmAllocPages {count : Nat} : Ahead k (pmmAllocPages s count).1 := by
  unfold Pmm.pmmAllocPages
  split
  case isTrue => exact ahead
  case isFalse nonzero =>
    split
    case isTrue => exact ahead.pmmAllocPage
    case isFalse =>
      split
      case h_1 => exact ahead
      case h_2 start found =>
        obtain ⟨⟨fits, free⟩, -⟩ :=
          (scanRun_from_zero (Nat.pos_of_ne_zero nonzero)).1 start found
        refine ahead.takeAll nodup_range' (fun p member => ?_) fun p member => ?_
        · have := mem_pagesBetween.mp member
          omega
        · have here := mem_pagesBetween.mp member
          simpa using free p here.1 here.2

theorem Ahead.pmmFreePage {phys : Nat} : Ahead k (pmmFreePage s phys) := by
  unfold Pmm.pmmFreePage
  split
  case isTrue => exact ahead
  case isFalse =>
    dsimp only
    split
    case isTrue => exact ahead
    case isFalse inside => exact ahead.release (Nat.lt_of_not_le inside)

theorem Ahead.freeFrom (left index : Nat) : Ahead k (freeFrom left index s) := by
  induction left generalizing index s with
  | zero => exact ahead
  | succ left ih =>
    unfold Pmm.freeFrom
    split
    case isTrue => exact ahead
    case isFalse inside => exact ih (ahead.release (Nat.lt_of_not_le inside)) _

/-- Every call keeps the counter and the bitmap in step. -/
theorem Ahead.step {op : Op} : Ahead k (s.step op) := by
  cases op with
  | allocPage => exact ahead.pmmAllocPage
  | allocPages count => exact ahead.pmmAllocPages
  | freePage phys => exact ahead.pmmFreePage
  | freePages phys count =>
    change Ahead k (pmmFreePages s phys count)
    unfold pmmFreePages
    split
    case isTrue => exact ahead
    case isFalse => exact ahead.freeFrom _ _

end Operations

/-! ## The start -/

theorem totalPagesOf_le (info : Option Nat) : totalPagesOf info ≤ pmmMaxPages := by
  unfold totalPagesOf
  dsimp only
  split
  case isTrue => exact Nat.le_refl _
  case isFalse fits => exact Nat.le_of_not_lt fits

variable {totalPages p q : Nat} {s : Pages} {info : Option Nat} {image : Image}

theorem le_bitmapSizeOf (size : totalPages ≤ pmmMaxPages) :
    totalPages ≤ bitmapSizeOf totalPages * 32 := by
  unfold bitmapSizeOf
  unfold pmmMaxPages at *
  dsimp only
  split <;> omega

theorem words_fill {n : Nat} {b : Bitmap 32} {i : Nat} (below : i < n) :
    ((range n).foldl (fun bitmap i => bitmap.setWord i (BitVec.allOnes 32)) b).words i =
      BitVec.allOnes 32 := by
  induction n with
  | zero => omega
  | succ n ih =>
    rw [range_succ, foldl_append, foldl_cons, foldl_nil]
    unfold setWord at ih ⊢
    dsimp only
    by_cases here : i = n
    · rw [here, Function.update_self]
    · rw [Function.update_of_ne here]
      exact ih (by omega)

theorem test_allUsed (size : totalPages ≤ pmmMaxPages) (below : p < totalPages) :
    (allUsed totalPages).bitmap.test p := by
  have covers := le_bitmapSizeOf size
  exact test_of_allOnes (by decide) (words_fill (by omega))

theorem Ahead.allUsed (size : totalPages ≤ pmmMaxPages) : Ahead 0 (allUsed totalPages) where
  small := by decide
  counter := by
    have all : ((range totalPages).countP (Pmm.allUsed totalPages).bitmap.test) =
        (range totalPages).length :=
      countP_eq_length.mpr fun p member => test_allUsed size (mem_range.mp member)
    rw [length_range] at all
    exact all.symm
  size
  covers := le_bitmapSizeOf size

theorem test_release_of_ne (other : q ≠ p) : (s.release p).bitmap.test q = s.bitmap.test q := by
  unfold release
  split
  case isTrue => simp [test_clear, other]
  case isFalse => rfl

/-- Pages that are not given back stay in use. -/
theorem test_foldl_release {pages : List Nat} (absent : q ∉ pages) :
    (pages.foldl release s).bitmap.test q = s.bitmap.test q := by
  refine foldl_invariant_of_mem (P := fun s' : Pages => s'.bitmap.test q = s.bitmap.test q)
    (fun s' p member holds => ?_) rfl
  have other : q ≠ p := fun same => absent (same ▸ member)
  exact (test_release_of_ne other).trans holds

/-- **Page 0 is counted twice**: it is in use when it is taken. -/
theorem Ahead.take_zero (ahead : Ahead 0 s) (isUsed : 0 < s.totalPages → s.bitmap.test 0) :
    Ahead 1 (s.take 0) where
  small := Nat.le_refl 1
  counter := by
    have same : (s.bitmap.set 0).setBits s.totalPages = s.bitmap.setBits s.totalPages := by
      refine setBits_congr fun p below => ?_
      rw [test_set (by decide)]
      by_cases zero : p = 0
      · subst zero
        simp [isUsed below]
      · simp [zero]
    unfold Pages.take
    rw [add32_of_lt ahead.counter_lt, same, ahead.counter]
  size := ahead.size
  covers := ahead.covers

/-- The state after the pages above 1 MB have been freed. -/
def freed (info : Option Nat) : Pages :=
  (pagesBetween startPage (totalPagesOf info)).foldl release (allUsed (totalPagesOf info))

theorem foldl_totalPages {f : Pages → Nat → Pages}
    (keeps : ∀ s p, (f s p).totalPages = s.totalPages) {pages : List Nat} :
    (pages.foldl f s).totalPages = s.totalPages :=
  foldl_invariant (P := fun s' => s'.totalPages = s.totalPages)
    (fun s' p holds => (keeps s' p).trans holds) rfl pages

/-- The steps of `init_pmm`. -/
theorem initPmm_eq (image : Image) (info : Option Nat) :
    initPmm image info = (image.kernelPages (totalPagesOf info)).foldl reserve
      ((image.bitmapPages (totalPagesOf info)).foldl reserve ((freed info).take 0)) := rfl

theorem freed_totalPages (info : Option Nat) : (freed info).totalPages = totalPagesOf info :=
  foldl_totalPages release_totalPages

theorem initPmm_totalPages : (initPmm image info).totalPages = totalPagesOf info := by
  rw [initPmm_eq, foldl_totalPages reserve_totalPages, foldl_totalPages reserve_totalPages,
    take_totalPages, freed_totalPages]

/-- The pages below 1 MB are not freed. -/
theorem test_freed (low : p < startPage) (inside : p < totalPagesOf info) :
    (freed info).bitmap.test p := by
  unfold freed
  rw [test_foldl_release, test_allUsed (totalPagesOf_le info) inside]
  rw [mem_pagesBetween]
  omega

theorem Ahead.initPmm : Ahead 1 (initPmm image info) := by
  have total := freed_totalPages info
  have free : Ahead 0 (freed info) :=
    (Ahead.allUsed (totalPagesOf_le info)).foldl release_totalPages (fun _ _ => Ahead.release)
      fun p member => (mem_pagesBetween.mp member).2
  have taken : Ahead 1 ((freed info).take 0) :=
    free.take_zero fun positive => test_freed (by decide) (total ▸ positive)
  have bitmap : Ahead 1 ((image.bitmapPages (totalPagesOf info)).foldl Pages.reserve
      ((freed info).take 0)) := by
    refine taken.foldl reserve_totalPages (fun _ _ => Ahead.reserve) fun p member => ?_
    have := (mem_pagesBetween.mp member).2
    rw [take_totalPages]
    omega
  refine bitmap.foldl reserve_totalPages (fun _ _ => Ahead.reserve) fun p member => ?_
  have := (mem_pagesBetween.mp member).2
  rw [foldl_totalPages reserve_totalPages, take_totalPages]
  omega

/-! ## Every run -/

/-- The counter is the number of pages in use, and the free pages are the others. -/
def Accounted (s : Pages) : Prop :=
  s.usedPages = s.bitmap.setBits s.totalPages ∧
    pmmGetFreePages s = (range s.totalPages).countP fun p => !s.bitmap.test p

/-- **The counter is one ahead of the bitmap in every state of every run**, whatever the
boot information, the layout of the kernel and the calls. -/
theorem never_accounted (image : Image) (info : Option Nat) (ops : List Op) :
    let s := ops.foldl step (initPmm image info)
    s.usedPages = s.bitmap.setBits s.totalPages + 1 ∧ ¬ Accounted s := by
  have ahead : Ahead 1 (ops.foldl step (initPmm image info)) :=
    foldl_invariant (P := Ahead 1) (fun _ op holds => holds.step) Ahead.initPmm ops
  refine ⟨ahead.counter, fun accounted => ?_⟩
  have := accounted.1
  have := ahead.counter
  omega

/-- A kernel at 1 MB with its bitmap behind it. -/
def smallImage : Image := ⟨0x180000, 0x100000, 0x1A0000⟩

/-- **A machine with one page above 1 MB**, which the kernel image occupies: 257 pages are in
use, and the counter says 258. `pmm_get_free_pages` wraps. -/
theorem one_page_counted_twice :
    let s := initPmm smallImage (some 1028)
    s.totalPages = 257 ∧ s.usedPages = 258 ∧ s.bitmap.setBits s.totalPages = 257 ∧
      pmmGetFreePages s = 0xFFFFFFFF := by
  decide +kernel

end FunsOS.Pmm
