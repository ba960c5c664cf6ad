import Mathlib.Order.CompletePartialOrder
import Mathlib.Order.Interval.Set.Disjoint
import FunsOS.Foundation.Runs
import FunsOS.Mmap.Calls

/-!
# The region table

The regions of the table should be non-empty ranges that do not overlap, and `munmap`
should take exactly the pages of its range out of the table. The code does not see to
it: `munmap` of a part of a region keeps the region (`partial_munmap_keeps_region`),
`MAP_FIXED` clears a range only where one region is that range, and a length or an
address near the top of memory wraps. In runs without such calls the table is in order
(`region_table`).
-/

set_option autoImplicit false

namespace FunsOS.Mmap

open Foundation Region Option
open Mm (pageSize)

variable {s : State}

/-! ## Ranges -/

def Region.range (r : Region) : Set Nat := Set.Ico r.startVaddr (r.startVaddr + r.size)

/-- The page has an address in the range of the given length. -/
def InRange (start length page : Nat) : Prop :=
  ∃ x, start ≤ x ∧ x < start + length ∧ x / pageSize = page

def Covered (s : State) (page : Nat) : Prop := ∃ r ∈ s.regionList, InRange r.startVaddr r.size page

/-- The regions are non-empty and disjoint, and end at or below `2 ^ 32`. -/
structure Regular (s : State) : Prop where
  nonempty : ∀ r ∈ s.regionList, 0 < r.size
  bounded : ∀ r ∈ s.regionList, r.startVaddr + r.size ≤ wordLimit
  disjoint : s.regionList.Pairwise fun r r' => Disjoint r.range r'.range

/-- A region of whole pages. -/
structure Region.Whole (r : Region) : Prop where
  nonempty : 0 < r.size
  bounded : r.startVaddr + r.size ≤ wordLimit
  start : pageSize ∣ r.startVaddr
  size : pageSize ∣ r.size

/-- What the table keeps: regions of whole pages, and a hint inside the mmap area. -/
structure Table (s : State) : Prop where
  whole : ∀ r ∈ s.regionList, r.Whole
  disjoint : s.regionList.Pairwise fun r r' => Disjoint r.range r'.range
  hint : regionStart ≤ s.nextVaddr ∧ s.nextVaddr ≤ regionEnd ∧ pageSize ∣ s.nextVaddr

theorem Table.regular (table : Table s) : Regular s where
  nonempty := fun r member => (table.whole r member).nonempty
  bounded := fun r member => (table.whole r member).bounded
  disjoint := table.disjoint

theorem table_mmapInit : Table (mmapInit s) where
  whole := nofun
  disjoint := List.Pairwise.nil
  hint := ⟨Nat.le_refl _, by show regionStart ≤ regionEnd; decide, by show pageSize ∣ regionStart; decide⟩

theorem Table.withRegions {s' : State} (table : Table s) (hint : s'.nextVaddr = s.nextVaddr)
    (whole : ∀ r ∈ s'.regionList, r.Whole)
    (disjoint : s'.regionList.Pairwise fun r r' => Disjoint r.range r'.range) : Table s' :=
  ⟨whole, disjoint, hint ▸ table.hint⟩

/-- The ranges overlap, as naturals. -/
theorem not_disjoint_iff {a l b m : Nat} (left : 0 < l) (right : 0 < m) :
    ¬ Disjoint (Set.Ico a (a + l)) (Set.Ico b (b + m)) ↔ a < b + m ∧ b < a + l := by
  rw [Set.Ico_disjoint_Ico]
  omega

/-! ## Rounding -/

theorem alignUp_of_dvd {value : Nat} (whole : pageSize ∣ value) (word : value < wordLimit) :
    alignUp value pageSize = value := by
  obtain ⟨k, rfl⟩ := whole
  unfold alignUp wordLimit pageSize at *
  omega

variable {length addr : Nat} {regions : List Region}

/-- A length that is not rounded to 0 is rounded up. -/
theorem alignUp_bounds (word : length < wordLimit) (nonzero : alignUp length pageSize ≠ 0) :
    length ≤ alignUp length pageSize ∧ alignUp length pageSize < length + pageSize := by
  have fits : length + pageSize - 1 < wordLimit := by
    by_contra wraps
    exact nonzero (alignUp_of_wraps word (by decide) (Nat.not_lt.mp wraps))
  exact ⟨le_alignUp (by decide) fits, alignUp_lt (by decide) fits⟩

/-! ## The search -/

/-- No sum of the search wraps: not the one for the hint, and not those for the ends of
the regions in the mmap area. -/
structure SearchFits (s : State) (aligned : Nat) : Prop where
  hint : s.nextVaddr + aligned < wordLimit
  regions : ∀ r ∈ s.regionList, r.startVaddr < regionEnd → regionStart < r.startVaddr + r.size →
    r.startVaddr + r.size + pageSize + aligned < wordLimit

instance (s : State) (aligned : Nat) : Decidable (SearchFits s aligned) :=
  decidable_of_iff (_ ∧ _) ⟨fun ⟨hint, regions⟩ => ⟨hint, regions⟩, fun ⟨hint, regions⟩ => ⟨hint, regions⟩⟩

/-- The address that a search gives. -/
structure Found (s : State) (aligned candidate : Nat) : Prop where
  above : regionStart ≤ candidate
  below : candidate + aligned ≤ regionEnd
  whole : pageSize ∣ candidate
  clear : conflict s.regionList candidate aligned = none

variable {aligned vaddr candidate : Nat} {r : Region} {args : MmapArgs}

theorem add32_of_below (below : candidate + aligned ≤ regionEnd) :
    add32 candidate aligned = candidate + aligned :=
  add32_of_lt (by unfold regionEnd wordLimit at *; omega)

section Search

variable (table : Table s) (fits : SearchFits s aligned) (positive : 0 < aligned)
  (above : regionStart ≤ candidate) (below : candidate + aligned ≤ regionEnd)
include table fits positive

include above below in
theorem disjoint_of_conflict_none (clear : conflict s.regionList candidate aligned = none) :
    ∀ r ∈ s.regionList, Disjoint (Set.Ico candidate (candidate + aligned)) r.range := by
  intro r member
  by_contra overlap
  have whole := table.whole r member
  obtain ⟨before, after⟩ := (not_disjoint_iff positive whole.nonempty).mp overlap
  have room := fits.regions r member (by omega) (by omega)
  have passed := List.find?_eq_none.mp clear r member
  have regEnd : r.regEnd = r.startVaddr + r.size := add32_of_lt (by omega)
  rw [add32_of_below below, regEnd] at passed
  simp at passed
  omega

include above below in
/-- A region that is in the way ends behind the candidate, and the next candidate is
behind its end. -/
theorem conflict_some (found : conflict s.regionList candidate aligned = some r) :
    add32 r.regEnd pageSize = r.startVaddr + r.size + pageSize ∧
      candidate < r.startVaddr + r.size ∧ pageSize ∣ r.startVaddr + r.size ∧
      r.startVaddr + r.size + pageSize + aligned < wordLimit := by
  have member := List.mem_of_find?_eq_some found
  have whole := table.whole r member
  have blocks := List.find?_some found
  rw [add32_of_below below] at blocks
  simp only [Bool.not_eq_true', Bool.or_eq_false_iff, decide_eq_false_iff_not, Nat.not_le] at blocks
  obtain ⟨before, after⟩ := blocks
  have notLonger : r.regEnd ≤ r.startVaddr + r.size := Nat.mod_le _ _
  have room := fits.regions r member (by omega) (by omega)
  have regEnd : r.regEnd = r.startVaddr + r.size := add32_of_lt (by omega)
  rw [regEnd] at after ⊢
  exact ⟨add32_of_lt (by omega), after, Nat.dvd_add whole.start whole.size, room⟩

/-- **The scan ends**, and gives a candidate without a conflict or none. -/
theorem linearScan_returns :
    ∀ fuel candidate, wordLimit ≤ fuel + candidate → regionStart ≤ candidate →
      pageSize ∣ candidate → candidate + aligned < wordLimit →
      Returns (linearScan s.regionList aligned fuel candidate) fun result =>
        ∀ found, result = some found → Found s aligned found := by
  intro fuel
  induction fuel with
  | zero =>
    intro candidate enough _ _ word
    omega
  | succ fuel ih =>
    intro candidate enough above whole word
    unfold linearScan
    rw [add32_of_lt word]
    split
    case isFalse => exact .of_some nofun
    case isTrue below =>
      split
      case h_1 clear =>
        refine .of_some fun found same => ?_
        obtain rfl := some.inj same
        exact ⟨above, below, whole, clear⟩
      case h_2 r found =>
        obtain ⟨next, progress, wholeEnd, room⟩ :=
          conflict_some table fits positive above below found
        rw [next]
        exact ih _ (by omega) (by omega) (Nat.dvd_add wholeEnd (Nat.dvd_refl _)) room

theorem findFreeVaddr_returns (whole : pageSize ∣ aligned) :
    Returns (findFreeVaddr s aligned) fun result =>
      result = (s, 0) ∨ ∃ vaddr, result = ({ s with nextVaddr := vaddr + aligned }, vaddr) ∧
        Found s aligned vaddr := by
  have hint := fits.hint
  obtain ⟨above, below, wholeHint⟩ := table.hint
  have same : alignUp aligned pageSize = aligned := alignUp_of_dvd whole (by omega)
  unfold findFreeVaddr
  simp only [same]
  rw [add32_of_lt hint]
  split
  case isTrue free =>
    exact .of_some (.inr ⟨s.nextVaddr, rfl, above, free.1, wholeHint, free.2⟩)
  case isFalse =>
    refine Returns.map (linearScan_returns table fits positive wordLimit regionStart
      (Nat.le_add_right _ _) (Nat.le_refl _) (by decide) (by omega)) fun result finds => ?_
    cases result with
    | none => exact .inl rfl
    | some candidate =>
      have found := finds candidate rfl
      exact .inr ⟨candidate, by simp only [add32_of_below found.below], found⟩

end Search

/-! ## munmap -/

/-- What the loop of `munmap` does when it finds a region. -/
theorem unmapFrom_some {result : List Region × Nat × Nat}
    (found : unmapFrom vaddr aligned regions = some result) :
    (∃ front r back, regions = front ++ r :: back ∧ r.isExact vaddr aligned ∧
      result.1 = front ++ back) ∨
    ∃ r ∈ regions, r.isExact vaddr aligned = false ∧ r.hasPart vaddr aligned ∧
      result.1 = regions := by
  induction regions generalizing result with
  | nil => cases found
  | cons r rest ih =>
    unfold unmapFrom at found
    split at found
    case isTrue exact' =>
      obtain rfl := some.inj found
      exact .inl ⟨[], r, rest, rfl, exact', rfl⟩
    case isFalse notExact =>
      split at found
      case isTrue part =>
        obtain rfl := some.inj found
        exact .inr ⟨r, List.mem_cons_self, Bool.eq_false_iff.mpr notExact, part, rfl⟩
      case isFalse =>
        obtain ⟨later, foundLater, rfl⟩ := map_eq_some_iff.mp found
        rcases ih foundLater with ⟨front, r', back, rfl, exact', same⟩ |
          ⟨r', member, notExact', part, same⟩
        · exact .inl ⟨r :: front, r', back, rfl, exact', congrArg (r :: ·) same⟩
        · exact .inr ⟨r', List.mem_cons_of_mem _ member, notExact', part, congrArg (r :: ·) same⟩

/-- The loop of `munmap` comes to the end if no region passes either test. -/
theorem unmapFrom_none (missing : unmapFrom vaddr aligned regions = none) :
    ∀ r ∈ regions, r.isExact vaddr aligned = false := by
  induction regions with
  | nil => nofun
  | cons r rest ih =>
    unfold unmapFrom at missing
    split at missing
    case isTrue => cases missing
    case isFalse notExact =>
      split at missing
      case isTrue => cases missing
      case isFalse =>
        intro r' member
        rcases List.mem_cons.mp member with rfl | later
        · exact Bool.eq_false_iff.mpr notExact
        · exact ih (map_eq_none_iff.mp missing) r' later

/-- What `munmap` does to the table. -/
theorem munmap_cases (s : State) (addr length : Nat) :
    (munmap s addr length).1.nextVaddr = s.nextVaddr ∧
    (((munmap s addr length).1.regionList = s.regionList ∧ (munmap s addr length).2 = false ∧
      (addr ≠ 0 → ∀ r ∈ s.regionList, r.isExact addr (alignUp length pageSize) = false)) ∨
    (∃ front r back, s.regionList = front ++ r :: back ∧ r.isExact addr (alignUp length pageSize) ∧
      (munmap s addr length).1.regionList = front ++ back) ∨
    ∃ r ∈ s.regionList, r.isExact addr (alignUp length pageSize) = false ∧
      r.hasPart addr (alignUp length pageSize) ∧
      (munmap s addr length).1.regionList = s.regionList) := by
  unfold munmap
  split
  case isTrue null => exact ⟨rfl, .inl ⟨rfl, rfl, fun nonnull => absurd null nonnull⟩⟩
  case isFalse =>
    split
    case h_1 missing => exact ⟨rfl, .inl ⟨rfl, rfl, fun _ => unmapFrom_none missing⟩⟩
    case h_2 regions start stop found => exact ⟨rfl, .inr (unmapFrom_some found)⟩

/-- The regions after `munmap` are regions of before. -/
theorem munmap_sublist (s : State) (addr length : Nat) :
    (munmap s addr length).1.regionList.Sublist s.regionList := by
  rcases (munmap_cases s addr length).2 with ⟨same, -⟩ | ⟨front, r, back, was, -, left⟩ |
    ⟨r, -, -, -, same⟩
  · exact same ▸ List.Sublist.refl _
  · rw [left, was]
    exact List.Sublist.append_left (List.sublist_cons_self r back) front
  · exact same ▸ List.Sublist.refl _

/-- Any `munmap` keeps the table. -/
theorem Table.munmap (table : Table s) : Table (munmap s addr length).1 :=
  table.withRegions (munmap_cases s addr length).1
    (fun r member => table.whole r ((munmap_sublist s addr length).subset member))
    (table.disjoint.sublist (munmap_sublist s addr length))

/-- A region that is the range. -/
theorem Region.isExact_iff : r.isExact vaddr aligned ↔ r.startVaddr = vaddr ∧ r.size = aligned := by
  simp [isExact]

theorem Region.Whole.inRange_iff (whole : r.Whole) {page : Nat} :
    InRange r.startVaddr r.size page ↔ page * pageSize ∈ r.range := by
  obtain ⟨⟨k, start⟩, ⟨n, size⟩⟩ := And.intro whole.start whole.size
  unfold range InRange
  rw [Set.mem_Ico, start]
  unfold pageSize
  constructor
  · rintro ⟨x, above, below, rfl⟩
    omega
  · rintro ⟨above, below⟩
    exact ⟨page * 4096, above, below, by omega⟩

/-- A range of the table other than the given one is disjoint from it. -/
theorem disjoint_of_split {front back : List Region}
    (disjoint : (front ++ r :: back).Pairwise fun r r' => Disjoint r.range r'.range) :
    ∀ r' ∈ front ++ back, Disjoint r.range r'.range := by
  intro r' member
  obtain ⟨-, behind, across⟩ := List.pairwise_append.mp disjoint
  rcases List.mem_append.mp member with before | after
  · exact (across r' before r List.mem_cons_self).symm
  · exact (List.pairwise_cons.mp behind).1 r' after

/-- A call of `munmap` with a 32-bit length that does not take the branch for a part of a
region, unless it is for nothing. -/
def UnmapsWhole (s : State) (addr length : Nat) : Prop :=
  length < wordLimit ∧ (length ≠ 0 → ∀ r ∈ s.regionList,
    r.isExact addr (alignUp length pageSize) = false →
      r.hasPart addr (alignUp length pageSize) = false)

/-- The table after `munmap` covers no page of the range, and every other page that it
covered. -/
structure PagesRemoved (s : State) (addr length : Nat) (next : State) : Prop where
  removed : ∀ page, InRange addr length page → ¬ Covered next page
  kept : ∀ page, Covered s page → ¬ InRange addr length page → Covered next page

theorem Table.munmap_pages {next : State} (table : Table s) (whole : UnmapsWhole s addr length)
    (returned : Mmap.munmap s addr length = (next, true)) : PagesRemoved s addr length next := by
  obtain ⟨word, wholly⟩ := whole
  have cases := (munmap_cases s addr length).2
  rw [returned] at cases
  rcases cases with ⟨-, failed, -⟩ | ⟨front, r, back, was, exact', left⟩ |
    ⟨r, member, notExact, part, same⟩
  · cases failed
  · obtain ⟨start, size⟩ := isExact_iff.mp exact'
    have member : r ∈ s.regionList := was ▸ List.mem_append_right _ List.mem_cons_self
    have wholeR := table.whole r member
    have others := disjoint_of_split (was ▸ table.disjoint)
    have nonempty := wholeR.nonempty
    obtain ⟨le, lt⟩ := alignUp_bounds word (by omega)
    constructor
    case removed =>
      rintro page ⟨x, above, below, rfl⟩ ⟨r', member', covers⟩
      have mine : InRange r.startVaddr r.size (x / pageSize) := ⟨x, by omega, by omega, rfl⟩
      rw [left] at member'
      have wholeR' : r'.Whole := by
        refine table.whole r' (was ▸ ?_)
        exact (List.Sublist.append_left (List.sublist_cons_self r back) front).subset member'
      exact Set.disjoint_left.mp (others r' member') (wholeR.inRange_iff.mp mine)
        (wholeR'.inRange_iff.mp covers)
    case kept =>
      rintro page ⟨r', member', covers⟩ outside
      refine ⟨r', ?_, covers⟩
      rw [was] at member'
      rw [left]
      rcases List.mem_append.mp member' with before | after
      · exact List.mem_append_left _ before
      · rcases List.mem_cons.mp after with rfl | behind
        · -- the last page of the region has an address of the unrounded range
          obtain ⟨⟨k, wholeStart⟩, ⟨n, wholeSize⟩⟩ := And.intro wholeR.start wholeR.size
          obtain ⟨above, below⟩ := Set.mem_Ico.mp (wholeR.inRange_iff.mp covers)
          refine absurd ⟨page * pageSize, by omega, ?_, ?_⟩ outside
          · unfold pageSize at *
            omega
          · exact Nat.mul_div_cancel _ (Nat.zero_lt_succ _)
        · exact List.mem_append_right _ behind
  · -- the branch for a part of a region was for nothing
    have none : length = 0 := by
      by_contra nonzero
      rw [wholly nonzero r member notExact] at part
      cases part
    constructor
    case removed =>
      rintro page ⟨x, above, below, -⟩
      omega
    case kept =>
      rintro page ⟨r', member', covers⟩ -
      exact ⟨r', same.symm ▸ member', covers⟩

/-! ## mmap -/

/-- A range for `MAP_FIXED` that does not wrap, and that no region overlaps but one that
is the range, which `munmap` removes if the range does not end at `2 ^ 32`. -/
structure FixedFits (s : State) (addr aligned : Nat) : Prop where
  word : addr + aligned ≤ wordLimit
  overlapped : ∀ r ∈ s.regionList, r.startVaddr < addr + aligned →
    addr < r.startVaddr + r.size → r.isExact addr aligned ∧ addr + aligned < wordLimit

instance (s : State) (addr aligned : Nat) : Decidable (FixedFits s addr aligned) :=
  decidable_of_iff (_ ∧ _) ⟨fun ⟨word, overlapped⟩ => ⟨word, overlapped⟩,
    fun ⟨word, overlapped⟩ => ⟨word, overlapped⟩⟩

theorem Table.addRegion (table : Table s) (positive : 0 < aligned)
    (word : vaddr + aligned ≤ wordLimit) (wholeStart : pageSize ∣ vaddr)
    (wholeSize : pageSize ∣ aligned)
    (disjoint : ∀ r ∈ s.regionList, Disjoint (Set.Ico vaddr (vaddr + aligned)) r.range) :
    Table (addRegion s args vaddr aligned).1 := by
  unfold Mmap.addRegion
  split
  case isFalse => exact table
  case isTrue =>
    have filled : (newRegion s args vaddr aligned).1.regionList = s.regionList ∧
        (newRegion s args vaddr aligned).1.nextVaddr = s.nextVaddr ∧
        (newRegion s args vaddr aligned).2.startVaddr = vaddr ∧
        (newRegion s args vaddr aligned).2.size = aligned := by
      unfold newRegion
      split
      case isTrue => exact ⟨rfl, rfl, rfl, rfl⟩
      case isFalse =>
        split
        · exact ⟨rfl, rfl, rfl, rfl⟩
        · exact ⟨rfl, rfl, rfl, rfl⟩
    generalize newRegion s args vaddr aligned = new at filled
    obtain ⟨list, hint, start, size⟩ := filled
    have range : new.2.range = Set.Ico vaddr (vaddr + aligned) := by
      rw [range, start, size]
    refine table.withRegions hint ?_ ?_
    · intro r member
      rcases List.mem_cons.mp member with rfl | old
      · rw [← start, ← size] at word
        exact ⟨size ▸ positive, word, start ▸ wholeStart, size ▸ wholeSize⟩
      · exact table.whole r (list ▸ old)
    · refine List.pairwise_cons.mpr ⟨fun r old => ?_, list ▸ table.disjoint⟩
      rw [range]
      exact disjoint r (list ▸ old)

theorem FixedFits.disjoint (fits : FixedFits s addr aligned) (table : Table s) (nonnull : addr ≠ 0)
    (positive : 0 < aligned) (whole : pageSize ∣ aligned) :
    ∀ r ∈ (munmap s addr aligned).1.regionList,
      Disjoint (Set.Ico addr (addr + aligned)) r.range := by
  have same : alignUp aligned pageSize = aligned := by
    refine alignUp_of_dvd whole ?_
    have word := fits.word
    omega
  have cases := (munmap_cases s addr aligned).2
  rw [same] at cases
  intro r member
  by_contra overlap
  have memberS := (munmap_sublist s addr aligned).subset member
  obtain ⟨before, after⟩ := (not_disjoint_iff positive (table.whole r memberS).nonempty).mp overlap
  obtain ⟨exact', word⟩ := fits.overlapped r memberS after before
  obtain ⟨start, size⟩ := isExact_iff.mp exact'
  rcases cases with ⟨-, -, missing⟩ | ⟨front, r', back, was, exactR', left⟩ |
    ⟨r', member', notExact, part, -⟩
  · rw [missing nonnull r memberS] at exact'
    cases exact'
  · -- the region removed had the same range
    obtain ⟨start', size'⟩ := isExact_iff.mp exactR'
    have apart := disjoint_of_split (was ▸ table.disjoint) r (left ▸ member)
    rw [range, start', size'] at apart
    exact overlap apart
  · -- the range does not wrap, so a region that has it as a part overlaps it
    unfold hasPart at part
    rw [add32_of_lt word, Bool.and_eq_true, decide_eq_true_eq, decide_eq_true_eq] at part
    have notLonger : r'.regEnd ≤ r'.startVaddr + r'.size := Nat.mod_le _ _
    obtain ⟨exactR', -⟩ := fits.overlapped r' member' (by omega) (by omega)
    rw [notExact] at exactR'
    cases exactR'

/-- The calls of a run: `mmap` with an address only for `MAP_FIXED`, and then a page
address; a length that is not rounded to 0; and a range that fits. Any `munmap` will
do. -/
def Careful (s : State) : Op → Prop
  | .mmap args => args.length ≠ 0 → alignUp args.length pageSize ≠ 0 ∧
      if mapFixed args.flags then
        pageSize ∣ args.addr ∧ FixedFits s args.addr (alignUp args.length pageSize)
      else args.addr = 0 ∧ SearchFits s (alignUp args.length pageSize)
  | .munmap _ _ => True
  | .setFdOffset _ _ => True

instance (s : State) : ∀ op, Decidable (Careful s op)
  | .mmap _ => inferInstanceAs (Decidable (_ → _))
  | .munmap _ _ => inferInstanceAs (Decidable True)
  | .setFdOffset _ _ => inferInstanceAs (Decidable True)

/-- `mmap` without an address. -/
theorem Table.mmap_search (table : Table s) (positive : 0 < aligned) (whole : pageSize ∣ aligned)
    (fits : SearchFits s aligned) : Returns ((findFreeVaddr s aligned).map fun found =>
      if found.2 = 0 then found else Mmap.addRegion found.1 args found.2 aligned) fun result =>
        Table result.1 := by
  refine Returns.map (findFreeVaddr_returns table fits positive whole) ?_
  rintro result (rfl | ⟨vaddr, rfl, found⟩)
  · exact table
  · have above := found.above
    have below := found.below
    have clear := disjoint_of_conflict_none table fits positive above below found.clear
    have hinted : Table { s with nextVaddr := vaddr + aligned } :=
      ⟨table.whole, table.disjoint, Nat.le_trans above (Nat.le_add_right _ _), below,
        Nat.dvd_add found.whole whole⟩
    split
    case isTrue => exact hinted
    case isFalse =>
      refine hinted.addRegion positive ?_ found.whole whole clear
      unfold regionEnd wordLimit at *
      omega

/-- **A call keeps the table**, and ends. -/
theorem Table.step {op : Op} (table : Table s) (careful : Careful s op) :
    Returns (step s op) Table := by
  cases op with
  | mmap args =>
    refine Returns.map (P := fun result => Table result.1) ?_ fun result kept => kept
    unfold Mmap.mmap
    split
    case isTrue => exact .of_some table
    case isFalse nonzero =>
      obtain ⟨rounded, fits⟩ := careful nonzero
      have positive := Nat.pos_of_ne_zero rounded
      split
      case isTrue isFixed =>
        rw [if_pos isFixed] at fits
        split
        case isTrue => exact .of_some table
        case isFalse nonnull =>
          have disjoint := fits.2.disjoint table nonnull positive alignUp_dvd
          exact .of_some (table.munmap.addRegion positive fits.2.word fits.1 alignUp_dvd disjoint)
      case isFalse notFixed =>
        rw [if_neg notFixed] at fits
        rw [if_neg fun nonnull => nonnull fits.1]
        exact table.mmap_search positive alignUp_dvd fits.2
  | munmap addr length => exact .of_some table.munmap
  | setFdOffset fd offset => exact .of_some ⟨table.whole, table.disjoint, table.hint⟩

/-- **The region table stays in order** in every run of careful calls after `mmap_init`,
and a further `munmap` that returns 0 and is not for a part of a region removes the pages
of its range and no others. -/
theorem region_table {ops : List Op} (meets : MeetsPartial Mmap.step Careful (mmapInit s) ops) :
    Returns (runPartial Mmap.step (mmapInit s) ops) fun last =>
      Regular last ∧ ∀ addr length next, UnmapsWhole last addr length →
        munmap last addr length = (next, true) → PagesRemoved last addr length next := by
  have run := MeetsPartial.invariant (P := Table) (fun _ _ table careful => table.step careful)
    table_mmapInit meets
  refine Returns.mono run fun last table => ⟨table.regular, fun addr length next whole returned => ?_⟩
  exact table.munmap_pages whole returned

/-- Nothing is mapped. -/
def emptyState : State where
  regionList := []
  nextVaddr := regionStart
  sysMmapFd := noFd
  sysMmapOffset := 0
  vm :=
    { totalPages := 16
      used := fun f => decide (f < 2)
      bytes := fun _ _ => 0
      directory := fun _ _ => .absent
      table := fun _ _ => .absent
      kernelDirectory := 1 }
  currentDir := 1

/-- An anonymous mapping anywhere. -/
def anonymous (length : Nat) : Op := .mmap ⟨0, length, 3, 0x22, noFd, 0, true⟩

/-- An anonymous mapping at an address. -/
def anonymousAt (addr length : Nat) : Op := .mmap ⟨addr, length, 3, 0x32, noFd, 0, true⟩

/-- **`munmap` of the first page of two returns 0 and keeps both in the table.** -/
theorem partial_munmap_keeps_region :
    ∃ last next, runPartial step (mmapInit emptyState) [anonymous 8192] = some last ∧
      munmap last regionStart 4096 = (next, true) ∧
      ¬ PagesRemoved last regionStart 4096 next := by
  let both : Region := ⟨regionStart, 8192, 3, 0x22, 0, 0, 0⟩
  have lists : (runPartial step (mmapInit emptyState) [anonymous 8192]).map State.regionList =
      some [both] := by decide +kernel
  obtain ⟨last, ran, regions⟩ := map_eq_some_iff.mp lists
  have found : unmapFrom regionStart (alignUp 4096 pageSize) last.regionList =
      some ([both], regionStart, regionStart + 4096) := by
    rw [regions]
    decide
  refine ⟨last, _, ran, by rw [munmap, if_neg (by decide), found], fun removes => ?_⟩
  refine removes.removed (regionStart / pageSize) ⟨regionStart, by decide, by decide, rfl⟩ ?_
  exact ⟨both, .head _, regionStart, by decide, by decide, rfl⟩

/-- The theorem at a run with two mappings, one of which is replaced and removed again. -/
theorem region_table_replaced :
    Returns (runPartial step (mmapInit emptyState)
      [anonymous 8192, anonymous 100, anonymousAt regionStart 8192, .munmap regionStart 5000])
      fun last => Regular last ∧ ∀ addr length next, UnmapsWhole last addr length →
        munmap last addr length = (next, true) → PagesRemoved last addr length next :=
  region_table (by decide +kernel)

end FunsOS.Mmap
