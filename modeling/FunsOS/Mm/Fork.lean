import FunsOS.Mm.Frames

/-!
# What a clone of an address space holds

`vmm_clone_address_space` goes through the tables of the user half one by one. Afterwards
the clone has a table of its own for each table of the original, and both have the same
entries, read-only and marked COW (`cloneSpace_spec`). The tables are distinct because
the references are sound, so that the clone of one table leaves the others as they are.
-/

set_option autoImplicit false

namespace FunsOS.Mm

open List

variable {s : System} {parent child virt virt' : Nat}

/-- The tables of both address spaces for one directory entry are as they were. -/
structure SameAt (before after : Vm) (parent child i : Nat) : Prop where
  parentDir : after.directory parent i = before.directory parent i
  childDir : after.directory child i = before.directory child i
  parentTable : (before.directory parent i).present →
    after.table (before.directory parent i).frame = before.table (before.directory parent i).frame
  childTable : (before.directory child i).present →
    after.table (before.directory child i).frame = before.table (before.directory child i).frame

/-- The table for one directory entry has been cloned, if there is one. -/
structure ClonedAt (before after : Vm) (parent child i : Nat) : Prop where
  parentDir : after.directory parent i = before.directory parent i
  present : (after.directory child i).present → (before.directory parent i).present
  flags : (before.directory parent i).present →
    after.directory child i =
      { before.directory parent i with frame := (after.directory child i).frame }
  parentTable : (before.directory parent i).present → ∀ j,
    after.table (before.directory parent i).frame j =
      (before.table (before.directory parent i).frame j).shared
  childTable : (before.directory parent i).present → ∀ j,
    (before.table (before.directory parent i).frame j).present →
      after.table (after.directory child i).frame j =
        (before.table (before.directory parent i).frame j).shared
  childAbsent : (before.directory parent i).present → ∀ j,
    (before.table (before.directory parent i).frame j).present = false →
      (after.table (after.directory child i).frame j).present = false

theorem SameAt.refl {vm : Vm} {i : Nat} : SameAt vm vm parent child i :=
  ⟨rfl, rfl, fun _ => rfl, fun _ => rfl⟩

variable {first second third vm : Vm} {i d d' : Nat} {pte : Pte}

theorem SameAt.trans (one : SameAt first second parent child i)
    (two : SameAt second third parent child i) : SameAt first third parent child i := by
  refine ⟨two.parentDir.trans one.parentDir, two.childDir.trans one.childDir, fun present => ?_,
    fun present => ?_⟩
  · have later := two.parentTable (one.parentDir.symm ▸ present)
    rw [one.parentDir] at later
    exact later.trans (one.parentTable present)
  · have later := two.childTable (one.childDir.symm ▸ present)
    rw [one.childDir] at later
    exact later.trans (one.childTable present)

/-- A table is cloned, and then left alone. -/
theorem ClonedAt.then_same (one : ClonedAt first second parent child i)
    (two : SameAt second third parent child i) : ClonedAt first third parent child i := by
  have parentTable : (first.directory parent i).present →
      third.table (first.directory parent i).frame = second.table (first.directory parent i).frame := by
    intro present
    have later := two.parentTable (one.parentDir.symm ▸ present)
    rwa [one.parentDir] at later
  have childTable : (first.directory parent i).present →
      third.table (second.directory child i).frame = second.table (second.directory child i).frame := by
    intro present
    refine two.childTable ?_
    rw [one.flags present]
    exact present
  constructor
  case parentDir => exact two.parentDir.trans one.parentDir
  case present => exact fun present => one.present (two.childDir ▸ present)
  case flags => exact fun present => by rw [two.childDir]; exact one.flags present
  case parentTable =>
    intro present j
    rw [parentTable present]
    exact one.parentTable present j
  case childTable =>
    intro present j mapped
    rw [two.childDir, childTable present]
    exact one.childTable present j mapped
  case childAbsent =>
    intro present j mapped
    rw [two.childDir, childTable present]
    exact one.childAbsent present j mapped

/-- A table is left alone, and then cloned. -/
theorem SameAt.then_cloned (one : SameAt first second parent child i)
    (two : ClonedAt second third parent child i) : ClonedAt first third parent child i := by
  obtain ⟨parentDir, present, flags, parentTable, childTable, childAbsent⟩ := two
  rw [one.parentDir] at parentDir present flags parentTable childTable childAbsent
  constructor
  case parentDir => exact parentDir
  case present => exact present
  case flags => exact flags
  case parentTable =>
    intro isPresent j
    rw [parentTable isPresent, one.parentTable isPresent]
  case childTable =>
    intro isPresent j mapped
    have same := congrFun (one.parentTable isPresent) j
    rw [childTable isPresent j (by rw [same, mapped]), same]
  case childAbsent =>
    intro isPresent j mapped
    have same := congrFun (one.parentTable isPresent) j
    exact childAbsent isPresent j (by rw [same, mapped])

/-- Two present entries of user halves do not share a table. -/
theorem Sound.table_ne {i' : Nat} (sound : Sound s) (live : s.live d)
    (live' : s.live d') (user : i < kernelIndex) (user' : i' < kernelIndex)
    (present : (s.vm.directory d i).present)
    (present' : (s.vm.directory d' i').present) (other : d ≠ d' ∨ i ≠ i') :
    (s.vm.directory d i).frame ≠ (s.vm.directory d' i').frame := by
  intro same
  have one := Refers.table live user present
  rw [same] at one
  cases sound.role one (.table live' user' present')
  simp at other

theorem Sound.table_ne_free {f : Nat} (sound : Sound s) (live : s.live d)
    (user : i < kernelIndex) (present : (s.vm.directory d i).present)
    (free : s.vm.used f = false) : (s.vm.directory d i).frame ≠ f := by
  rintro rfl
  exact sound.not_refers free _ (.table live user present)

/-- The memory with another entry for an address. -/
def Vm.withEntry (vm : Vm) (dir virt : Nat) (pte : Pte) : Vm :=
  { vm with
    table := setEntry vm.table (vm.directory dir (dirIndex virt)).frame (tableIndex virt) pte }

theorem dirIndex_lt (user : virt < kernelBase) : dirIndex virt < kernelIndex := by
  unfold dirIndex kernelIndex
  unfold kernelBase at user
  omega

/-- The page of an address is given by its two indices. -/
theorem page_eq_iff :
    virt / pageSize = virt' / pageSize ↔
      dirIndex virt = dirIndex virt' ∧ tableIndex virt = tableIndex virt' := by
  unfold dirIndex tableIndex pageSize
  omega

/-- No other entry of a directory has the table, so that the entries of other pages are as
they were. -/
theorem Sound.entry_withEntry_of_ne (sound : Sound s) (live : s.live d)
    (live' : s.live d') (user : virt < kernelBase) (user' : virt' < kernelBase)
    (present : (s.vm.directory d (dirIndex virt)).present)
    (present' : (s.vm.directory d' (dirIndex virt')).present)
    (other : ¬ (d' = d ∧ virt' / pageSize = virt / pageSize)) :
    (s.vm.withEntry d virt pte).entry d' virt' = s.vm.entry d' virt' := by
  refine setEntry_of_ne _ _ ?_
  by_cases sameTable : d' = d ∧ dirIndex virt' = dirIndex virt
  · refine .inr fun sameIndex => other ⟨sameTable.1, ?_⟩
    exact page_eq_iff.mpr ⟨sameTable.2, sameIndex⟩
  · exact .inl (sound.table_ne live' live (dirIndex_lt user') (dirIndex_lt user) present' present
      (not_and_or.mp sameTable))

theorem Vm.entry_withEntry_self (same : virt' / pageSize = virt / pageSize) :
    (vm.withEntry d virt pte).entry d virt' = pte := by
  obtain ⟨dir, table⟩ := page_eq_iff.mp same
  simp [Vm.entry, Vm.withEntry, dir, table, setEntry_self]

section

variable (liveParent : s.live parent) (liveChild : s.live child) (apart : parent ≠ child)
include liveParent liveChild apart

theorem cloneTable_spec (sound : Sound s) (user : i < kernelIndex)
    (empty : (s.vm.directory child i).present = false)
    (cloned : cloneTable s.vm child parent i = (vm, true)) :
    ClonedAt s.vm vm parent child i ∧ ∀ k < kernelIndex, k ≠ i → SameAt s.vm vm parent child k := by
  rcases cloneTable_cases s.vm child parent i with ⟨absent, same⟩ | ⟨used, fails, -⟩ |
    ⟨t, present, free, clones⟩
  · rw [same] at cloned
    obtain ⟨rfl, -⟩ := cloned
    refine ⟨⟨rfl, ?_, ?_, ?_, ?_, ?_⟩, fun k _ _ => SameAt.refl⟩
    · simp [empty]
    all_goals simp [absent]
  · rw [fails] at cloned
    cases cloned
  · rw [clones] at cloned
    obtain ⟨rfl, -⟩ := cloned
    have notNew := sound.table_ne_free liveParent user present free
    refine ⟨⟨setEntry_of_ne _ _ (.inl apart), fun _ => present, fun _ => ?_, fun _ j => ?_,
      fun _ j mapped => ?_, fun _ j mapped => ?_⟩, fun k below other =>
        ⟨setEntry_of_ne _ _ (.inl apart), setEntry_of_ne _ _ (.inr other), fun presentK => ?_,
          fun presentK => ?_⟩⟩
    · simp [setEntry_self]
    · simp [notNew]
    · simp [setEntry_self, mapped]
    · simp [setEntry_self, mapped, Pte.absent]
    · have notThis := sound.table_ne liveParent liveParent below user presentK present (.inr other)
      have notFresh := sound.table_ne_free liveParent below presentK free
      simp [notThis, notFresh]
    · have notThis := sound.table_ne liveChild liveParent below user presentK present (.inr other)
      have notFresh := sound.table_ne_free liveChild below presentK free
      simp [notThis, notFresh]

theorem cloneTables_spec :
    ∀ (indices : List Nat) (vm vm' : Vm), Sound (s.withVm vm) → indices.Nodup →
      (∀ i ∈ indices, i < kernelIndex) → (∀ i ∈ indices, (vm.directory child i).present = false) →
      cloneTables child parent indices vm = (vm', true) →
      (∀ i ∈ indices, ClonedAt vm vm' parent child i) ∧
        ∀ i < kernelIndex, i ∉ indices → SameAt vm vm' parent child i := by
  intro indices
  induction indices with
  | nil =>
    intro vm vm' _ _ _ _ cloned
    obtain ⟨rfl, -⟩ := Prod.mk.inj cloned
    exact ⟨nofun, fun i _ _ => SameAt.refl⟩
  | cons i rest ih =>
    intro vm vm' sound nodup user empty cloned
    obtain ⟨notAgain, nodupRest⟩ := nodup_cons.mp nodup
    have userRest := (forall_mem_cons.mp user).2
    unfold cloneTables at cloned
    split at cloned
    case h_2 => cases cloned
    case h_1 vm₁ first =>
      have userI := user i mem_cons_self
      obtain ⟨here, others⟩ := cloneTable_spec (s := s.withVm vm) liveParent liveChild apart sound
        userI (empty i mem_cons_self) first
      have sound₁ : Sound (s.withVm vm₁) := by
        have kept : Sound (s.withVm (cloneTable vm child parent i).1) :=
          sound.cloneTable child liveParent userI
        rw [first] at kept
        exact kept
      have elsewhere : ∀ k ∈ rest, SameAt vm vm₁ parent child k := fun k member =>
        others k (userRest k member) fun same => notAgain (same ▸ member)
      have emptyRest : ∀ k ∈ rest, (vm₁.directory child k).present = false := fun k member => by
        rw [(elsewhere k member).childDir]
        exact empty k (mem_cons_of_mem i member)
      obtain ⟨later, alone⟩ := ih vm₁ vm' sound₁ nodupRest userRest emptyRest cloned
      refine ⟨fun k member => ?_, fun k below notMember => ?_⟩
      · rcases mem_cons.mp member with rfl | member
        · exact here.then_same (alone k userI notAgain)
        · exact (elsewhere k member).then_cloned (later k member)
      · obtain ⟨notI, notRest⟩ := not_or.mp (mem_cons.not.mp notMember)
        exact (others k below notI).trans (alone k below notRest)

/-- `vmm_clone_address_space` into an empty address space clones every table of the user
half. -/
theorem cloneSpace_spec (sound : Sound s)
    (empty : ∀ i < kernelIndex, (s.vm.directory child i).present = false)
    (cloned : vmmCloneAddressSpace s.vm child parent = (vm, true)) :
    ∀ i < kernelIndex, ClonedAt s.vm vm parent child i := by
  unfold vmmCloneAddressSpace at cloned
  split at cloned
  case h_1 => cases cloned
  case h_2 vm₁ tables =>
    obtain ⟨rfl, -⟩ := Prod.mk.inj cloned
    intro i user
    obtain ⟨all, -⟩ := cloneTables_spec liveParent liveChild apart _ s.vm vm₁ sound
      nodup_range (fun k => mem_range.mp) (fun k member => empty k (mem_range.mp member))
      tables
    have kernelHalf : SameAt vm₁ { vm₁ with directory := Function.update vm₁.directory child fun i =>
        if kernelIndex ≤ i then vm₁.directory parent i else vm₁.directory child i }
        parent child i := by
      refine ⟨?_, ?_, fun _ => rfl, fun _ => rfl⟩
      · simp [apart]
      · simp [Nat.not_le.mpr user]
    exact (all i (mem_range.mpr user)).then_same kernelHalf

end

end FunsOS.Mm
