import FunsOS.Foundation.Ownership
import FunsOS.Foundation.Runs
import FunsOS.Mm.Vmm

/-!
# Who refers to a frame

`Refers s f role` says that the machine refers to frame `f` as a page directory, as
the page table of a directory entry, or as a page of a user entry or of a region.
`Sound s` says that every frame that is referred to is allocated and has one role.

The functions of `vmm.c` and `ipc_shm.c` are looked at one by one: what they refer to
afterwards, and which frames they give back.
-/

set_option autoImplicit false

namespace FunsOS.Mm

open Foundation Function List Pte Option Vm

/-- What a frame is used for. -/
inductive Role where
  | directory
  | kernelDirectory
  | table (dir index : Nat)
  | kernelTable
  | page
  deriving DecidableEq, Repr

/-- The machine refers to the frame in the role. -/
inductive Refers (s : System) : Nat → Role → Prop where
  | directory {dir : Nat} (live : s.live dir) : Refers s dir .directory
  | kernelDirectory : Refers s s.vm.kernelDirectory .kernelDirectory
  | table {dir i : Nat} (live : s.live dir) (user : i < kernelIndex)
      (present : (s.vm.directory dir i).present) :
      Refers s (s.vm.directory dir i).frame (.table dir i)
  | kernelTable {dir i : Nat} (space : s.live dir ∨ dir = s.vm.kernelDirectory)
      (kernel : kernelIndex ≤ i) (present : (s.vm.directory dir i).present) :
      Refers s (s.vm.directory dir i).frame .kernelTable
  | page {dir i j : Nat} (live : s.live dir) (user : i < kernelIndex)
      (present : (s.vm.directory dir i).present) (index : j < 1024)
      (mapped : (s.vm.table (s.vm.directory dir i).frame j).present) :
      Refers s (s.vm.table (s.vm.directory dir i).frame j).frame .page
  | region {slot f : Nat} {region : Region} (found : s.regions slot = some region)
      (member : f ∈ region.pages) : Refers s f .page

/-- Every frame that is referred to is allocated, and has one role. -/
def Sound (s : System) : Prop := Owned (Refers s) fun f => s.vm.used f

variable {s s' : System} {f dir virt : Nat}

/-! ## The page allocator -/

/-- The machine with another memory. -/
def System.withVm (s : System) (vm : Vm) : System := { s with vm }

/-- The two machines refer to the same frames. -/
structure SameReferences (s s' : System) : Prop where
  directory : s'.vm.directory = s.vm.directory
  table : s'.vm.table = s.vm.table
  kernelDirectory : s'.vm.kernelDirectory = s.vm.kernelDirectory
  live : s'.live = s.live
  regions : s'.regions = s.regions

variable {role : Role} {vm vm' : Vm} {c src i t : Nat} {flags : PageFlags} {pte : Pte}

theorem Refers.congr (refer : Refers s' f role) (same : SameReferences s s') : Refers s f role := by
  obtain ⟨⟨total, used, bytes, directory, table, kernel⟩, live, regions, key⟩ := s
  obtain ⟨⟨total', used', bytes', directory', table', kernel'⟩, live', regions', key'⟩ := s'
  obtain ⟨rfl, rfl, rfl, rfl, rfl⟩ := same
  cases refer <;> constructor <;> assumption

/-- More frames are allocated. -/
theorem Sound.grow (sound : Sound s) (same : SameReferences s s')
    (used : ∀ f, s.vm.used f → s'.vm.used f) : Sound s' :=
  sound.shrink (fun _ _ refer => refer.congr same) fun f _ _ => used f

/-- Nothing refers to a free frame. -/
theorem Sound.not_refers (sound : Sound s) (free : s.vm.used f = false) (role : Role) :
    ¬ Refers s f role :=
  Owned.not_refers sound (Bool.eq_false_iff.mp free)

theorem update_of_used {used : Nat → Bool} (held : used c) : update used f true c := by
  by_cases here : c = f
  · rw [here, update_self]
  · rwa [update_of_ne here]

/-- What `pmm_alloc_page` does. -/
theorem pmmAllocPage_cases (vm : Vm) : (∃ used, pmmAllocPage vm = ({ vm with used }, none) ∧
      ∀ f, vm.used f → used f) ∨
    ∃ f, pmmAllocPage vm = ({ vm with used := update vm.used f true }, some f) ∧
      vm.used f = false ∧ f ≠ 0 ∧ f < vm.totalPages := by
  unfold pmmAllocPage
  cases lowest : vm.lowestFree with
  | none => exact .inl ⟨vm.used, rfl, fun _ held => held⟩
  | some f =>
    by_cases zero : f = 0
    · exact .inl ⟨update vm.used f true, by simp [zero], fun _ held => update_of_used held⟩
    · refine .inr ⟨f, by simp [zero], ?_, zero, ?_⟩
      · simpa using List.find?_some lowest
      · simpa using mem_of_find?_eq_some lowest

theorem sameReferences_free (s : System) (f : Nat) :
    SameReferences s (s.withVm (pmmFreePage s.vm f)) := by
  unfold System.withVm pmmFreePage
  split <;> constructor <;> rfl

theorem pmmFreePage_used_of_ne (other : c ≠ f) : (pmmFreePage vm f).used c = vm.used c := by
  unfold pmmFreePage
  split
  · exact update_of_ne other _ _
  · rfl

/-- A frame that nothing refers to may be freed. -/
theorem Sound.free (sound : Sound s) (unshared : ∀ role, ¬ Refers s f role) :
    Sound (s.withVm (pmmFreePage s.vm f)) := by
  have same := sameReferences_free s f
  refine sound.shrink (fun _ _ refer => refer.congr same) fun c role refer held => ?_
  have other : c ≠ f := by
    rintro rfl
    exact unshared role (refer.congr same)
  exact (pmmFreePage_used_of_ne other).trans held

/-- A frame is allocated, and referred to in one role. -/
theorem Sound.extend (sound : Sound s) (role : Role) (free : s.vm.used f = false)
    (used : s'.vm.used = update s.vm.used f true)
    (cases : ∀ c r, Refers s' c r → Refers s c r ∨ (c = f ∧ r = role)) : Sound s' := by
  have grown : Owned (Refers s) fun x => s'.vm.used x :=
    Owned.mono sound fun x held => used ▸ update_of_used held
  refine grown.add (fun c here => ?_) (fun c r here refer => ?_) cases
  · rw [here, used, update_self]
  · have held := sound.held refer
    simp [here, free] at held

/-- A frame is allocated, and not referred to yet. -/
theorem Sound.alloc (sound : Sound s) (free : s.vm.used f = false) :
    Sound (s.withVm { s.vm with used := update s.vm.used f true }) :=
  sound.extend .page free rfl fun _ _ refer => .inl (refer.congr (by constructor <;> rfl))

/-! ## Mapping -/

def tableRole (dir i : Nat) : Role := if i < kernelIndex then .table dir i else .kernelTable

/-- An empty table in a frame that nothing referred to is the only new reference. -/
theorem Refers.of_newTable {pde : Pte} {used : Nat → Bool} (unshared : ∀ role, ¬ Refers s t role)
    (frame : pde.frame = t) (refer : Refers (s.withVm { s.vm with
      used
      table := update s.vm.table t fun _ => .absent
      directory := setEntry s.vm.directory dir i pde }) c role) :
    Refers s c role ∨ (c = t ∧ role = tableRole dir i) := by
  cases refer with
  | directory | kernelDirectory | region => exact .inl (by constructor <;> assumption)
  | @table dir' i' live user present =>
    by_cases here : dir' = dir ∧ i' = i
    · obtain ⟨rfl, rfl⟩ := here
      refine .inr ⟨?_, by rw [tableRole, if_pos user]⟩
      simp only [System.withVm, setEntry_self, frame]
    · have same := setEntry_of_ne s.vm.directory pde (not_and_or.mp here)
      simp only [System.withVm, same] at present ⊢
      exact .inl (.table live user present)
  | @kernelTable dir' i' space kernel present =>
    by_cases here : dir' = dir ∧ i' = i
    · obtain ⟨rfl, rfl⟩ := here
      refine .inr ⟨?_, by rw [tableRole, if_neg (not_lt.mpr kernel)]⟩
      simp only [System.withVm, setEntry_self, frame]
    · have same := setEntry_of_ne s.vm.directory pde (not_and_or.mp here)
      simp only [System.withVm, same] at present ⊢
      exact .inl (.kernelTable space kernel present)
  | @page dir' i' j live user present index mapped =>
    by_cases here : dir' = dir ∧ i' = i
    · obtain ⟨rfl, rfl⟩ := here
      simp [System.withVm, setEntry_self, frame, absent] at mapped
    · have same := setEntry_of_ne s.vm.directory pde (not_and_or.mp here)
      simp only [System.withVm, same] at present mapped ⊢
      have other : (s.vm.directory dir' i').frame ≠ t := by
        rintro rfl
        exact unshared _ (.table live user present)
      rw [update_of_ne other] at mapped ⊢
      exact .inl (.page live user present index mapped)

/-- Setting an entry refers to its frame, and to nothing else that is new. -/
theorem Refers.of_setEntry {j : Nat}
    (refer : Refers (s.withVm { s.vm with table := setEntry s.vm.table t j pte }) c role) :
    Refers s c role ∨ (pte.present ∧ c = pte.frame ∧ role = .page) := by
  cases refer with
  | directory | kernelDirectory | table | kernelTable | region =>
    exact .inl (by constructor <;> assumption)
  | @page dir' i' j' live user present index mapped =>
    simp only [System.withVm] at present mapped ⊢
    by_cases here : (s.vm.directory dir' i').frame = t ∧ j' = j
    · obtain ⟨rfl, rfl⟩ := here
      rw [setEntry_self] at mapped ⊢
      exact .inr ⟨mapped, rfl, trivial⟩
    · have same := setEntry_of_ne s.vm.table pte (not_and_or.mp here)
      rw [same] at mapped ⊢
      exact .inl (.page live user present index mapped)

/-- What `vmm_map_page` does: it finds or makes the table, and sets the entry. -/
theorem vmmMapPage_cases (mapped : vmmMapPage vm dir virt f flags = some vm') :
    ((vm.directory dir (dirIndex virt)).present ∧
      vm' = { vm with
        table := setEntry vm.table (vm.directory dir (dirIndex virt)).frame (tableIndex virt)
          (flags.entry f) }) ∨
    ∃ t, (vm.directory dir (dirIndex virt)).present = false ∧ vm.used t = false ∧
      vm' = { vm with
        used := update vm.used t true
        table := setEntry (update vm.table t fun _ => .absent) t (tableIndex virt) (flags.entry f)
        directory := setEntry vm.directory dir (dirIndex virt)
          ({ flags with writable := true }.entry t) } := by
  unfold vmmMapPage getPageTable createPageTable at mapped
  by_cases present : (vm.directory dir (dirIndex virt)).present
  · simp only [present, if_true, map_some, some.injEq] at mapped
    exact .inl ⟨present, mapped.symm⟩
  · simp only [present, if_false, Bool.false_eq_true] at mapped
    rcases pmmAllocPage_cases vm with ⟨used, alloc, -⟩ | ⟨t, alloc, free, -⟩
    · simp [alloc] at mapped
    · simp only [alloc, map_some, some.injEq] at mapped
      exact .inr ⟨t, Bool.eq_false_iff.mpr present, free, mapped.symm⟩

/-- Frames in use become pages. -/
theorem Sound.addPages (sound : Sound s) (new : Nat → Prop) (held : ∀ c, new c → s.vm.used c)
    (alone : ∀ c role, new c → Refers s c role → role = .page) (used : s'.vm.used = s.vm.used)
    (cases : ∀ c r, Refers s' c r → Refers s c r ∨ (new c ∧ r = .page)) : Sound s' := by
  have added : Owned (Refers s') fun c => s.vm.used c := Owned.add sound held alone cases
  rwa [← used] at added

/-- **`vmm_map_page` of a frame that is used as a page, or not at all.** -/
theorem Sound.mapPage (sound : Sound s) (held : s.vm.used f)
    (alone : ∀ role, Refers s f role → role = .page)
    (mapped : vmmMapPage s.vm dir virt f flags = some vm) : Sound (s.withVm vm) := by
  rcases vmmMapPage_cases mapped with ⟨-, rfl⟩ | ⟨t, -, free, rfl⟩
  · refine sound.addPages (fun c => c = f) (fun c here => here ▸ held)
      (fun c role here refer => alone role (here ▸ refer)) rfl fun c role refer => ?_
    exact refer.of_setEntry.imp id fun added => added.2
  · have unshared := sound.not_refers free
    have other : f ≠ t := by
      rintro rfl
      simp [free] at held
    let made := s.withVm { s.vm with
      used := update s.vm.used t true
      table := update s.vm.table t fun _ => .absent
      directory := setEntry s.vm.directory dir (dirIndex virt)
        ({ flags with writable := true }.entry t) }
    have cases : ∀ c role, Refers made c role →
        Refers s c role ∨ (c = t ∧ role = tableRole dir (dirIndex virt)) := fun c role refer =>
      refer.of_newTable unshared rfl
    have soundMade : Sound made := sound.extend _ free rfl cases
    have aloneMade : ∀ role, Refers made f role → role = .page := by
      intro role refer
      rcases cases f role refer with old | ⟨here, -⟩
      · exact alone role old
      · exact absurd here other
    refine soundMade.addPages (fun c => c = f) (fun c here => here ▸ update_of_used held)
      (fun c role here refer => aloneMade role (here ▸ refer)) rfl fun c role refer => ?_
    exact (Refers.of_setEntry refer).imp id fun added => added.2

/-! ## Unmapping -/

/-- The memory after the entry of an address is cleared. -/
def Vm.clearEntry (vm : Vm) (dir virt : Nat) : Vm :=
  { vm with
    table := setEntry vm.table (vm.directory dir (dirIndex virt)).frame (tableIndex virt) .absent }

def Vm.entry (vm : Vm) (dir virt : Nat) : Pte :=
  vm.table (vm.directory dir (dirIndex virt)).frame (tableIndex virt)

def Vm.mapped (vm : Vm) (dir virt : Nat) : Prop :=
  (vm.directory dir (dirIndex virt)).present ∧ (vm.entry dir virt).present
deriving Decidable

theorem vmmUnmapPage_eq : vmmUnmapPage vm dir virt =
      if vm.mapped dir virt then
        if (vm.entry dir virt).cow then vm.clearEntry dir virt
        else pmmFreePage (vm.clearEntry dir virt) (vm.entry dir virt).frame
      else vm := by
  unfold vmmUnmapPage getPageTable mapped entry clearEntry
  by_cases present : (vm.directory dir (dirIndex virt)).present
  · simp only [present, if_true, true_and]
  · simp only [present, if_false, false_and, Bool.false_eq_true]

/-- An address may be unmapped when its frame is not freed, or nothing else refers to the
frame. -/
def UnmapsSafely (s : System) (dir virt : Nat) : Prop :=
  s.vm.mapped dir virt → (s.vm.entry dir virt).cow = false →
    ∀ role, ¬ Refers (s.withVm (s.vm.clearEntry dir virt)) (s.vm.entry dir virt).frame role

theorem Refers.of_clearEntry (refer : Refers (s.withVm (s.vm.clearEntry dir virt)) c role) :
    Refers s c role := by
  rcases Refers.of_setEntry refer with old | ⟨present, -⟩
  · exact old
  · cases present

/-- `vmm_unmap_page` adds no reference. -/
theorem Refers.of_unmapPage (refer : Refers (s.withVm (vmmUnmapPage s.vm dir virt)) c role) :
    Refers s c role := by
  rw [vmmUnmapPage_eq] at refer
  split at refer
  case isTrue mapped =>
    split at refer
    · exact refer.of_clearEntry
    · exact (refer.congr (sameReferences_free (s.withVm (s.vm.clearEntry dir virt)) _)).of_clearEntry
  case isFalse => exact refer

theorem vmmUnmapPage_used_of_ne (other : vm.mapped dir virt → c ≠ (vm.entry dir virt).frame) :
    (vmmUnmapPage vm dir virt).used c = vm.used c := by
  rw [vmmUnmapPage_eq]
  split
  case isTrue mapped =>
    split
    · rfl
    · exact pmmFreePage_used_of_ne (other mapped)
  case isFalse => rfl

/-- **`vmm_unmap_page`.** -/
theorem Sound.unmapPage (sound : Sound s) (safe : UnmapsSafely s dir virt) :
    Sound (s.withVm (vmmUnmapPage s.vm dir virt)) := by
  rw [vmmUnmapPage_eq]
  have cleared : Sound (s.withVm (s.vm.clearEntry dir virt)) :=
    sound.shrink (fun _ _ refer => refer.of_clearEntry) fun _ _ _ held => held
  split
  case isTrue mapped =>
    cases cow : (s.vm.entry dir virt).cow with
    | true => exact cleared
    | false => exact cleared.free (safe mapped cow)
  case isFalse => exact sound

/-- An address that has just been mapped to a newly allocated frame may be unmapped. -/
theorem UnmapsSafely.of_fresh (sound : Sound s) (alloc : pmmAllocPage s.vm = (vm, some f))
    (mapped : vmmMapPage vm dir virt f flags = some vm') :
    UnmapsSafely (s.withVm vm') dir virt := by
  obtain ⟨free, rfl⟩ : s.vm.used f = false ∧
      vm = { s.vm with used := update s.vm.used f true } := by
    rcases pmmAllocPage_cases s.vm with ⟨used, alloc', -⟩ | ⟨f', alloc', free, -⟩
    · simp [alloc'] at alloc
    · rw [alloc', Prod.mk.injEq, some.injEq] at alloc
      obtain ⟨rfl, rfl⟩ := alloc
      exact ⟨free, rfl⟩
  have unused : ∀ role, ¬ Refers (s.withVm { s.vm with used := update s.vm.used f true }) f role :=
    fun role refer => sound.not_refers free role (refer.congr (by constructor <;> rfl))
  intro _ _ role refer
  rcases vmmMapPage_cases mapped with ⟨-, rfl⟩ | ⟨t, -, freeTable, rfl⟩
  · simp only [System.withVm, clearEntry, entry, setEntry_self, setEntry_setEntry] at refer
    rcases Refers.of_setEntry
      (s := s.withVm { s.vm with used := update s.vm.used f true }) refer with
      old | ⟨present, -⟩
    · exact unused role old
    · cases present
  · simp only [System.withVm, clearEntry, entry, setEntry_self, PageFlags.entry,
      setEntry_setEntry] at refer
    let taken := s.withVm { s.vm with used := update s.vm.used f true }
    have other : f ≠ t := by
      rintro rfl
      simp at freeTable
    have unusedTable : ∀ role, ¬ Refers taken t role := by
      intro role refer
      have freeBefore : s.vm.used t = false :=
        (update_of_ne (Ne.symm other) true s.vm.used).symm.trans freeTable
      exact sound.not_refers freeBefore role (refer.congr (by constructor <;> rfl))
    let made := taken.withVm { taken.vm with
      used := update taken.vm.used t true
      table := update taken.vm.table t fun _ => .absent
      directory := setEntry taken.vm.directory dir (dirIndex virt)
        ({ flags with writable := true }.entry t) }
    rcases Refers.of_setEntry (s := made) refer with old | ⟨present, -⟩
    · rcases Refers.of_newTable unusedTable rfl old with older | ⟨here, -⟩
      · exact unused role older
      · exact other here
    · cases present

/-! ## Address spaces -/

/-- `vmm_create_address_space`. -/
theorem Sound.createSpace (sound : Sound s)
    (created : vmmCreateAddressSpace s.vm = (vm, some dir)) :
    Sound { s with vm, live := update s.live dir true } := by
  unfold vmmCreateAddressSpace at created
  rcases pmmAllocPage_cases s.vm with ⟨used, alloc, -⟩ | ⟨d, alloc, free, -⟩
  · simp [alloc] at created
  · simp only [alloc, Prod.mk.injEq, some.injEq] at created
    obtain ⟨rfl, rfl⟩ := created
    refine sound.extend .directory free rfl fun c role refer => ?_
    cases refer with
    | directory live =>
      by_cases here : c = d
      · exact .inr ⟨here, rfl⟩
      · exact .inl (.directory (by simpa [here] using live))
    | kernelDirectory => exact .inl .kernelDirectory
    | @table dir i live user present =>
      by_cases here : dir = d
      · subst here
        simp [not_le.mpr user, absent] at present
      · simp only [update_of_ne here] at live present ⊢
        exact .inl (.table live user present)
    | @kernelTable dir i space kernel present =>
      by_cases here : dir = d
      · subst here
        simp only [update_self] at present ⊢
        split at present
        case isTrue held =>
          rw [if_pos held]
          exact .inl (.kernelTable (.inr rfl) kernel present)
        case isFalse => cases present
      · simp only [update_of_ne here] at space present ⊢
        exact .inl (.kernelTable space kernel present)
    | @page dir i j live user present index mapped =>
      by_cases here : dir = d
      · subst here
        simp [not_le.mpr user, absent] at present
      · simp only [update_of_ne here] at live present mapped ⊢
        exact .inl (.page live user present index mapped)
    | region found member => exact .inl (.region found member)

@[simp] theorem Pte.shared_present : pte.shared.present = pte.present := by
  unfold shared
  split <;> rfl

@[simp] theorem Pte.shared_frame : pte.shared.frame = pte.frame := by
  unfold shared
  split <;> rfl

theorem cloneTable_cases (vm : Vm) (dst src i : Nat) :
    ((vm.directory src i).present = false ∧ cloneTable vm dst src i = (vm, true)) ∨
    (∃ used, cloneTable vm dst src i = ({ vm with used }, false) ∧ ∀ f, vm.used f → used f) ∨
    ∃ t, (vm.directory src i).present ∧ vm.used t = false ∧
      cloneTable vm dst src i =
        ({ vm with
          used := update vm.used t true
          table := update (update vm.table (vm.directory src i).frame fun j =>
            (vm.table (vm.directory src i).frame j).shared) t fun j =>
              if (vm.table (vm.directory src i).frame j).present then
                (vm.table (vm.directory src i).frame j).shared
              else .absent
          directory := setEntry vm.directory dst i { vm.directory src i with frame := t } },
          true) := by
  unfold cloneTable
  cases present : (vm.directory src i).present with
  | false => exact .inl ⟨rfl, by simp [present]⟩
  | true =>
    rcases pmmAllocPage_cases vm with ⟨used, alloc, more⟩ | ⟨t, alloc, free, -⟩
    · exact .inr (.inl ⟨used, by simp [present, alloc], more⟩)
    · exact .inr (.inr ⟨t, rfl, free, by simp [present, alloc]⟩)

section

variable (sound : Sound s) (dst : Nat) (liveSrc : s.live src)
include sound dst liveSrc

theorem Sound.cloneTable (user : i < kernelIndex) :
    Sound (s.withVm (cloneTable s.vm dst src i).1) := by
  rcases cloneTable_cases s.vm dst src i with ⟨-, same⟩ | ⟨used, fails, more⟩ |
    ⟨t, presentSrc, free, clones⟩
  · rw [same]
    exact sound
  · rw [fails]
    exact sound.grow (by constructor <;> rfl) more
  · rw [clones]
    have unshared := sound.not_refers free
    refine sound.extend (.table dst i) free rfl fun c role refer => ?_
    cases refer with
    | directory | kernelDirectory | region => exact .inl (by constructor <;> assumption)
    | @table dir' i' live user' present =>
      simp only [System.withVm] at live present ⊢
      by_cases here : dir' = dst ∧ i' = i
      · obtain ⟨rfl, rfl⟩ := here
        rw [setEntry_self]
        exact .inr ⟨rfl, rfl⟩
      · rw [setEntry_of_ne _ _ (not_and_or.mp here)] at present ⊢
        exact .inl (.table live user' present)
    | @kernelTable dir' i' space kernel present =>
      simp only [System.withVm] at space present ⊢
      have other : i' ≠ i := by omega
      rw [setEntry_of_ne _ _ (.inr other)] at present ⊢
      exact .inl (.kernelTable space kernel present)
    | @page dir' i' j live user' present index mapped =>
      simp only [System.withVm] at live present mapped ⊢
      by_cases here : dir' = dst ∧ i' = i
      · obtain ⟨rfl, rfl⟩ := here
        rw [setEntry_self] at mapped ⊢
        simp only [update_self] at mapped ⊢
        split at mapped
        case isTrue old =>
          rw [if_pos old, shared_frame]
          exact .inl (.page liveSrc user presentSrc index old)
        case isFalse => cases mapped
      · rw [setEntry_of_ne _ _ (not_and_or.mp here)] at present mapped ⊢
        have other : (s.vm.directory dir' i').frame ≠ t := by
          rintro rfl
          exact unshared _ (.table live user' present)
        rw [update_of_ne other] at mapped ⊢
        by_cases inSrc : (s.vm.directory dir' i').frame = (s.vm.directory src i).frame
        · rw [inSrc, update_self, shared_present, ← inSrc] at mapped
          rw [inSrc, update_self, shared_frame, ← inSrc]
          exact .inl (.page live user' present index mapped)
        · rw [update_of_ne inSrc] at mapped ⊢
          exact .inl (.page live user' present index mapped)

theorem Sound.cloneTables {indices : List Nat} (user : ∀ i ∈ indices, i < kernelIndex) :
    Sound (s.withVm (cloneTables dst src indices s.vm).1) := by
  induction indices generalizing s with
  | nil => exact sound
  | cons i rest ih =>
    have one := sound.cloneTable dst liveSrc (user i mem_cons_self)
    rw [Mm.cloneTables]
    split
    case h_1 vm cloned =>
      rw [cloned] at one
      exact ih one liveSrc (forall_mem_cons.mp user).2
    case h_2 vm cloned =>
      rw [cloned] at one
      exact one

/-- **`vmm_clone_address_space`.** -/
theorem Sound.cloneSpace : Sound (s.withVm (vmmCloneAddressSpace s.vm dst src).1) := by
  have tables := sound.cloneTables dst liveSrc fun i (member : i ∈ range kernelIndex) =>
    mem_range.mp member
  unfold vmmCloneAddressSpace
  split
  case h_1 vm cloned =>
    rw [cloned] at tables
    exact tables
  case h_2 vm cloned =>
    rw [cloned] at tables
    have same {dir' i : Nat} (user : i < kernelIndex) : update vm.directory dst (fun j =>
        if kernelIndex ≤ j then vm.directory src j else vm.directory dst j) dir' i =
          vm.directory dir' i := by
      by_cases here : dir' = dst
      · rw [here, update_self, if_neg (not_le.mpr user)]
      · rw [update_of_ne here]
    refine Owned.shrink tables (fun c role refer => ?_) fun _ _ _ held => held
    cases refer with
    | directory | kernelDirectory | region => constructor <;> assumption
    | table live user present =>
      simp only [System.withVm, same user] at live present ⊢
      exact .table live user present
    | @kernelTable dir' i space kernel present =>
      simp only [System.withVm] at space present ⊢
      by_cases here : dir' = dst
      · subst here
        simp only [update_self, if_pos kernel] at present ⊢
        exact .kernelTable (.inl liveSrc) kernel present
      · rw [update_of_ne here] at present ⊢
        exact .kernelTable space kernel present
    | page live user present index mapped =>
      simp only [System.withVm, same user] at live present mapped ⊢
      exact .page live user present index mapped

end

end FunsOS.Mm
