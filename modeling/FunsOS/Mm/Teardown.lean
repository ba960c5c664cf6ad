import FunsOS.Mm.Frames

/-!
# Giving frames back

The operations that free frames: the copy at a write fault, the destruction of an
address space, and the shared-memory calls. Each keeps the references sound when the
frames it gives back are referred to by nothing else. The conditions `UnmapsSafely`,
`DestroysSafely` and `DetachesSafely` say this of the state an operation starts from.
-/

set_option autoImplicit false

namespace FunsOS.Mm

open Foundation Function List Option

variable {s s' : System} {f dir virt : Nat}

/-! ## Copying a page at a write fault -/

/-- A frame may be allocated and filled; references stay as they are. -/
theorem UnmapsSafely.congr (safe : UnmapsSafely s dir virt) (same : SameReferences s s') :
    UnmapsSafely s' dir virt := by
  intro mapped cow role refer
  have entry : s'.vm.entry dir virt = s.vm.entry dir virt := by
    rw [Vm.entry, Vm.entry, same.directory, same.table]
  have mapped' : s.vm.mapped dir virt := by
    rwa [Vm.mapped, entry, same.directory] at mapped
  rw [entry] at cow refer
  refine safe mapped' cow role (refer.congr ⟨same.directory, ?_, same.kernelDirectory, same.live,
    same.regions⟩)
  simp only [System.withVm, Vm.clearEntry, same.directory, same.table]

/-- The page of a mapped user address of a live address space is referred to. -/
theorem Vm.mapped.refers (mapped : s.vm.mapped dir virt) (live : s.live dir)
    (user : dirIndex virt < kernelIndex) : Refers s (s.vm.entry dir virt).frame .page :=
  .page live user mapped.1 (Nat.mod_lt _ (by decide)) mapped.2

variable {vm : Vm} {ok : Bool} {slot key : Nat} {region : Region} {pages : List Nat}

theorem Sound.copyPage (sound : Sound s) (live : s.live dir)
    (user : dirIndex (virt / pageSize * pageSize) < kernelIndex)
    (safe : UnmapsSafely s dir (virt / pageSize * pageSize))
    (copied : vmmCopyPageFaultCow s.vm dir virt = some (vm, ok)) : Sound (s.withVm vm) := by
  unfold vmmCopyPageFaultCow at copied
  rcases pmmAllocPage_cases s.vm with ⟨used, alloc, more⟩ | ⟨new, alloc, free, -⟩
  · simp only [alloc, some.injEq, Prod.mk.injEq] at copied
    obtain ⟨rfl, -⟩ := copied
    exact sound.grow (by constructor <;> rfl) more
  · simp only [alloc, map_eq_some_iff, Prod.mk.injEq] at copied
    obtain ⟨vm', mapped, rfl, -⟩ := copied
    generalize virt / pageSize * pageSize = addr at *
    let filled : System := s.withVm { s.vm with
      used := update s.vm.used new true
      bytes := update s.vm.bytes new (s.vm.bytes (vmmGetPhysical s.vm dir addr / pageSize)) }
    have same : SameReferences s filled := by constructor <;> rfl
    have unused := sound.not_refers free
    have soundFilled : Sound filled := sound.grow same fun _ held => update_of_used held
    have unmapped : Sound (filled.withVm (vmmUnmapPage filled.vm dir addr)) :=
      soundFilled.unmapPage (safe.congr same)
    -- the frame that may be freed was referred to, so it is not the new one
    have held : (vmmUnmapPage filled.vm dir addr).used new := by
      rw [vmmUnmapPage_used_of_ne]
      · exact update_self _ _ _
      · intro isMapped here
        have refer : Refers s (filled.vm.entry dir addr).frame .page :=
          Vm.mapped.refers isMapped live user
        exact unused .page (here ▸ refer)
    refine unmapped.mapPage held (fun role refer => ?_) mapped
    exact absurd (refer.of_unmapPage.congr same) (unused role)

/-- **`vmm_handle_page_fault` on a write to a present user page.** -/
theorem Sound.writeFault (sound : Sound s) (live : s.live dir) (user : virt < kernelBase)
    (safe : (vmmGetPhysical s.vm dir virt).testBit 9 →
      UnmapsSafely s dir (virt / pageSize * pageSize))
    (handled : vmmHandleWriteFault s.vm dir virt = some (vm, ok)) : Sound (s.withVm vm) := by
  unfold vmmHandleWriteFault at handled
  split at handled
  case isTrue tested =>
    refine sound.copyPage live ?_ (safe tested) handled
    unfold dirIndex pageSize kernelIndex kernelBase at *
    omega
  case isFalse =>
    cases handled
    exact sound

/-! ## Destroying an address space -/

/-- The machine once the address space is no longer live. -/
def System.withoutSpace (s : System) (dir : Nat) : System :=
  { s with live := Function.update s.live dir false }

/-- What is referred to without the address space: neither its directory nor its
tables. -/
theorem Refers.of_withoutSpace {c : Nat} {role : Role} (refer : Refers (s.withoutSpace dir) c role) :
    Refers s c role ∧ (role = .directory → c ≠ dir) ∧ ∀ i, role ≠ .table dir i := by
  have alive : ∀ {x}, (s.withoutSpace dir).live x → s.live x ∧ x ≠ dir := by
    intro x live
    by_cases here : x = dir
    · subst here
      simp [System.withoutSpace] at live
    · exact ⟨by simpa [System.withoutSpace, here] using live, here⟩
  cases refer with
  | directory live => exact ⟨.directory (alive live).1, fun _ => (alive live).2, nofun⟩
  | kernelDirectory => exact ⟨.kernelDirectory, nofun, nofun⟩
  | table live user present =>
    refine ⟨.table (alive live).1 user present, nofun, fun i same => ?_⟩
    cases same
    exact (alive live).2 rfl
  | kernelTable space kernel present =>
    exact ⟨.kernelTable (space.imp (fun live => (alive live).1) id) kernel present, nofun, nofun⟩
  | page live user present index mapped =>
    exact ⟨.page (alive live).1 user present index mapped, nofun, nofun⟩
  | region found member => exact ⟨.region found member, nofun, nofun⟩

/-- The memory while the address space is torn down: frames that nothing refers to have
been freed, and entries of its directory cleared. -/
structure Tearing (t : System) (dir : Nat) (vm : Vm) : Prop where
  sound : Sound (t.withVm vm)
  refers : ∀ c role, Refers (t.withVm vm) c role → Refers t c role
  table : vm.table = t.vm.table
  kernelDirectory : vm.kernelDirectory = t.vm.kernelDirectory
  directory : ∀ i, vm.directory dir i = t.vm.directory dir i ∨ vm.directory dir i = .absent

variable {t : System}

theorem pmmFreePage_eq (vm : Vm) (f : Nat) : ∃ used, pmmFreePage vm f = { vm with used } := by
  unfold pmmFreePage
  split
  · exact ⟨_, rfl⟩
  · exact ⟨vm.used, rfl⟩

theorem Tearing.free (tearing : Tearing t dir vm) (unshared : ∀ role, ¬ Refers t f role) :
    Tearing t dir (pmmFreePage vm f) := by
  have same := sameReferences_free (t.withVm vm) f
  obtain ⟨used, eq⟩ := pmmFreePage_eq vm f
  refine ⟨?_, fun c role refer => tearing.refers c role (refer.congr same), ?_, ?_, ?_⟩
  · exact tearing.sound.free fun role refer => unshared role (tearing.refers f role refer)
  · rw [eq]
    exact tearing.table
  · rw [eq]
    exact tearing.kernelDirectory
  · rw [eq]
    exact tearing.directory

theorem Tearing.clear (tearing : Tearing t dir vm) (dead : t.live dir = false)
    (notKernel : t.vm.kernelDirectory ≠ dir) {i : Nat} :
    Tearing t dir { vm with directory := setEntry vm.directory dir i .absent } := by
  have fewer : ∀ c role,
      Refers (t.withVm { vm with directory := setEntry vm.directory dir i .absent }) c role →
        Refers (t.withVm vm) c role := by
    have other : ∀ {x k}, t.live x ∨ x = vm.kernelDirectory →
        setEntry vm.directory dir i .absent x k = vm.directory x k := by
      intro x k space
      refine setEntry_of_ne _ _ (.inl ?_)
      rintro rfl
      rcases space with live | same
      · simp [dead] at live
      · exact notKernel (tearing.kernelDirectory.symm.trans same.symm)
    intro c role refer
    cases refer with
    | directory | kernelDirectory | region => constructor <;> assumption
    | table live user present =>
      simp only [System.withVm, other (.inl live)] at present ⊢
      exact .table live user present
    | kernelTable space kernel present =>
      simp only [System.withVm, other space] at present ⊢
      exact .kernelTable space kernel present
    | page live user present index mapped =>
      simp only [System.withVm, other (.inl live)] at present mapped ⊢
      exact .page live user present index mapped
  refine ⟨tearing.sound.shrink fewer fun _ _ _ held => held,
    fun c role refer => tearing.refers c role (fewer c role refer), tearing.table,
    tearing.kernelDirectory, fun k => ?_⟩
  by_cases here : k = i
  · subst here
    exact .inr (setEntry_self _)
  · have same : setEntry vm.directory dir i .absent dir k = vm.directory dir k :=
      setEntry_of_ne _ _ (.inr here)
    exact (tearing.directory k).imp same.trans same.trans

/-- The pages of the address space are referred to by nothing else. -/
def DestroysSafely (s : System) (dir : Nat) : Prop :=
  ∀ i < kernelIndex, (s.vm.directory dir i).present → ∀ j < 1024,
    (s.vm.table (s.vm.directory dir i).frame j).present → ∀ role,
      ¬ Refers (s.withoutSpace dir) (s.vm.table (s.vm.directory dir i).frame j).frame role

/-- **`vmm_destroy_address_space`.** -/
theorem Sound.destroySpace (sound : Sound s) (live : s.live dir) (safe : DestroysSafely s dir) :
    Sound ((s.withoutSpace dir).withVm (vmmDestroyAddressSpace s.vm dir)) := by
  have dead : (s.withoutSpace dir).live dir = false := update_self _ _ _
  have notKernel : (s.withoutSpace dir).vm.kernelDirectory ≠ dir := by
    intro same
    have kernel : Refers s dir .kernelDirectory := same ▸ .kernelDirectory
    cases sound.role (.directory live) kernel
  have ownDirectory : ∀ role, ¬ Refers (s.withoutSpace dir) dir role := by
    intro role refer
    obtain ⟨old, notSelf, -⟩ := refer.of_withoutSpace
    exact notSelf (sound.role old (.directory live)) rfl
  have ownTable : ∀ i < kernelIndex, (s.vm.directory dir i).present → ∀ role,
      ¬ Refers (s.withoutSpace dir) (s.vm.directory dir i).frame role := by
    intro i user present role refer
    obtain ⟨old, -, notOwn⟩ := refer.of_withoutSpace
    exact notOwn i (sound.role old (.table live user present))
  have start : Tearing (s.withoutSpace dir) dir s.vm :=
    ⟨sound.shrink (fun _ _ refer => refer.of_withoutSpace.1) fun _ _ _ held => held,
      fun _ _ refer => refer, rfl, rfl, fun _ => .inl rfl⟩
  have torn : Tearing (s.withoutSpace dir) dir
      ((range kernelIndex).foldl (destroyTable dir) s.vm) := by
    refine foldl_invariant_of_mem (fun vm i member tearing => ?_) start
    have user := mem_range.mp member
    unfold destroyTable
    dsimp only
    split
    case isFalse => exact tearing
    case isTrue present =>
      have same : vm.directory dir i = s.vm.directory dir i := by
        rcases tearing.directory i with same | absent
        · exact same
        · simp [absent, Pte.absent] at present
      rw [same] at present ⊢
      refine Tearing.clear (Tearing.free ?_ (ownTable i user present)) dead notKernel
      refine foldl_invariant_of_mem (fun vm j index tearing => ?_) tearing
      unfold freeEntry
      split
      case isFalse => exact tearing
      case isTrue mapped =>
        rw [tearing.table] at mapped ⊢
        exact tearing.free (safe i user present j (mem_range.mp index) mapped)
  exact (torn.free ownDirectory).sound

/-! ## Shared memory -/

/-- Freeing frames leaves the others as they are. -/
theorem foldl_pmmFreePage (vm : Vm) (pages : List Nat) :
    ∃ used, pages.foldl pmmFreePage vm = { vm with used } ∧
      ∀ f ∉ pages, used f = vm.used f := by
  induction pages generalizing vm with
  | nil => exact ⟨vm.used, rfl, fun _ _ => rfl⟩
  | cons page rest ih =>
    obtain ⟨used, eq⟩ := pmmFreePage_eq vm page
    obtain ⟨used', eq', same⟩ := ih (pmmFreePage vm page)
    refine ⟨used', by rw [foldl_cons, eq', eq], fun f outside => ?_⟩
    rw [mem_cons, not_or] at outside
    rw [same f outside.2, pmmFreePage_used_of_ne outside.1]

/-- The pages that `shm_create` has allocated were free at its start, in `base`; what was
allocated then still is. -/
theorem shmAllocPages_cases (base : Nat → Bool) (n : Nat) (pages : List Nat) (vm : Vm)
    (kept : ∀ f, base f → vm.used f)
    (new : ∀ f ∈ pages, base f = false ∧ vm.used f) :
    ∃ used, (shmAllocPages n pages vm).1 = { vm with used } ∧ (∀ f, base f → used f) ∧
      ∀ all, (shmAllocPages n pages vm).2 = some all → ∀ f ∈ all, base f = false ∧ used f := by
  induction n generalizing pages vm with
  | zero =>
    refine ⟨vm.used, rfl, kept, fun all result => ?_⟩
    cases result
    exact new
  | succ n ih =>
    rw [shmAllocPages]
    rcases pmmAllocPage_cases vm with ⟨used, alloc, more⟩ | ⟨page, alloc, free, -⟩
    · simp only [alloc]
      obtain ⟨used', eq, same⟩ := foldl_pmmFreePage { vm with used } pages
      refine ⟨used', eq, fun f held => ?_, nofun⟩
      have outside : f ∉ pages := fun member => by simp [(new f member).1] at held
      rw [same f outside]
      exact more f (kept f held)
    · simp only [alloc]
      obtain ⟨used', eq, kept', new'⟩ := ih (pages ++ [page])
        { vm with used := update vm.used page true }
        (fun f held => update_of_used (kept f held)) (by
          intro f member
          rcases mem_append.mp member with old | last
          · exact ⟨(new f old).1, update_of_used (new f old).2⟩
          · cases mem_singleton.mp last
            refine ⟨?_, update_self _ _ _⟩
            cases held : base page with
            | false => rfl
            | true => simp [kept page held] at free)
      exact ⟨used', eq, kept', new'⟩

section

variable (sound : Sound s)
include sound

/-- The count of a region may change, or the region go. -/
theorem Sound.setRegion {after : Option Region} (found : s.regions slot = some region)
    (fewer : ∀ kept, after = some kept → kept.pages = region.pages) :
    Sound { s with regions := update s.regions slot after } := by
  refine Owned.shrink sound (fun c role refer => ?_) fun _ _ _ held => held
  cases refer with
  | directory | kernelDirectory | table | kernelTable | page => constructor <;> assumption
  | @region slot' f kept at' member =>
    by_cases here : slot' = slot
    · subst here
      simp only [update_self] at at'
      rw [fewer kept at'] at member
      exact .region found member
    · simp only [update_of_ne here] at at'
      exact .region at' member

/-- **`shm_create`.** -/
theorem Sound.shmCreate {size : Nat} {readOnly heapOk : Bool} :
    Sound (shmCreate s size readOnly heapOk) := by
  unfold Mm.shmCreate
  split
  case isFalse => exact sound
  case isTrue =>
    obtain ⟨used, eq, kept, new⟩ := shmAllocPages_cases s.vm.used
      (add32 size (pageSize - 1) / pageSize) [] s.vm (fun _ held => held) (by simp)
    have grown : Sound (s.withVm { s.vm with used }) :=
      sound.grow (by constructor <;> rfl) kept
    split
    case h_1 vm result =>
      rw [result] at eq
      rw [show vm = _ from eq]
      exact grown
    case h_2 vm pages result =>
      rw [result] at eq new
      rw [show vm = _ from eq]
      have allNew := new pages rfl
      dsimp only
      split
      case h_1 =>
        obtain ⟨used', eq', same⟩ := foldl_pmmFreePage { s.vm with used } pages
        rw [eq']
        refine sound.grow (by constructor <;> rfl) fun f held => ?_
        have outside : f ∉ pages := fun member => by simp [(allNew f member).1] at held
        exact (same f outside).trans (kept f held)
      case h_2 slot found =>
        refine grown.addPages (fun f => f ∈ pages) (fun f member => (allNew f member).2)
          (fun f role member refer => ?_) rfl fun f role refer => ?_
        · have held := sound.held (refer.congr (by constructor <;> rfl))
          simp [(allNew f member).1] at held
        · cases refer with
          | directory | kernelDirectory | table | kernelTable | page =>
            exact .inl (by constructor <;> assumption)
          | @region slot' f region at' member =>
            by_cases here : slot' = slot
            · subst here
              simp only [update_self, some.injEq] at at'
              subst at'
              exact .inr ⟨member, rfl⟩
            · simp only [update_of_ne here] at at'
              exact .inl (.region at' member)

theorem Sound.shmMapPages {flags : PageFlags} {n : Nat} (found : s.regions slot = some region)
    (subset : ∀ f ∈ pages, f ∈ region.pages)
    (mapped : shmMapPages dir virt flags n pages s.vm = some vm) : Sound (s.withVm vm) := by
  induction pages generalizing s n with
  | nil =>
    cases mapped
    exact sound
  | cons f rest ih =>
    obtain ⟨vm', first, others⟩ := bind_eq_some_iff.mp mapped
    have refer : Refers s f .page := .region found (subset f mem_cons_self)
    have sound' := sound.mapPage (sound.held refer) (fun role old => sound.role old refer) first
    exact ih (s := s.withVm vm') sound' found (forall_mem_cons.mp subset).2 others

/-- **`shm_attach`.** -/
theorem Sound.shmAttach (attached : shmAttach s key dir = some s') : Sound s' := by
  unfold Mm.shmAttach at attached
  split at attached
  case h_1 =>
    cases attached
    exact sound
  case h_2 slot _ =>
    split at attached
    case h_1 =>
      cases attached
      exact sound
    case h_2 region found =>
      obtain ⟨vm, mapped, rfl⟩ := map_eq_some_iff.mp attached
      have sound' := sound.shmMapPages found (fun _ member => member) mapped
      refine sound'.setRegion found fun kept same => ?_
      cases same
      rfl

def UnmapsAllSafely (dir virt : Nat) : List Nat → System → Prop
  | [], _ => True
  | n :: rest, s =>
    UnmapsSafely s dir (pageAfter virt n) ∧
      UnmapsAllSafely dir virt rest (s.withVm (vmmUnmapPage s.vm dir (pageAfter virt n)))

theorem Sound.shmUnmapPages {numbers : List Nat} (safe : UnmapsAllSafely dir virt numbers s) :
    Sound (s.withVm (shmUnmapPages dir virt numbers s.vm)) := by
  induction numbers generalizing s with
  | nil => exact sound
  | cons n rest ih => exact ih (sound.unmapPage safe.1) safe.2

/-- Frames that nothing refers to may be freed. -/
theorem Sound.freeAll (unshared : ∀ f ∈ pages, ∀ role, ¬ Refers s f role) :
    Sound (s.withVm (pages.foldl pmmFreePage s.vm)) := by
  obtain ⟨used, eq, same⟩ := foldl_pmmFreePage s.vm pages
  rw [eq]
  have references : SameReferences s (s.withVm { s.vm with used }) := by
    constructor <;> rfl
  refine Owned.shrink sound (fun _ _ refer => refer.congr references) fun c role refer held => ?_
  have outside : c ∉ pages := fun member => unshared c member role (refer.congr references)
  exact (same c outside).trans held

/-- The machine without the region, if `shm_detach` is about to release it. -/
def System.detached (s : System) (slot : Nat) (region : Region) : System :=
  if region.refCount - 1 ≤ 0 then { s with regions := Function.update s.regions slot none } else s

/-- Frames that `shm_detach` frees are referred to by nothing else. -/
def DetachesSafely (s : System) (key virt dir : Nat) : Prop :=
  ∀ slot region, s.findRegion key = some slot → s.regions slot = some region →
    UnmapsAllSafely dir virt (range region.pages.length) (s.detached slot region) ∧
      (region.refCount - 1 ≤ 0 → ∀ f ∈ region.pages, ∀ role,
        ¬ Refers ((s.detached slot region).withVm
          (Mm.shmUnmapPages dir virt (range region.pages.length) s.vm)) f role)

/-- **`shm_detach`.** -/
theorem Sound.shmDetach (safe : DetachesSafely s key virt dir) :
    Sound (shmDetach s key virt dir) := by
  unfold Mm.shmDetach
  split
  case h_1 => exact sound
  case h_2 slot isSlot =>
    split
    case h_1 => exact sound
    case h_2 region found =>
      obtain ⟨unmaps, frees⟩ := safe slot region isSlot found
      split
      case isTrue last =>
        rw [System.detached, if_pos last] at unmaps frees
        have dropped : Sound { s with regions := update s.regions slot none } :=
          sound.setRegion found nofun
        exact (dropped.shmUnmapPages unmaps).freeAll (frees last)
      case isFalse more =>
        rw [System.detached, if_neg more] at unmaps
        refine (sound.shmUnmapPages unmaps).setRegion found fun kept same => ?_
        cases same
        rfl

end

/-!
## Mapped frames stay allocated

No frame that a present user entry of a live address space or a live shared-memory
region refers to should be free in the page allocator. Frames are shared by clones and
regions without a count, and `vmm_unmap_page`, `vmm_destroy_address_space` and
`shm_detach` each decide for themselves whether to free. The code does not keep the
property: detaching a region frees its frames while the region is live
(`detach_frees_region`). It keeps it in runs in which the frames that are given back are
not referred to by anything else (`mapped_frames_allocated`).
-/

/-- The frames of present user entries of live address spaces, and of live regions, are
allocated. -/
structure FramesAllocated (s : System) : Prop where
  entries : ∀ dir, s.live dir → ∀ virt < kernelBase, s.vm.mapped dir virt →
    s.vm.used (s.vm.entry dir virt).frame
  regions : ∀ slot region, s.regions slot = some region → ∀ f ∈ region.pages, s.vm.used f

theorem Sound.framesAllocated (sound : Sound s) : FramesAllocated s where
  entries := by
    intro dir live virt user mapped
    refine sound.held (mapped.refers live ?_)
    unfold dirIndex kernelIndex
    unfold kernelBase at user
    omega
  regions := fun _ _ found _ member => sound.held (.region found member)

/-! ## Boot -/

/-- The state after boot: no address space and no region yet; the kernel's directory and
tables are allocated and distinct. -/
structure Booted (s : System) : Prop where
  noSpaces : ∀ dir, s.live dir = false
  noRegions : ∀ slot, s.regions slot = none
  kernel : s.vm.used s.vm.kernelDirectory
  tables : ∀ i, (s.vm.directory s.vm.kernelDirectory i).present →
    (s.vm.directory s.vm.kernelDirectory i).frame ≠ s.vm.kernelDirectory ∧
      s.vm.used (s.vm.directory s.vm.kernelDirectory i).frame

theorem Booted.sound (booted : Booted s) : Sound s := by
  have cases : ∀ {c role}, Refers s c role →
      (c = s.vm.kernelDirectory ∧ role = .kernelDirectory) ∨
        (c ≠ s.vm.kernelDirectory ∧ s.vm.used c ∧ role = .kernelTable) := by
    intro c role refer
    cases refer with
    | directory live | table live | page live => simp [booted.noSpaces] at live
    | kernelDirectory => exact .inl ⟨rfl, rfl⟩
    | kernelTable space kernel present =>
      rcases space with live | rfl
      · simp [booted.noSpaces] at live
      · obtain ⟨other, held⟩ := booted.tables _ present
        exact .inr ⟨other, held, rfl⟩
    | region found member => simp [booted.noRegions] at found
  constructor
  case role =>
    intro c r r' refer refer'
    rcases cases refer with ⟨here, rfl⟩ | ⟨other, -, rfl⟩
    · rcases cases refer' with ⟨-, rfl⟩ | ⟨other, -⟩
      · rfl
      · exact absurd here other
    · rcases cases refer' with ⟨here, -⟩ | ⟨-, -, rfl⟩
      · exact absurd here other
      · rfl
  case held =>
    intro c r refer
    rcases cases refer with ⟨here, -⟩ | ⟨-, held, -⟩
    · exact here ▸ booted.kernel
    · exact held

/-! ## Runs -/

/-- Operations are on live address spaces and on user addresses, and give back only frames
that nothing else refers to. -/
def Careful (s : System) : Op → Prop
  | .createSpace => True
  | .cloneSpace dst src => s.live dst ∧ s.live src
  | .mapFresh dir virt _ => s.live dir ∧ virt < kernelBase
  | .unmap dir virt => s.live dir ∧ virt < kernelBase ∧ UnmapsSafely s dir virt
  | .writeFault dir addr =>
    s.live dir ∧ addr < kernelBase ∧
      ((vmmGetPhysical s.vm dir addr).testBit 9 → UnmapsSafely s dir (addr / pageSize * pageSize))
  | .shmCreate _ _ _ => True
  | .shmAttach _ dir => s.live dir
  | .shmDetach key virt dir => s.live dir ∧ DetachesSafely s key virt dir
  | .destroySpace dir => s.live dir ∧ DestroysSafely s dir

/-- **A careful step keeps the references sound.** -/
theorem Sound.step {op : Op} (sound : Sound s) (careful : Careful s op)
    (stepped : step s op = some s') : Sound s' := by
  cases op with
  | createSpace =>
    simp only [Mm.step] at stepped
    split at stepped
    case h_1 vm created =>
      cases stepped
      unfold vmmCreateAddressSpace at created
      rcases pmmAllocPage_cases s.vm with ⟨used, alloc, more⟩ | ⟨dir, alloc, -⟩
      · simp only [alloc, Prod.mk.injEq, and_true] at created
        rw [← created]
        exact sound.grow (by constructor <;> rfl) more
      · simp [alloc] at created
    case h_2 vm dir created =>
      cases stepped
      exact sound.createSpace created
  | cloneSpace dst src =>
    obtain rfl := some.inj stepped
    exact sound.cloneSpace dst careful.2
  | mapFresh dir virt flags =>
    simp only [Mm.step] at stepped
    rcases pmmAllocPage_cases s.vm with ⟨used, alloc, more⟩ | ⟨f, alloc, free, -⟩
    · simp only [alloc, some.injEq] at stepped
      rw [← stepped]
      exact sound.grow (by constructor <;> rfl) more
    · simp only [alloc] at stepped
      obtain ⟨vm, mapped, rfl⟩ := map_eq_some_iff.mp stepped
      refine (sound.alloc free).mapPage (Function.update_self _ _ _) (fun role refer => ?_) mapped
      have held := sound.held (refer.congr (by constructor <;> rfl))
      simp [free] at held
  | unmap dir virt =>
    cases stepped
    exact sound.unmapPage careful.2.2
  | writeFault dir addr =>
    obtain ⟨⟨vm, ok⟩, handled, rfl⟩ := map_eq_some_iff.mp stepped
    exact sound.writeFault careful.1 careful.2.1 careful.2.2 handled
  | shmCreate size readOnly heapOk =>
    cases stepped
    exact sound.shmCreate
  | shmAttach key dir => exact sound.shmAttach stepped
  | shmDetach key virt dir =>
    cases stepped
    exact sound.shmDetach careful.2
  | destroySpace dir =>
    obtain rfl := some.inj stepped
    exact sound.destroySpace careful.1 careful.2

/-- **Mapped frames stay allocated** in careful runs. -/
theorem mapped_frames_allocated {last : System} {ops : List Op} (booted : Booted s)
    (meets : MeetsPartial step Careful s ops) (ran : runPartial step s ops = some last) :
    FramesAllocated last := by
  have sound : Sound last := meets.invariant_of_some (P := Sound)
    (fun s op next sound careful stepped => sound.step careful stepped) booted.sound ran
  exact sound.framesAllocated

/-! ## Runs from a small machine -/

/-- Sixteen frames, of which 0 and the kernel's page directory 1 are taken. -/
def smallMachine : System where
  vm :=
    { totalPages := 16, used := fun f => decide (f < 2), bytes := fun _ _ => 0
      directory := fun _ _ => .absent, table := fun _ _ => .absent, kernelDirectory := 1 }
  live := fun _ => false
  regions := fun _ => none
  keyCounter := 1

theorem smallMachine_booted : Booted smallMachine :=
  ⟨fun _ => rfl, fun _ => rfl, rfl, fun _ present => by cases present⟩

/-- Create an address space and a region of one page, attach it and detach it: the region
is still live, and its frame is free. -/
theorem detach_frees_region :
    ∃ last, runPartial step smallMachine
        [.createSpace, .shmCreate 4096 false true, .shmAttach 1 2, .shmDetach 1 0x40000000 2] =
          some last ∧
      ¬ FramesAllocated last := by
  refine ⟨_, rfl, fun allocated => ?_⟩
  have held := allocated.regions 0 _ rfl 3 (List.mem_singleton_self 3)
  cases held

/-- A page is mapped and unmapped again. -/
theorem mapped_frames_allocated_after_unmap :
    ∃ last, runPartial step smallMachine
        [.createSpace, .mapFresh 2 0x400000 ⟨true, true, false⟩, .unmap 2 0x400000] = some last ∧
      FramesAllocated last := by
  obtain ⟨last, ran⟩ : ∃ last, runPartial step smallMachine
      [.createSpace, .mapFresh 2 0x400000 ⟨true, true, false⟩, .unmap 2 0x400000] = some last :=
    ⟨_, rfl⟩
  refine ⟨last, ran, mapped_frames_allocated smallMachine_booted ?_ ran⟩
  refine ⟨trivial, fun created first => ?_⟩
  have sound : Sound created := smallMachine_booted.sound.step (show Careful _ .createSpace from trivial) first
  cases first
  refine ⟨⟨rfl, by decide⟩, fun mapped second => ?_⟩
  cases second
  exact ⟨⟨rfl, by decide, UnmapsSafely.of_fresh sound rfl rfl⟩, fun _ _ => trivial⟩

end FunsOS.Mm
