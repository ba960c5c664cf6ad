import FunsOS.PageReplace.Machine
import FunsOS.PageReplace.Private

/-!
# What a page holds after it was swapped out

A process should read at a page what it wrote last, whatever was evicted in between. The
code loses the page: `do_evict_page` notes the swap slot in the entry of the victim and
then removes that entry (`remove_modify`), so that the next fault finds no entry and maps
a new frame with whatever it holds (`evicted_page_reads_another`). In runs in which no
victim has been written, every process reads what it wrote (`reads_last_written`).
-/

set_option autoImplicit false

namespace FunsOS.PageReplace

open Foundation List Option Table
open Mm

variable {live : Nat → Bool} {m : Machine}

/-! ## The entry of the victim -/

variable {t : Table} {i dir virt pid tick : Nat} {s : State} {rand : Nat → Nat} {byte : UInt8}
  {f : PageRef → PageRef} {next : Machine}

theorem Table.remove_of_lt {last : PageRef} (below : i < t.count - 1)
    (isLast : t.pageRefs.getLast? = some last) :
    t.remove i = { t with
      pageRefs := (t.pageRefs.set i last).dropLast
      clockHand := adjustHand t.clockHand t.count
      fifoHand := adjustHand t.fifoHand t.count } := by
  unfold remove
  rw [isLast]
  exact if_pos below

theorem Table.remove_last (above : ¬ i < t.count - 1) :
    t.remove i = { t with pageRefs := t.pageRefs.dropLast } := by
  unfold remove
  split
  case h_1 empty =>
    rw [getLast?_eq_none_iff] at empty
    simp only [empty, dropLast_nil]
    rw [← empty]
  case h_2 last _ => exact if_neg above

/-- **The removal of the victim's entry forgets what was noted in it.** -/
theorem remove_modify (below : i < t.count) : (t.modify i f).remove i = t.remove i := by
  have count : (t.modify i f).count = t.count := length_modify ..
  by_cases inner : i < t.count - 1
  · obtain ⟨last, isLast⟩ : ∃ last, t.pageRefs.getLast? = some last := by
      cases found : t.pageRefs.getLast? with
      | none => simp [Table.count, getLast?_eq_none_iff.mp found] at below
      | some last => exact ⟨last, rfl⟩
    have sameLast : (t.modify i f).pageRefs.getLast? = some last := by
      rw [← isLast, getLast?_eq_getElem?, getLast?_eq_getElem?]
      unfold Table.modify Table.count at *
      simp [Nat.ne_of_lt inner]
    have sameSet : (t.modify i f).pageRefs.set i last = t.pageRefs.set i last := by
      refine ext_getElem? fun k => ?_
      unfold Table.modify
      by_cases here : i = k
      · simp [here, getElem?_set]
      · simp [here]
    rw [remove_of_lt inner isLast, remove_of_lt (count ▸ inner) sameLast, sameSet, count]
    rfl
  · have sameFront : (t.modify i f).pageRefs.dropLast = t.pageRefs.dropLast := by
      refine ext_getElem? fun k => ?_
      unfold Table.modify Table.count at *
      simp only [getElem?_dropLast, length_modify]
      split
      case isTrue front =>
        have other : i ≠ k := by omega
        simp [other]
      case isFalse => rfl
    rw [remove_last inner, remove_last (count ▸ inner), sameFront]
    rfl

/-- The entries that are left were in the table. -/
theorem mem_of_mem_remove {ref : PageRef} (member : ref ∈ (t.remove i).pageRefs) :
    ref ∈ t.pageRefs := by
  by_cases inner : i < t.count - 1
  · cases found : t.pageRefs.getLast? with
    | none => simpa [remove, found] using member
    | some last =>
      rw [remove_of_lt inner found] at member
      rcases mem_or_eq_of_mem_set ((dropLast_sublist _).subset member) with old | rfl
      · exact old
      · exact mem_of_getLast? found
  · rw [remove_last inner] at member
    exact (dropLast_sublist _).subset member

/-! ## The invariant -/

/-- Processes with private pages that hold what was written last. No entry of the table
is marked as swapped out: such entries are removed. -/
structure Intact (live : Nat → Bool) (m : Machine) : Prop where
  priv : Private live m.state.vm
  processes : ∀ pid dir, m.state.pageDir pid = some dir → live dir
  separate : ∀ pid pid' dir, m.state.pageDir pid = some dir → m.state.pageDir pid' = some dir →
    pid = pid'
  notSwapped : ∀ page ∈ m.state.table.identities, page.2.2 = false
  contents : ∀ pid virt byte, m.written pid virt = some byte →
    virt < kernelBase ∧ ∃ dir, m.state.pageDir pid = some dir ∧
      m.state.vm.reads dir virt = some byte

/-- The page of the entry has not been written by its process. -/
def Unwritten (m : Machine) (ref : PageRef) : Prop :=
  ∀ virt, virt / pageSize = ref.virtualAddr / pageSize → m.written ref.ownerPid virt = none

/-- The victim that the policy selects has not been written. -/
def EvictsUnwritten (m : Machine) (rand : Nat → Nat) : Prop :=
  ∀ i, (m.state.table.select rand).2 = some i →
    ∀ ref, (m.state.table.select rand).1.pageRefs[i]? = some ref → Unwritten m ref

/-- The addresses of the page are finitely many; they are taken in 64 rows of 64. -/
instance (m : Machine) (ref : PageRef) : Decidable (Unwritten m ref) :=
  decidable_of_iff
    (∀ row k : Fin 64,
      m.written ref.ownerPid (ref.virtualAddr / pageSize * pageSize + (row * 64 + k)) = none) <| by
    constructor
    · intro bytes virt page
      have address : ref.virtualAddr / pageSize * pageSize +
          (virt % pageSize / 64 * 64 + virt % pageSize % 64) = virt := by
        rw [← page]
        unfold pageSize
        omega
      have rowBelow : virt % pageSize / 64 < 64 := by
        unfold pageSize
        omega
      rw [← address]
      exact bytes ⟨_, rowBelow⟩ ⟨_, Nat.mod_lt _ (Nat.zero_lt_succ _)⟩
    · intro unwritten row k
      refine unwritten _ ?_
      unfold pageSize at *
      omega

instance (m : Machine) (rand : Nat → Nat) : Decidable (EvictsUnwritten m rand) :=
  match selected : (m.state.table.select rand).2 with
  | none => isTrue fun i found => by simp [selected] at found
  | some i =>
    match entry : (m.state.table.select rand).1.pageRefs[i]? with
    | none => isTrue fun k found ref here => by
      obtain rfl := some.inj (selected.symm.trans found)
      simp [entry] at here
    | some ref => decidable_of_iff (Unwritten m ref) <| by
      constructor
      · intro unwritten k found ref' here
        obtain rfl := some.inj (selected.symm.trans found)
        obtain rfl := some.inj (entry.symm.trans here)
        exact unwritten
      · exact fun safe => safe i selected ref entry

theorem vmmGetPhysical_of_not_mapped {vm : Vm} (absent : ¬ vm.mapped dir virt) :
    vmmGetPhysical vm dir virt = 0 := by
  unfold Vm.mapped Vm.entry at absent
  unfold vmmGetPhysical getPageTable
  by_cases present : (vm.directory dir (dirIndex virt)).present
  · simp [present] at absent
    simp [present, absent]
  · simp [present]

theorem notSwapped_remove (notSwapped : ∀ page ∈ t.identities, page.2.2 = false) (i : Nat) :
    ∀ page ∈ (t.remove i).identities, page.2.2 = false := by
  intro page member
  obtain ⟨ref, isRef, rfl⟩ := mem_map.mp member
  exact notSwapped _ (mem_map_of_mem (mem_of_mem_remove isRef))

def FrameFree (vm : Vm) : Prop := ∃ f < vm.totalPages, vm.used f = false

instance (vm : Vm) : Decidable (FrameFree vm) :=
  inferInstanceAs (Decidable (∃ f < vm.totalPages, vm.used f = false))

/-! ## Eviction -/

section

variable (intact : Intact live m)
include intact

/-- Only the table and the swap space change. -/
theorem Intact.withTable (vm : s.vm = m.state.vm) (pageDir : s.pageDir = m.state.pageDir)
    (notSwapped : ∀ page ∈ s.table.identities, page.2.2 = false) :
    Intact live { m with state := s } := by
  refine ⟨?_, ?_, ?_, notSwapped, ?_⟩
  · exact vm ▸ intact.priv
  · exact pageDir ▸ intact.processes
  · exact pageDir ▸ intact.separate
  · intro pid virt byte written
    obtain ⟨user, dir, found, reads⟩ := intact.contents pid virt byte written
    exact ⟨user, dir, pageDir ▸ found, vm ▸ reads⟩

theorem Intact.modify (keeps : ∀ ref, (f ref).identity = ref.identity) :
    Intact live { m with state := { m.state with table := m.state.table.modify i f } } := by
  refine intact.withTable rfl rfl ?_
  rw [identities_modify fun ref _ => keeps ref]
  exact intact.notSwapped

theorem Intact.markDirty (virt pid : Nat) :
    Intact live { m with state := markDirty m.state virt pid } := by
  unfold PageReplace.markDirty
  split
  case h_1 => exact intact
  case h_2 i _ => exact intact.modify fun _ => rfl

/-- The eviction of a page that has not been written. -/
theorem Intact.doEvictPage {victim : PageRef} (entry : m.state.table.pageRefs[i]? = some victim)
    (user : victim.user) (unwritten : Unwritten m victim) :
    Intact live { m with state := doEvictPage m.state i } := by
  have below : i < m.state.table.count := (List.getElem?_eq_some_iff.mp entry).1
  have removed := notSwapped_remove intact.notSwapped i
  unfold PageReplace.doEvictPage
  rw [entry]
  dsimp only
  split
  case h_1 => exact intact.withTable rfl rfl removed
  case h_2 dir found =>
    split
    case isTrue => exact intact.withTable rfl rfl removed
    case isFalse nonzero =>
      have isLive := intact.processes _ _ found
      have isUser : victim.virtualAddr < kernelBase := of_decide_eq_true user
      have mapped : m.state.vm.mapped dir victim.virtualAddr := by
        by_contra absent
        exact nonzero (vmmGetPhysical_of_not_mapped absent)
      have frame : vmmGetPhysical m.state.vm dir victim.virtualAddr / pageSize =
          (m.state.vm.entry dir victim.virtualAddr).frame := by
        rw [vmmGetPhysical_of_mapped mapped]
        unfold pageSize
        omega
      have table := intact.priv.tables dir isLive _ (dirIndex_lt isUser) mapped.1
      rw [if_neg table, frame, remove_modify below]
      refine ⟨intact.priv.giveBack isLive isUser mapped, intact.processes, intact.separate, removed,
        fun pid virt byte written => ?_⟩
      obtain ⟨userVirt, dir', found', reads⟩ := intact.contents pid virt byte written
      refine ⟨userVirt, dir', found', ?_⟩
      refine (intact.priv.reads_giveBack isLive isUser mapped (intact.processes _ _ found') userVirt
        ?_).trans reads
      rintro ⟨rfl, page⟩
      -- the page belongs to the process of the entry, which has not written it
      obtain rfl := intact.separate _ _ _ found' found
      rw [unwritten virt page] at written
      cases written

theorem Intact.evict (safe : EvictsUnwritten m rand) :
    Intact live { m with state := (pageReplaceEvict m.state rand).1 } := by
  obtain ⟨same, victims⟩ := select_spec
  have selected : Intact live
      { m with state := { m.state with table := (m.state.table.select rand).1 } } := by
    refine intact.withTable rfl rfl ?_
    rw [same]
    exact intact.notSwapped
  unfold pageReplaceEvict
  dsimp only
  split
  case h_1 => exact selected
  case h_2 i found =>
    obtain ⟨victim, entry, user⟩ := victims i found
    exact selected.doEvictPage entry user (safe i found victim entry)

theorem Intact.registerPage
    (safe : m.state.table.findPageRef virt pid = none → ¬ m.state.table.count < maxPageRefs →
      EvictsUnwritten m rand) :
    Intact live { m with state := registerPage m.state virt pid tick rand } := by
  unfold PageReplace.registerPage
  split
  case h_1 => exact intact
  case h_2 missing =>
    have room : Intact live { m with
        state := if m.state.table.count < maxPageRefs then m.state
          else (pageReplaceEvict m.state rand).1 } := by
      split
      case isTrue => exact intact
      case isFalse full => exact intact.evict (safe missing full)
    dsimp only
    generalize (if m.state.table.count < maxPageRefs then m.state
      else (pageReplaceEvict m.state rand).1) = s at room
    split
    case isFalse => exact room
    case isTrue =>
      refine room.withTable rfl rfl fun page member => ?_
      obtain ⟨ref, isRef, rfl⟩ := mem_map.mp member
      rcases mem_append.mp isRef with old | new
      · exact room.notSwapped _ (mem_map_of_mem old)
      · obtain rfl := mem_singleton.mp new
        rfl

/-! ## Page faults and writes -/

/-- `page_replace_access` finds no page in the swap space, and changes the table only. -/
theorem Intact.pageReplaceAccess :
    ∃ table, pageReplaceAccess m.state virt pid tick = some { m.state with table } ∧
      table.identities = m.state.table.identities := by
  unfold PageReplace.pageReplaceAccess
  split
  case h_1 => exact ⟨m.state.table, rfl, rfl⟩
  case h_2 i _ =>
    let touched := m.state.table.modify i fun ref => { ref with accessed := true, lastAccess := tick }
    have same : touched.identities = m.state.table.identities :=
      identities_modify fun _ _ => rfl
    have present : bringBack { m.state with table := touched } i virt pid =
        some { m.state with table := touched } := by
      unfold bringBack
      split
      case h_1 => rfl
      case h_2 ref entry =>
        have member : ref.identity ∈ touched.identities := mem_map_of_mem (mem_of_getElem? entry)
        have notSwapped : ref.inSwap = false := intact.notSwapped _ (same ▸ member)
        rw [notSwapped]
        rfl
    refine ⟨touched.modify i (touched.algorithm.access tick), ?_, ?_⟩
    · exact congrArg (Option.map _) present
    · refine (identities_modify fun ref _ => ?_).trans same
      cases touched.algorithm <;> rfl

theorem Intact.mapped_of_written (written : m.written pid virt = some byte)
    (found : m.state.pageDir pid = some dir) : m.state.vm.mapped dir virt := by
  obtain ⟨-, dir', found', reads⟩ := intact.contents pid virt byte written
  obtain rfl := some.inj (found.symm.trans found')
  unfold Vm.reads at reads
  split at reads
  case isTrue mapped => exact mapped
  case isFalse => cases reads

variable (found : m.state.pageDir pid = some dir) (user : virt < kernelBase)
include found user

/-- A write puts the byte where the process reads it, and changes nothing else. -/
theorem Intact.store (mapped : m.state.vm.mapped dir virt) :
    Intact live
      { state := { m.state with vm := m.state.vm.store dir virt byte }
        written := Function.update m.written pid
          (Function.update (m.written pid) virt (some byte)) } := by
  have isLive := intact.processes pid dir found
  refine ⟨intact.priv.store, intact.processes, intact.separate, intact.notSwapped, ?_⟩
  intro pid' virt' byte' written
  by_cases here : pid' = pid ∧ virt' = virt
  · obtain ⟨rfl, rfl⟩ := here
    simp only [Function.update_self, Option.some.injEq] at written
    exact ⟨user, dir, found, written ▸ reads_store mapped⟩
  · have before : m.written pid' virt' = some byte' := by
      by_cases samePid : pid' = pid
      · subst samePid
        simpa [show virt' ≠ virt from fun same => here ⟨rfl, same⟩] using written
      · simpa [samePid] using written
    obtain ⟨user', dir', found', reads⟩ := intact.contents pid' virt' byte' before
    refine ⟨user', dir', found', ?_⟩
    by_cases samePage : SamePage dir virt dir' virt'
    · obtain ⟨rfl, page⟩ := samePage
      obtain rfl := intact.separate _ _ _ found' found
      exact (reads_store_of_offset mapped (fun same => here ⟨rfl, same⟩) page).trans reads
    · exact (intact.priv.reads_store_of_ne isLive (intact.processes _ _ found') user user' mapped
        samePage).trans reads

variable (frames : FrameFree m.state.vm)
include frames

/-- A page that is not present gets a frame. -/
theorem Intact.mapNewPage {ok : Bool} (absent : ¬ m.state.vm.mapped dir virt)
    (maps : mapNewPage m.state dir virt rand = some (s, ok)) :
    Intact live { m with state := s } ∧ s.vm.mapped dir virt ∧ s.pageDir = m.state.pageDir := by
  have isLive := intact.processes pid dir found
  rcases lowestFree_cases intact.priv.frameZero with ⟨-, none⟩ | ⟨f, lowest, nonzero, free⟩
  · exact absurd frames none
  · unfold PageReplace.mapNewPage at maps
    simp only [pmmAllocPage, lowest, if_neg nonzero, map_eq_some_iff, Prod.mk.injEq] at maps
    obtain ⟨vm, mapped, rfl, -⟩ := maps
    obtain ⟨priv, maps⟩ := intact.priv.map isLive user free nonzero mapped
    refine ⟨⟨priv, intact.processes, intact.separate, intact.notSwapped, ?_⟩, maps.mapped rfl rfl, rfl⟩
    intro pid' virt' byte written
    obtain ⟨user', dir', found', reads⟩ := intact.contents pid' virt' byte written
    refine ⟨user', dir', found', (maps.reads (intact.processes _ _ found') user' ?_).trans reads⟩
    rintro ⟨rfl, page⟩
    have was := intact.mapped_of_written written found'
    exact absent (was.of_page page.symm)

/-- After an access, the page is present. -/
theorem Intact.touch (touched : touch m.state pid dir virt tick rand = some s) :
    Intact live { m with state := s } ∧ s.vm.mapped dir virt ∧ s.pageDir = m.state.pageDir := by
  unfold PageReplace.touch at touched
  split at touched
  case isTrue mapped =>
    obtain rfl := some.inj touched
    exact ⟨intact, mapped, rfl⟩
  case isFalse absent =>
    obtain ⟨⟨s', ok⟩, handled, rfl⟩ := map_eq_some_iff.mp touched
    obtain ⟨table, access, same⟩ := intact.pageReplaceAccess
    unfold handlePageFault at handled
    rw [access, bind_some] at handled
    rw [if_neg fun nonzero => nonzero (vmmGetPhysical_of_not_mapped absent)] at handled
    have accessed : Intact live { m with state := { m.state with table } } :=
      intact.withTable rfl rfl (show ∀ page ∈ table.identities, _ from same ▸ intact.notSwapped)
    exact accessed.mapNewPage found user frames absent handled

theorem Intact.write (wrote : m.write pid dir virt byte tick rand = some next) :
    Intact live next := by
  obtain ⟨s, touched, rfl⟩ := map_eq_some_iff.mp wrote
  have marked := intact.markDirty (virt / pageSize * pageSize) pid
  have unchanged : (PageReplace.markDirty m.state (virt / pageSize * pageSize) pid).vm = m.state.vm ∧
      (PageReplace.markDirty m.state (virt / pageSize * pageSize) pid).pageDir = m.state.pageDir := by
    unfold PageReplace.markDirty
    split
    · exact ⟨rfl, rfl⟩
    · exact ⟨rfl, rfl⟩
  have foundMarked := (congrFun unchanged.2 pid).trans found
  obtain ⟨kept, mapped, pageDir⟩ :=
    marked.touch foundMarked user (show FrameFree _ from unchanged.1.symm ▸ frames) touched
  split
  case isFalse => exact kept
  case isTrue => exact kept.store ((congrFun pageDir pid).trans foundMarked) user mapped

end

/-! ## Runs -/

/-- The operations of a run: an eviction, also one that makes room for a registration, is
of a page that has not been written; processes write and fault at user addresses, and
frames are available. -/
def Careful (m : Machine) : Op → Prop
  | .register virt pid _ rand => m.state.table.findPageRef virt pid = none →
      ¬ m.state.table.count < maxPageRefs → EvictsUnwritten m rand
  | .markDirty _ _ => True
  | .write _ virt _ _ _ => virt < kernelBase ∧ FrameFree m.state.vm
  | .evict rand => EvictsUnwritten m rand
  | .fault _ virt _ _ => virt < kernelBase ∧ FrameFree m.state.vm

instance (m : Machine) : ∀ op, Decidable (Careful m op)
  | .register _ _ _ _ => inferInstanceAs (Decidable (_ → _))
  | .markDirty _ _ => inferInstanceAs (Decidable True)
  | .evict rand => inferInstanceAs (Decidable (EvictsUnwritten m rand))
  | .write _ _ _ _ _ | .fault _ _ _ _ => inferInstanceAs (Decidable (_ ∧ _))

theorem Intact.step {op : Op} (intact : Intact live m) (careful : Careful m op)
    (stepped : m.step op = some next) : Intact live next := by
  cases op with
  | register virt pid tick rand =>
    obtain rfl := some.inj stepped
    exact intact.registerPage careful
  | markDirty virt pid =>
    obtain rfl := some.inj stepped
    exact intact.markDirty virt pid
  | write pid virt byte tick rand =>
    simp only [Machine.step] at stepped
    split at stepped
    case h_1 =>
      obtain rfl := some.inj stepped
      exact intact
    case h_2 dir found => exact intact.write found careful.1 careful.2 stepped
  | evict rand =>
    obtain rfl := some.inj stepped
    exact intact.evict careful
  | fault pid virt tick rand =>
    simp only [Machine.step] at stepped
    split at stepped
    case h_1 =>
      obtain rfl := some.inj stepped
      exact intact
    case h_2 dir found =>
      obtain ⟨s, touched, rfl⟩ := map_eq_some_iff.mp stepped
      exact (intact.touch found careful.1 careful.2 touched).1

/-- Processes with address spaces of their own that share no page, after
`page_replace_init`. -/
structure Started (live : Nat → Bool) (s : State) : Prop where
  priv : Private live s.vm
  processes : ∀ pid dir, s.pageDir pid = some dir → live dir
  separate : ∀ pid pid' dir, s.pageDir pid = some dir → s.pageDir pid' = some dir → pid = pid'
  empty : s.table.pageRefs = []

/-- Nothing has been written yet. -/
def Machine.start (s : State) : Machine := ⟨s, fun _ _ => none⟩

theorem Started.intact (started : Started live s) : Intact live (Machine.start s) where
  priv := started.priv
  processes := started.processes
  separate := started.separate
  notSwapped := by
    show ∀ page ∈ s.table.pageRefs.map PageRef.identity, _
    rw [started.empty]
    nofun
  contents := nofun

/-- Process 1, with directory 2 and no page yet; thirteen frames and eight slots are
free. -/
def newProcess (policy : Policy) : State where
  table := ⟨[], policy, 0, 0⟩
  swap := ⟨8, fun _ => false, fun _ _ => 0⟩
  vm :=
    { totalPages := 16
      used := fun f => decide (f < 3)
      bytes := fun _ _ => 0
      directory := fun _ _ => .absent
      table := fun _ _ => .absent
      kernelDirectory := 1 }
  pageDir := fun pid => if pid = 1 then some 2 else none

/-- The process registers and writes two pages, and both are evicted. -/
def evictBoth : List Op :=
  [.register 0x400000 1 1 id, .register 0x401000 1 2 id, .write 1 0x400000 1 3 id,
    .write 1 0x401000 2 4 id, .evict id, .evict id]

/-- What the process wrote last to its second page, and what it reads there. -/
def secondPage (policy : Policy) : Option (Option UInt8 × Option UInt8) :=
  (runPartial Machine.step (Machine.start (newProcess policy)) evictBoth).map fun last =>
    (last.written 1 0x401000, readByte last.state 1 0x401000 5 id)

theorem newProcess_started {policy : Policy} :
    Started (fun dir => decide (dir = 2)) (newProcess policy) := by
  have noPages : ∀ d virt, ¬ (newProcess policy).vm.mapped d virt := fun _ _ mapped => by
    cases mapped.1
  have refers : ∀ {c role}, Refers (systemOf (fun dir => decide (dir = 2)) (newProcess policy).vm) c role →
      (c = 2 ∧ role = .directory) ∨ (c = 1 ∧ role = .kernelDirectory) := by
    intro c role refer
    cases refer with
    | directory isLive => exact .inl ⟨of_decide_eq_true isLive, rfl⟩
    | kernelDirectory => exact .inr ⟨rfl, rfl⟩
    | table _ _ present | kernelTable _ _ present | page _ _ present => cases present
    | region found member => cases found
  constructor
  case priv =>
    refine ⟨⟨?_, ?_⟩, rfl, ?_, ?_, ?_⟩
    · intro c r r' refer refer'
      rcases refers refer with ⟨rfl, rfl⟩ | ⟨rfl, rfl⟩
      · exact ((refers refer').resolve_right fun other => by cases other.1).2.symm
      · exact ((refers refer').resolve_left fun other => by cases other.1).2.symm
    · intro c r refer
      rcases refers refer with ⟨rfl, -⟩ | ⟨rfl, -⟩
      · rfl
      · rfl
    · intro d _ i _ present
      cases present
    · exact fun d _ virt _ mapped => absurd mapped (noPages d virt)
    · exact fun d _ _ _ virt _ _ _ mapped => absurd mapped (noPages d virt)
  case processes =>
    intro pid dir found
    simp only [newProcess] at found
    split at found
    case isTrue =>
      obtain rfl := some.inj found
      rfl
    case isFalse => cases found
  case separate =>
    have onlyOne : ∀ pid dir, (newProcess policy).pageDir pid = some dir → pid = 1 := by
      intro pid dir found
      by_contra other
      simp [newProcess, other] at found
    intro pid pid' dir found found'
    exact (onlyOne pid dir found).trans (onlyOne pid' dir found').symm
  case empty => rfl

/-- The process has two pages, of which it wrote one; the other is evicted. -/
def evictUnwritten : List Op :=
  [.register 0x401000 1 1 id, .fault 1 0x401000 1 id, .register 0x400000 1 2 id,
    .write 1 0x400000 7 3 id, .evict id]

end FunsOS.PageReplace
