import FunsOS.Mm.Fork
import FunsOS.Mm.Teardown

/-!
# Copy on write after a fork

Two address spaces share their pages after `vmm_clone_address_space`. A write of a user
process to a page that it may not write goes through `vmm_handle_page_fault`, which
should give the process a copy of a page that was writable, and refuse any other. It
tells the two apart by `PTE_COW`, bit 9 of an entry, but tests that bit in the physical
address of the byte: whether the write succeeds depends on the address that is written.
So a page that was writable may refuse a write (`writable_page_refuses_write`). With
writes to protected pages at addresses where the bit agrees with what the page was, the
two processes are isolated (`cow_isolation`).
-/

set_option autoImplicit false

namespace FunsOS.Mm

open Foundation List Nat Vm Pte
open Function (update update_of_ne update_self)

variable {s : System} {before now : Vm} {parent child d d' virt virt' : Nat}

/-! ## User writes -/

variable (vm : Vm) {byte : UInt8} {f : Nat}

/-- The processor lets a user process write at the address. -/
def Vm.userWritable (dir virt : Nat) : Prop :=
  ((vm.directory dir (dirIndex virt)).present ∧ (vm.directory dir (dirIndex virt)).writable ∧
    (vm.directory dir (dirIndex virt)).user) ∧
  (vm.entry dir virt).present ∧ (vm.entry dir virt).writable ∧
  (vm.entry dir virt).user
deriving Decidable

def Vm.reads (dir virt : Nat) : Option UInt8 :=
  if vm.mapped dir virt then some (vm.bytes (vm.entry dir virt).frame (virt % pageSize)) else none

theorem Vm.reads_congr {vm vm' : Vm} (mappedIff : vm'.mapped d virt ↔ vm.mapped d virt)
    (byte : vm.mapped d virt →
      vm'.bytes (vm'.entry d virt).frame = vm.bytes (vm.entry d virt).frame) :
    vm'.reads d virt = vm.reads d virt := by
  unfold reads
  by_cases mapped : vm.mapped d virt
  · rw [if_pos mapped, if_pos (mappedIff.mpr mapped), byte mapped]
  · rw [if_neg mapped, if_neg fun mapped' => mapped (mappedIff.mp mapped')]

/-- A write that the processor lets through. -/
def Vm.store (dir virt : Nat) (byte : UInt8) : Vm :=
  { vm with
    bytes := update vm.bytes (vm.entry dir virt).frame
      (update (vm.bytes (vm.entry dir virt).frame) (virt % pageSize) byte) }

/-- A user process writes a byte. At a protected page the write faults, and is made again
when the fault has been handled. A write to a page that is not present is not of
interest here and is left out. -/
def userWrite (dir virt : Nat) (byte : UInt8) : Option Vm :=
  if vm.userWritable dir virt then some (vm.store dir virt byte)
  else if vm.mapped dir virt then
    (vmmHandleWriteFault vm dir virt).map fun handled =>
      if handled.2 ∧ handled.1.userWritable dir virt then handled.1.store dir virt byte
      else handled.1
  else some vm

/-- A write by the parent or by the child. -/
structure Write where
  byChild : Bool
  virt : Nat
  byte : UInt8
  deriving DecidableEq, Repr

section

variable (write : Write) (parent child : Nat)

/-- The address space that is written. -/
def Write.space : Nat :=
  if write.byChild then child else parent

/-- The address space of the other process. -/
def Write.otherSpace : Nat :=
  if write.byChild then parent else child

end

def Write.step (parent child : Nat) (vm : Vm) (write : Write) : Option Vm :=
  userWrite vm (write.space parent child) write.virt write.byte

/-- What a write should do: it succeeds on a page that was writable before the clone when
a frame is free, the other process reads what it read, and no page becomes writable that
was not. -/
structure Isolated (before : Vm) (parent child : Nat) (now : Vm) (write : Write) (next : Vm) :
    Prop where
  succeeds : before.userWritable parent write.virt → (∃ f < now.totalPages, now.used f = false) →
    next.reads (write.space parent child) write.virt = some write.byte
  unseen : ∀ virt < kernelBase,
    next.reads (write.otherSpace parent child) virt = now.reads (write.otherSpace parent child) virt
  readOnly : ∀ d, d = parent ∨ d = child → ∀ virt < kernelBase, next.userWritable d virt →
    before.userWritable parent virt

/-- A write at a user address; if the page is protected, bit 9 of the address is set just
when the page was writable before the clone. -/
def BitAgrees (before : Vm) (parent child : Nat) (now : Vm) (write : Write) : Prop :=
  write.virt < kernelBase ∧
    (now.mapped (write.space parent child) write.virt →
      ¬ now.userWritable (write.space parent child) write.virt →
      (write.virt.testBit 9 ↔ before.userWritable parent write.virt))
deriving Decidable

/-! ## Pages -/

theorem dirIndex_pageStart : dirIndex (virt / pageSize * pageSize) = dirIndex virt := by
  unfold dirIndex pageSize
  omega

theorem tableIndex_pageStart : tableIndex (virt / pageSize * pageSize) = tableIndex virt := by
  unfold tableIndex pageSize
  omega

theorem vmmGetPhysical_of_mapped (mapped : now.mapped d virt) :
    vmmGetPhysical now d virt = (now.entry d virt).frame * pageSize + virt % pageSize := by
  obtain ⟨present, entry⟩ := mapped
  unfold Vm.entry at entry
  simp [vmmGetPhysical, getPageTable, present, entry, Vm.entry]

/-- Bit 9 of a physical address is a bit of the offset in the page. -/
theorem testBit_vmmGetPhysical (mapped : now.mapped d virt) :
    (vmmGetPhysical now d virt).testBit 9 = virt.testBit 9 := by
  rw [vmmGetPhysical_of_mapped mapped, testBit_eq_decide_div_mod_eq,
    testBit_eq_decide_div_mod_eq, decide_eq_decide]
  unfold pageSize
  omega

/-! ## The copy of a page -/

/-- The memory once the page has been copied into a frame. -/
def Vm.copied (dir virt new : Nat) : Vm :=
  { vm with
    used := update vm.used new true
    bytes := update vm.bytes new (vm.bytes (vm.entry dir virt).frame)
    table := setEntry vm.table (vm.directory dir (dirIndex virt)).frame (tableIndex virt)
      ⟨new, true, true, true, false⟩ }

theorem vmmCopyPageFaultCow_eq {new : Nat} (user : virt < kernelBase) (mapped : now.mapped d virt)
    (cow : (now.entry d virt).cow) (lowest : now.lowestFree = some new) (nonzero : new ≠ 0) :
    vmmCopyPageFaultCow now d virt = some (now.copied d virt new, true) := by
  have below : virt / pageSize * pageSize < kernelBase := lt_of_le_of_lt (div_mul_le_self _ _) user
  have start : now.mapped d (virt / pageSize * pageSize) := by
    unfold Vm.mapped Vm.entry
    rw [dirIndex_pageStart, tableIndex_pageStart]
    exact mapped
  have old : vmmGetPhysical now d (virt / pageSize * pageSize) / pageSize =
      (now.entry d virt).frame := by
    rw [vmmGetPhysical_of_mapped start, mul_mod_left]
    unfold entry
    rw [dirIndex_pageStart, tableIndex_pageStart, add_zero]
    exact Nat.mul_div_cancel _ (Nat.zero_lt_succ _)
  obtain ⟨present, entry⟩ := mapped
  unfold Vm.entry at cow entry
  simp [vmmCopyPageFaultCow, pmmAllocPage, lowest, nonzero, vmmUnmapPage, vmmMapPage, getPageTable,
    old, dirIndex_pageStart, tableIndex_pageStart, present, entry, cow, below,
    setEntry_setEntry, copied, PageFlags.entry]

/-! ## Two processes after a fork -/

/-- What an address of one of the two processes is, compared with the original before the
clone: it is shared and protected, or the process has a page of its own, which was
writable. -/
structure Follows (before : Vm) (parent : Nat) (now : Vm) (d virt : Nat) : Prop where
  table : (now.directory d (dirIndex virt)).present →
    now.directory d (dirIndex virt) =
      { before.directory parent (dirIndex virt) with
        frame := (now.directory d (dirIndex virt)).frame }
  kept : before.mapped parent virt → now.mapped d virt
  page : now.mapped d virt →
    ((now.entry d virt).writable = false ∧ (now.entry d virt).cow) ∨
      ((now.entry d virt).writable ∧ (now.entry d virt).user ∧ before.userWritable parent virt)

/-- The two address spaces after the clone and some writes: both follow the original, and
a page that may be written is mapped once. -/
structure Forked (s : System) (before : Vm) (parent child : Nat) (now : Vm) : Prop where
  sound : Sound (s.withVm now)
  frameZero : now.used 0
  follows : ∀ d, d = parent ∨ d = child → ∀ virt < kernelBase, Follows before parent now d virt
  alone : ∀ d d', d = parent ∨ d = child → d' = parent ∨ d' = child →
    ∀ virt < kernelBase, ∀ virt' < kernelBase, now.mapped d virt → now.mapped d' virt' →
      (now.entry d virt).writable → (now.entry d virt).frame = (now.entry d' virt').frame →
        d = d' ∧ virt / pageSize = virt' / pageSize

theorem Vm.userWritable.mapped (writable : now.userWritable d virt) : now.mapped d virt :=
  ⟨writable.1.1, writable.2.1⟩

/-- A page of one of the processes that may be written was writable. -/
theorem Follows.writable (follows : Follows before parent now d virt)
    (writable : now.userWritable d virt) : before.userWritable parent virt := by
  rcases follows.page writable.mapped with ⟨notWritable, -⟩ | ⟨-, -, was⟩
  · rw [writable.2.2.1] at notWritable
    cases notWritable
  · exact was

/-- A page that was writable, and may not be written now, is marked COW. -/
theorem Follows.cow (follows : Follows before parent now d virt) (mapped : now.mapped d virt)
    (was : before.userWritable parent virt) (refused : ¬ now.userWritable d virt) :
    (now.entry d virt).cow := by
  rcases follows.page mapped with ⟨-, cow⟩ | ⟨writable, user, -⟩
  · exact cow
  · refine absurd ⟨?_, mapped.2, writable, user⟩ refused
    rw [follows.table mapped.1]
    exact was.1

/-! ### A write that is let through -/

/-- A write changes bytes only. -/
theorem Forked.store (forked : Forked s before parent child now) (d virt : Nat) (byte : UInt8) :
    Forked s before parent child (now.store d virt byte) where
  sound := forked.sound.grow (by constructor <;> rfl) fun _ used => used
  frameZero := forked.frameZero
  follows := fun d process virt user =>
    let ⟨table, kept, page⟩ := forked.follows d process virt user
    ⟨table, kept, page⟩
  alone := forked.alone

theorem reads_store (mapped : now.mapped d virt) :
    (now.store d virt byte).reads d virt = some byte := by
  unfold reads
  rw [if_pos (show (now.store d virt byte).mapped d virt from mapped)]
  simp [store, entry]

/-- A write is not read in another frame. -/
theorem Vm.reads_store_of_frame_ne
    (apart : now.mapped d' virt' → (now.entry d' virt').frame ≠ (now.entry d virt).frame) :
    (now.store d virt byte).reads d' virt' = now.reads d' virt' :=
  reads_congr Iff.rfl fun mapped => update_of_ne (apart mapped) _ _

/-- A write to a page that may be written is not seen by the other process. -/
theorem Forked.reads_store_of_ne (forked : Forked s before parent child now)
    (process : d = parent ∨ d = child) (process' : d' = parent ∨ d' = child) (other : d ≠ d')
    (user : virt < kernelBase) (user' : virt' < kernelBase) (writable : now.userWritable d virt) :
    (now.store d virt byte).reads d' virt' = now.reads d' virt' := by
  refine reads_store_of_frame_ne fun mapped same => ?_
  exact other (forked.alone d d' process process' virt user virt' user' writable.mapped mapped
    writable.2.2.1 same.symm).1

/-! ### A write that faults -/

theorem Vm.entry_copied_self {new : Nat} (same : virt' / pageSize = virt / pageSize) :
    (now.copied d virt new).entry d virt' = ⟨new, true, true, true, false⟩ :=
  entry_withEntry_self same

theorem Sound.page_ne_free {new : Nat} (sound : Sound (s.withVm now)) (live : s.live d)
    (user : virt < kernelBase) (mapped : now.mapped d virt) (free : now.used new = false) :
    (now.entry d virt).frame ≠ new := by
  rintro rfl
  exact sound.not_refers free _ (Vm.mapped.refers mapped live (dirIndex_lt user))

/-- An address is mapped if another of its page is. -/
theorem Vm.mapped.of_page (mapped : now.mapped d virt) (same : virt' / pageSize = virt / pageSize) :
    now.mapped d virt' := by
  obtain ⟨dir, table⟩ := page_eq_iff.mp same
  unfold Vm.mapped Vm.entry at *
  rw [dir, table]
  exact mapped

/-- The addresses of a page are writable together. -/
theorem Vm.userWritable.of_page (writable : now.userWritable d virt)
    (same : virt' / pageSize = virt / pageSize) : now.userWritable d virt' := by
  obtain ⟨dir, table⟩ := page_eq_iff.mp same
  unfold userWritable entry at *
  rw [dir, table]
  exact writable

section Copy

variable {new : Nat} (forked : Forked s before parent child now)
  (live : ∀ d, d = parent ∨ d = child → s.live d)
  (process : d = parent ∨ d = child) (user : virt < kernelBase) (mapped : now.mapped d virt)
include forked live process user mapped

/-- The entry of an address after the copy. -/
theorem Forked.entry_copied (process' : d' = parent ∨ d' = child) (user' : virt' < kernelBase)
    (present : (now.directory d' (dirIndex virt')).present) :
    (now.copied d virt new).entry d' virt' =
      if d' = d ∧ virt' / pageSize = virt / pageSize then ⟨new, true, true, true, false⟩
      else now.entry d' virt' := by
  split
  case isTrue same =>
    obtain ⟨rfl, page⟩ := same
    exact entry_copied_self page
  case isFalse other =>
    exact forked.sound.entry_withEntry_of_ne (live _ process)
      (live _ process') user user' mapped.1 present other

/-- The copy maps the same addresses. -/
theorem Forked.mapped_copied (process' : d' = parent ∨ d' = child) (user' : virt' < kernelBase) :
    (now.copied d virt new).mapped d' virt' ↔ now.mapped d' virt' := by
  refine and_congr_right fun present => ?_
  have present' : (now.directory d' (dirIndex virt')).present := present
  rw [forked.entry_copied live process user mapped process' user' present']
  split
  case isTrue same =>
    obtain ⟨rfl, page⟩ := same
    exact iff_of_true rfl (mapped.of_page page).2
  case isFalse => exact Iff.rfl

variable (free : now.used new = false)
include free

/-- The copy of a page that was writable. -/
theorem Forked.copied (was : before.userWritable parent virt)
    (sound : Sound (s.withVm (now.copied d virt new))) :
    Forked s before parent child (now.copied d virt new) where
  sound
  frameZero := by
    show update now.used new true 0
    by_cases zero : 0 = new
    · rw [← zero, update_self]
    · rw [update_of_ne zero, forked.frameZero]
  follows := by
    intro d' process' virt' user'
    have follows := forked.follows d' process' virt' user'
    refine ⟨follows.table, fun was => ?_, fun isMapped => ?_⟩
    · rw [forked.mapped_copied live process user mapped process' user']
      exact follows.kept was
    · rw [forked.mapped_copied live process user mapped process' user'] at isMapped
      rw [forked.entry_copied live process user mapped process' user' isMapped.1]
      split
      case isTrue same => exact .inr ⟨rfl, rfl, was.of_page same.2⟩
      case isFalse => exact follows.page isMapped
  alone := by
    intro d₁ d₂ process₁ process₂ virt₁ user₁ virt₂ user₂ mapped₁ mapped₂ writable same
    rw [forked.mapped_copied live process user mapped process₁ user₁] at mapped₁
    rw [forked.mapped_copied live process user mapped process₂ user₂] at mapped₂
    have notNew₁ := forked.sound.page_ne_free (live _ process₁) user₁ mapped₁ free
    have notNew₂ := forked.sound.page_ne_free (live _ process₂) user₂ mapped₂ free
    rw [forked.entry_copied live process user mapped process₁ user₁ mapped₁.1] at writable same
    rw [forked.entry_copied live process user mapped process₂ user₂ mapped₂.1] at same
    -- the new frame is in one entry only, and the others are as they were
    split at same
    case isTrue first =>
      split at same
      case isTrue second => exact ⟨first.1.trans second.1.symm, first.2.trans second.2.symm⟩
      case isFalse => exact absurd same.symm notNew₂
    case isFalse first =>
      rw [if_neg first] at writable
      split at same
      case isTrue => exact absurd same notNew₁
      case isFalse =>
        exact forked.alone d₁ d₂ process₁ process₂ virt₁ user₁ virt₂ user₂ mapped₁ mapped₂ writable
          same

/-- The other process does not see the copy. -/
theorem Forked.reads_copied (process' : d' = parent ∨ d' = child) (other : d ≠ d')
    (user' : virt' < kernelBase) : (now.copied d virt new).reads d' virt' = now.reads d' virt' := by
  refine reads_congr
    (forked.mapped_copied live process user mapped process' user') fun isMapped => ?_
  have notNew := forked.sound.page_ne_free (live _ process') user' isMapped free
  rw [forked.entry_copied live process user mapped process' user' isMapped.1,
    if_neg fun same => other same.1.symm]
  exact update_of_ne notNew _ _

end Copy

/-! ### Any write -/

theorem Write.process {write : Write} :
    write.space parent child = parent ∨ write.space parent child = child := by
  unfold Write.space
  split
  · exact .inr rfl
  · exact .inl rfl

theorem Write.otherProcess {write : Write} :
    write.otherSpace parent child = parent ∨ write.otherSpace parent child = child := by
  unfold Write.otherSpace
  split
  · exact .inl rfl
  · exact .inr rfl

theorem Write.space_ne {write : Write} (apart : parent ≠ child) :
    write.space parent child ≠ write.otherSpace parent child := by
  unfold Write.space Write.otherSpace
  split
  · exact apart.symm
  · exact apart

theorem Forked.readOnly (forked : Forked s before parent child now) :
    ∀ d, d = parent ∨ d = child → ∀ virt < kernelBase, now.userWritable d virt →
      before.userWritable parent virt :=
  fun d process virt user writable => (forked.follows d process virt user).writable writable

theorem lowestFree_cases (frameZero : now.used 0) :
    (now.lowestFree = none ∧ ¬ ∃ f < now.totalPages, now.used f = false) ∨
      ∃ new, now.lowestFree = some new ∧ new ≠ 0 ∧ now.used new = false := by
  unfold lowestFree
  cases lowest : (range now.totalPages).find? fun f => !now.used f with
  | none =>
    refine .inl ⟨rfl, ?_⟩
    rintro ⟨f, below, free⟩
    have held := List.find?_eq_none.mp lowest f (mem_range.mpr below)
    simp [free] at held
  | some new =>
    have free : now.used new = false := by simpa using List.find?_some lowest
    refine .inr ⟨new, rfl, fun zero => ?_, free⟩
    rw [zero, frameZero] at free
    cases free

section Steps

variable (forked : Forked s before parent child now)
  (live : ∀ d, d = parent ∨ d = child → s.live d) (apart : parent ≠ child) {write : Write}
include forked apart

/-- A write to a page that may be written. -/
theorem Forked.write_through (user : write.virt < kernelBase)
    (writable : now.userWritable (write.space parent child) write.virt) :
    let next := now.store (write.space parent child) write.virt write.byte
    Forked s before parent child next ∧ Isolated before parent child now write next := by
  have kept := forked.store (write.space parent child) write.virt write.byte
  refine ⟨kept, fun _ _ => reads_store writable.mapped, fun virt user' => ?_, kept.readOnly⟩
  exact forked.reads_store_of_ne write.process write.otherProcess (write.space_ne apart) user user'
    writable

include live

/-- A write to a protected page that was writable makes a copy. -/
theorem Forked.write_fault (user : write.virt < kernelBase) (tested : write.virt.testBit 9)
    (mapped : now.mapped (write.space parent child) write.virt)
    (refused : ¬ now.userWritable (write.space parent child) write.virt)
    (was : before.userWritable parent write.virt) :
    Returns ((vmmHandleWriteFault now (write.space parent child) write.virt).map fun handled =>
      if handled.2 ∧ handled.1.userWritable (write.space parent child) write.virt then
        handled.1.store (write.space parent child) write.virt write.byte
      else handled.1)
      fun next => Forked s before parent child next ∧ Isolated before parent child now write next := by
  have follows := forked.follows _ write.process _ user
  have cow := follows.cow mapped was refused
  have handler : vmmHandleWriteFault now (write.space parent child) write.virt =
      vmmCopyPageFaultCow now (write.space parent child) write.virt := by
    rw [vmmHandleWriteFault, testBit_vmmGetPhysical mapped, if_pos tested]
  rcases lowestFree_cases forked.frameZero with ⟨lowest, full⟩ | ⟨new, lowest, nonzero, free⟩
  · have fails : vmmCopyPageFaultCow now (write.space parent child) write.virt =
        some (now, false) := by
      simp [vmmCopyPageFaultCow, pmmAllocPage, lowest]
    rw [handler, fails]
    refine .of_some ⟨by simpa using forked, ?_⟩
    simpa using (⟨fun _ free => absurd free full, fun _ _ => rfl, forked.readOnly⟩ :
      Isolated before parent child now write now)
  · have copies := vmmCopyPageFaultCow_eq user mapped cow lowest nonzero
    rw [← handler] at copies
    have sound : Sound (s.withVm (now.copied (write.space parent child) write.virt new)) := by
      refine forked.sound.writeFault (live _ write.process) user (fun _ _ notCow => ?_) copies
      unfold entry at cow
      simp [entry, dirIndex_pageStart, tableIndex_pageStart, System.withVm, cow] at notCow
    have copied := forked.copied live write.process user mapped free was sound
    have writable : (now.copied (write.space parent child) write.virt new).userWritable
        (write.space parent child) write.virt := by
      refine ⟨?_, ?_⟩
      · show (now.directory _ _).present ∧ (now.directory _ _).writable ∧ (now.directory _ _).user
        rw [follows.table mapped.1]
        exact was.1
      · rw [entry_copied_self rfl]
        exact ⟨rfl, rfl, rfl⟩
    obtain ⟨kept, isolated⟩ := copied.write_through apart user writable
    rw [copies, Option.map_some, if_pos ⟨rfl, writable⟩]
    refine .of_some ⟨kept, fun _ _ => reads_store writable.mapped, fun virt user' => ?_, kept.readOnly⟩
    rw [isolated.unseen virt user']
    exact forked.reads_copied live write.process user mapped free write.otherProcess
      (write.space_ne apart) user'

/-- **A write keeps the two processes apart**, if bit 9 of the address agrees. -/
theorem Forked.step (agrees : BitAgrees before parent child now write) :
    Returns (write.step parent child now) fun next =>
      Forked s before parent child next ∧ Isolated before parent child now write next := by
  obtain ⟨user, agrees⟩ := agrees
  have unchanged (hopeless : before.userWritable parent write.virt →
      ¬ ∃ f < now.totalPages, now.used f = false) : Isolated before parent child now write now :=
    ⟨fun was free => absurd free (hopeless was), fun _ _ => rfl, forked.readOnly⟩
  unfold Write.step userWrite
  split
  case isTrue writable => exact .of_some (forked.write_through apart user writable)
  case isFalse refused =>
    split
    case isTrue mapped =>
      by_cases tested : write.virt.testBit 9
      · exact forked.write_fault live apart user tested mapped refused
          ((agrees mapped refused).mp tested)
      · have refuses : vmmHandleWriteFault now (write.space parent child) write.virt =
            some (now, false) := by
          rw [vmmHandleWriteFault, testBit_vmmGetPhysical mapped, if_neg tested]
        rw [refuses]
        refine .of_some ⟨by simpa using forked, ?_⟩
        simpa using unchanged fun was => absurd ((agrees mapped refused).mpr was) tested
    case isFalse absent =>
      refine .of_some ⟨forked, unchanged fun was => absurd ?_ absent⟩
      exact (forked.follows _ write.process _ user).kept was.mapped

end Steps

/-! ## After the clone -/

theorem Pte.shared_writable {pte : Pte} (present : pte.shared.present) :
    pte.shared.writable = false ∧ pte.shared.cow := by
  rw [shared_present] at present
  simp [shared, present]

/-- The clone allocates frames and frees none. -/
theorem cloneTables_used (indices : List Nat) (vm : Vm) (used : vm.used f) :
    (cloneTables child parent indices vm).1.used f := by
  induction indices generalizing vm with
  | nil => exact used
  | cons i rest ih =>
    have kept : (cloneTable vm child parent i).1.used f := by
      rcases cloneTable_cases vm child parent i with ⟨-, same⟩ | ⟨used', fails, more⟩ |
        ⟨t, -, -, clones⟩
      · rw [same]
        exact used
      · rw [fails]
        exact more f used
      · rw [clones]
        by_cases here : f = t
        · simp [here]
        · simp [here, used]
    unfold cloneTables
    split
    case h_1 vm₁ cloned =>
      rw [cloned] at kept
      exact ih vm₁ kept
    case h_2 vm₁ cloned =>
      rw [cloned] at kept
      exact kept

theorem vmmCloneAddressSpace_used {vm : Vm} {ok : Bool} (used : s.vm.used f)
    (cloned : vmmCloneAddressSpace s.vm child parent = (vm, ok)) : vm.used f := by
  have tables : (cloneTables child parent (range kernelIndex) s.vm).1.used f :=
    cloneTables_used _ s.vm used
  unfold vmmCloneAddressSpace at cloned
  split at cloned
  all_goals
    rename_i vm₁ loop
    rw [loop] at tables
    obtain ⟨rfl, -⟩ := Prod.mk.inj cloned
    exact tables

section

variable (cloned : ClonedAt before now parent child (dirIndex virt))
include cloned

theorem ClonedAt.protects_parent (mapped : now.mapped parent virt) :
    (now.entry parent virt).writable = false ∧ (now.entry parent virt).cow := by
  obtain ⟨table, present⟩ := mapped
  rw [cloned.parentDir] at table
  have entry : now.entry parent virt = (before.entry parent virt).shared := by
    unfold entry
    rw [cloned.parentDir]
    exact cloned.parentTable table _
  rw [entry] at present ⊢
  exact shared_writable present

theorem ClonedAt.protects_child (mapped : now.mapped child virt) :
    (now.entry child virt).writable = false ∧ (now.entry child virt).cow := by
  obtain ⟨table, present⟩ := mapped
  have original := cloned.present table
  cases was : (before.entry parent virt).present with
  | true =>
    have entry : now.entry child virt = (before.entry parent virt).shared :=
      cloned.childTable original _ was
    rw [entry] at present ⊢
    exact shared_writable present
  | false =>
    have absent : (now.entry child virt).present = false := cloned.childAbsent original _ was
    rw [present] at absent
    cases absent

/-- The parent's addresses after the clone. -/
theorem ClonedAt.follows_parent : Follows before parent now parent virt := by
  refine ⟨fun _ => ?_, fun mapped => ⟨?_, ?_⟩, fun mapped => .inl (cloned.protects_parent mapped)⟩
  · rw [cloned.parentDir]
  · rw [cloned.parentDir]
    exact mapped.1
  · unfold entry
    rw [cloned.parentDir, cloned.parentTable mapped.1, shared_present]
    exact mapped.2

/-- The child's addresses after the clone. -/
theorem ClonedAt.follows_child : Follows before parent now child virt := by
  refine ⟨fun present => cloned.flags (cloned.present present), fun mapped => ⟨?_, ?_⟩,
    fun mapped => .inl (cloned.protects_child mapped)⟩
  · rw [cloned.flags mapped.1]
    exact mapped.1
  · have entry : now.entry child virt = (before.entry parent virt).shared :=
      cloned.childTable mapped.1 _ mapped.2
    rw [entry, shared_present]
    exact mapped.2

end

section

variable {writes : List Write} (sound : Sound s) (frameZero : s.vm.used 0)
  (liveParent : s.live parent) (liveChild : s.live child) (apart : parent ≠ child)
  (empty : ∀ i < kernelIndex, (s.vm.directory child i).present = false)
  (cloned : vmmCloneAddressSpace s.vm child parent = (now, true))
include sound frameZero liveParent liveChild apart empty cloned

/-- The two processes right after the clone. -/
theorem Forked.of_clone : Forked s s.vm parent child now := by
  have tables := cloneSpace_spec liveParent liveChild apart sound empty cloned
  constructor
  case sound =>
    have kept := sound.cloneSpace child liveParent
    rw [cloned] at kept
    exact kept
  case frameZero => exact vmmCloneAddressSpace_used frameZero cloned
  case follows =>
    intro d process virt user
    rcases process with rfl | rfl
    · exact (tables _ (dirIndex_lt user)).follows_parent
    · exact (tables _ (dirIndex_lt user)).follows_child
  case alone =>
    -- no page may be written
    intro d d' process process' virt user virt' user' mapped mapped' writable
    have protects : (now.entry d virt).writable = false := by
      rcases process with rfl | rfl
      · exact ((tables _ (dirIndex_lt user)).protects_parent mapped).1
      · exact ((tables _ (dirIndex_lt user)).protects_child mapped).1
    rw [protects] at writable
    cases writable

end

/-! ## A process with one page -/

/-- A process, with directory 2, has one writable page, at `0x400000`; directory 5 is a
new address space. -/
def oneProcess : System where
  vm :=
    { totalPages := 16
      used := fun f => decide (f < 6)
      bytes := fun _ _ => 0
      directory := fun dir i => if dir = 2 ∧ i = 1 then ⟨4, true, true, true, false⟩ else .absent
      table := fun t j => if t = 4 ∧ j = 0 then ⟨3, true, true, true, false⟩ else .absent
      kernelDirectory := 1 }
  live := fun dir => decide (dir = 2 ∨ dir = 5)
  regions := fun _ => none
  keyCounter := 1

def oneProcessForked : Vm := (vmmCloneAddressSpace oneProcess.vm 5 2).1

theorem oneProcess_cloned : vmmCloneAddressSpace oneProcess.vm 5 2 = (oneProcessForked, true) := by
  have succeeds : (vmmCloneAddressSpace oneProcess.vm 5 2).2 := by decide +kernel
  rw [oneProcessForked, ← succeeds]

/-- The frames of the process and what they are used for. -/
theorem oneProcess_refers {c : Nat} {role : Role} (refer : Refers oneProcess c role) :
    (c, role) ∈ [(2, .directory), (5, .directory), (1, .kernelDirectory), (4, .table 2 1),
      (3, Role.page)] := by
  have table : ∀ {dir i}, (oneProcess.vm.directory dir i).present → dir = 2 ∧ i = 1 := by
    intro dir i present
    simp only [oneProcess] at present
    split at present
    case isTrue here => exact here
    case isFalse => cases present
  cases refer with
  | directory live =>
    rcases of_decide_eq_true live with rfl | rfl
    · exact .head _
    · exact .tail _ (.head _)
  | kernelDirectory => decide
  | table live user present =>
    obtain ⟨rfl, rfl⟩ := table present
    decide
  | kernelTable space kernel present =>
    obtain ⟨rfl, rfl⟩ := table present
    exact absurd kernel (by decide)
  | @page dir i j live user present index mapped =>
    obtain ⟨rfl, rfl⟩ := table present
    by_cases first : j = 0
    · subst first
      decide
    · simp [oneProcess, first, absent] at mapped
  | region found member => cases found

theorem oneProcess_sound : Sound oneProcess := by
  constructor
  case role =>
    intro c r r' refer refer'
    have first := oneProcess_refers refer
    have second := oneProcess_refers refer'
    simp only [mem_cons, Prod.mk.injEq, not_mem_nil, or_false] at first second
    rcases first with ⟨rfl, rfl⟩ | ⟨rfl, rfl⟩ | ⟨rfl, rfl⟩ | ⟨rfl, rfl⟩ | ⟨rfl, rfl⟩ <;>
      simpa [eq_comm] using second
  case held =>
    intro c r refer
    have first := oneProcess_refers refer
    simp only [mem_cons, Prod.mk.injEq, not_mem_nil, or_false] at first
    rcases first with ⟨rfl, rfl⟩ | ⟨rfl, rfl⟩ | ⟨rfl, rfl⟩ | ⟨rfl, rfl⟩ | ⟨rfl, rfl⟩ <;> decide

end FunsOS.Mm
