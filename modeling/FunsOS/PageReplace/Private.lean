import FunsOS.Mm.Cow

/-!
# Pages that are mapped once

Processes that share no page: every frame that a user page of an address space is in is
mapped by that page only (`Private`). Writing, mapping a new frame and giving the frame
of a page back keep this, and what is read at other pages.
-/

set_option autoImplicit false

namespace FunsOS.PageReplace

open Function

open Mm

variable {live : Nat → Bool} {vm vm' : Vm} {d d' virt virt' f : Nat} {pte : Pte} {byte : UInt8}
  {flags : PageFlags}

/-- The machine of the address spaces, without shared memory. -/
def systemOf (live : Nat → Bool) (vm : Vm) : System where
  vm
  live
  regions := fun _ => none
  keyCounter := 0

/-- No frame is mapped twice, and frame 0 is neither a table nor a page. -/
structure Private (live : Nat → Bool) (vm : Vm) : Prop where
  sound : Sound (systemOf live vm)
  frameZero : vm.used 0
  tables : ∀ d, live d → ∀ i < kernelIndex, (vm.directory d i).present →
    (vm.directory d i).frame ≠ 0
  pages : ∀ d, live d → ∀ virt < kernelBase, vm.mapped d virt → (vm.entry d virt).frame ≠ 0
  single : ∀ d d', live d → live d' → ∀ virt < kernelBase, ∀ virt' < kernelBase,
    vm.mapped d virt → vm.mapped d' virt' → (vm.entry d virt).frame = (vm.entry d' virt').frame →
      d = d' ∧ virt / pageSize = virt' / pageSize

def SamePage (d virt d' virt' : Nat) : Prop := d' = d ∧ virt' / pageSize = virt / pageSize

/-! ## Mapping a page -/

/-- What `vmm_map_page` does to the entries of address spaces. -/
structure Maps (live : Nat → Bool) (vm : Vm) (d virt : Nat) (pte : Pte) (vm' : Vm) : Prop where
  here : ∀ virt', virt' / pageSize = virt / pageSize →
    (vm'.directory d (dirIndex virt')).present ∧ vm'.entry d virt' = pte
  elsewhere : ∀ d', live d' → ∀ virt' < kernelBase, ¬ SamePage d virt d' virt' →
    (vm'.mapped d' virt' ↔ vm.mapped d' virt') ∧
      (vm.mapped d' virt' → vm'.entry d' virt' = vm.entry d' virt')
  tables : ∀ d' i, vm'.directory d' i = vm.directory d' i ∨
    vm.used (vm'.directory d' i).frame = false
  bytes : vm'.bytes = vm.bytes
  used : ∀ c, vm.used c → vm'.used c

theorem Maps.of_vmmMapPage (sound : Sound (systemOf live vm)) (isLive : live d)
    (user : virt < kernelBase) (mapped : vmmMapPage vm d virt f flags = some vm') :
    Maps live vm d virt (flags.entry f) vm' := by
  rcases vmmMapPage_cases mapped with ⟨present, rfl⟩ | ⟨t, absent, free, rfl⟩
  · constructor
    case here =>
      intro virt' same
      refine ⟨?_, Vm.entry_withEntry_self same⟩
      rw [(page_eq_iff.mp same).1]
      exact present
    case elsewhere =>
      intro d' isLive' virt' user' other
      have entry : (vm.directory d' (dirIndex virt')).present →
          (vm.withEntry d virt (flags.entry f)).entry d' virt' = vm.entry d' virt' := fun present' =>
        sound.entry_withEntry_of_ne isLive isLive' user user' present present' other
      refine ⟨and_congr_right fun present' => ?_, fun isMapped => entry isMapped.1⟩
      exact iff_of_eq (congrArg (fun pte => pte.present = true) (entry present'))
    case tables => exact fun _ _ => .inl rfl
    case bytes => rfl
    case used => exact fun _ held => held
  · constructor
    case here =>
      intro virt' same
      obtain ⟨dir, table⟩ := page_eq_iff.mp same
      simp [Vm.entry, dir, table, setEntry_self, PageFlags.entry]
    case elsewhere =>
      intro d' isLive' virt' user' other
      by_cases sameTable : d' = d ∧ dirIndex virt' = dirIndex virt
      · -- another page of the new table, which is empty
        obtain ⟨rfl, sameDir⟩ := sameTable
        have differs : tableIndex virt' ≠ tableIndex virt := fun sameIndex =>
          other ⟨rfl, page_eq_iff.mpr ⟨sameDir, sameIndex⟩⟩
        have was : ¬ vm.mapped d' virt' := fun isMapped => by
          have present := isMapped.1
          rw [sameDir, absent] at present
          cases present
        refine ⟨iff_of_false (fun isMapped => ?_) was, fun isMapped => absurd isMapped was⟩
        have entry := isMapped.2
        simp [Vm.entry, sameDir, setEntry_self, setEntry_of_ne, PageFlags.entry, differs,
          Pte.absent] at entry
      · have dir : setEntry vm.directory d (dirIndex virt) ({ flags with writable := true }.entry t)
            d' (dirIndex virt') = vm.directory d' (dirIndex virt') :=
          setEntry_of_ne _ _ (not_and_or.mp sameTable)
        have entry : (vm.directory d' (dirIndex virt')).present →
            setEntry (update vm.table t fun _ => .absent) t (tableIndex virt) (flags.entry f)
              (vm.directory d' (dirIndex virt')).frame (tableIndex virt') =
            vm.entry d' virt' := by
          intro present
          have notNew : (vm.directory d' (dirIndex virt')).frame ≠ t :=
            sound.table_ne_free isLive' (dirIndex_lt user') present free
          rw [setEntry_of_ne _ _ (.inl notNew), update_of_ne notNew, Vm.entry]
        unfold Vm.mapped Vm.entry
        dsimp only
        rw [dir]
        refine ⟨and_congr_right fun present => ?_, fun isMapped => entry isMapped.1⟩
        rw [entry present, Vm.entry]
    case tables =>
      intro d' i
      by_cases same : d' = d ∧ i = dirIndex virt
      · obtain ⟨rfl, rfl⟩ := same
        refine .inr ?_
        simp [setEntry_self, PageFlags.entry, free]
      · exact .inl (setEntry_of_ne _ _ (not_and_or.mp same))
    case bytes => rfl
    case used =>
      intro c held
      by_cases here : c = t
      · simp [here]
      · simp [here, held]

theorem Maps.mapped (maps : Maps live vm d virt pte vm') (present : pte.present)
    (same : virt' / pageSize = virt / pageSize) : vm'.mapped d virt' := by
  obtain ⟨table, entry⟩ := maps.here virt' same
  exact ⟨table, entry ▸ present⟩

theorem Maps.reads (maps : Maps live vm d virt pte vm') (isLive' : live d')
    (user' : virt' < kernelBase) (other : ¬ SamePage d virt d' virt') :
    vm'.reads d' virt' = vm.reads d' virt' := by
  obtain ⟨mappedIff, entry⟩ := maps.elsewhere d' isLive' virt' user' other
  refine Vm.reads_congr mappedIff fun mapped => ?_
  rw [entry mapped, maps.bytes]

/-! ## What keeps the pages private -/

/-- Bytes do not matter. -/
theorem Private.store (priv : Private live vm) : Private live (vm.store d virt byte) where
  sound := priv.sound.grow (by constructor <;> rfl) fun _ used => used
  frameZero := priv.frameZero
  tables := priv.tables
  pages := priv.pages
  single := priv.single

/-- A write is not read at another page. -/
theorem Private.reads_store_of_ne (priv : Private live vm) (isLive : live d)
    (isLive' : live d') (user : virt < kernelBase) (user' : virt' < kernelBase)
    (mapped : vm.mapped d virt) (other : ¬ SamePage d virt d' virt') :
    (vm.store d virt byte).reads d' virt' = vm.reads d' virt' := by
  refine Vm.reads_store_of_frame_ne fun mapped' same => ?_
  exact other (priv.single d' d isLive' isLive virt' user' virt user mapped' mapped same)

/-- A write is read at its address only. -/
theorem reads_store_of_offset (mapped : vm.mapped d virt) (other : virt' ≠ virt)
    (same : virt' / pageSize = virt / pageSize) :
    (vm.store d virt byte).reads d virt' = vm.reads d virt' := by
  have mapped' := mapped.of_page same
  have entry : vm.entry d virt' = vm.entry d virt := by
    obtain ⟨dir, table⟩ := page_eq_iff.mp same
    simp [Vm.entry, dir, table]
  have offset : virt' % pageSize ≠ virt % pageSize := fun sameOffset =>
    other (by rw [← Nat.div_add_mod virt' pageSize, same, sameOffset, Nat.div_add_mod])
  unfold Vm.reads
  rw [if_pos (show (vm.store d virt byte).mapped d virt' from mapped'), if_pos mapped']
  show some (update vm.bytes _ _ (vm.entry d virt').frame _) = _
  rw [entry, update_self, update_of_ne offset]

/-- A page that was not mapped gets a new frame. -/
theorem Private.map (priv : Private live vm) (isLive : live d) (user : virt < kernelBase)
    (free : vm.used f = false) (nonzero : f ≠ 0)
    (mapped : vmmMapPage { vm with used := update vm.used f true } d virt f flags = some vm') :
    Private live vm' ∧ Maps live vm d virt (flags.entry f) vm' := by
  let allocated : Vm := { vm with used := update vm.used f true }
  have sound : Sound (systemOf live allocated) := priv.sound.alloc free
  have maps : Maps live allocated d virt (flags.entry f) vm' :=
    Maps.of_vmmMapPage sound isLive user mapped
  have unused : ∀ role, ¬ Refers (systemOf live allocated) f role := fun role refer =>
    priv.sound.not_refers free role (refer.congr (by constructor <;> rfl))
  have grows : ∀ c, vm.used c → allocated.used c := fun c held => by
    by_cases here : c = f
    · simp [allocated, here]
    · simp [allocated, here, held]
  have sound' : Sound (systemOf live vm') :=
    sound.mapPage (update_self _ _ _) (fun role refer => absurd refer (unused role)) mapped
  -- a page of the new memory is the new page, or an old one in another frame
  have pageCases : ∀ d', live d' → ∀ virt' < kernelBase, vm'.mapped d' virt' →
      (SamePage d virt d' virt' ∧ (vm'.entry d' virt').frame = f) ∨
        (vm.mapped d' virt' ∧ vm'.entry d' virt' = vm.entry d' virt' ∧
          (vm.entry d' virt').frame ≠ f) := by
    intro d' isLive' virt' user' isMapped'
    by_cases same : SamePage d virt d' virt'
    · obtain ⟨rfl, page⟩ := same
      exact .inl ⟨⟨rfl, page⟩, by rw [(maps.here virt' page).2]; rfl⟩
    · obtain ⟨mappedIff, entry⟩ := maps.elsewhere d' isLive' virt' user' same
      have isMapped : vm.mapped d' virt' := mappedIff.mp isMapped'
      refine .inr ⟨isMapped, entry isMapped, ?_⟩
      exact priv.sound.page_ne_free (s := systemOf live vm) isLive' user' isMapped free
  refine ⟨⟨sound', maps.used 0 (grows 0 priv.frameZero), ?_, ?_, ?_⟩, ?_⟩
  · intro d' isLive' i below present
    rcases maps.tables d' i with same | fresh
    · rw [same] at present ⊢
      exact priv.tables d' isLive' i below present
    · intro zero
      rw [zero, grows 0 priv.frameZero] at fresh
      cases fresh
  · intro d' isLive' virt' user' isMapped'
    rcases pageCases d' isLive' virt' user' isMapped' with ⟨-, frame⟩ | ⟨isMapped, entry, -⟩
    · exact frame ▸ nonzero
    · exact entry ▸ priv.pages d' isLive' virt' user' isMapped
  · intro d₁ d₂ live₁ live₂ virt₁ user₁ virt₂ user₂ mapped₁ mapped₂ same
    rcases pageCases d₁ live₁ virt₁ user₁ mapped₁ with ⟨page₁, frame₁⟩ | ⟨was₁, entry₁, other₁⟩
    · rcases pageCases d₂ live₂ virt₂ user₂ mapped₂ with ⟨page₂, -⟩ | ⟨-, entry₂, other₂⟩
      · exact ⟨page₁.1.trans page₂.1.symm, page₁.2.trans page₂.2.symm⟩
      · exact absurd (entry₂ ▸ same.symm.trans frame₁) other₂
    · rcases pageCases d₂ live₂ virt₂ user₂ mapped₂ with ⟨-, frame₂⟩ | ⟨was₂, entry₂, -⟩
      · exact absurd (entry₁ ▸ same.trans frame₂) other₁
      · rw [entry₁, entry₂] at same
        exact priv.single d₁ d₂ live₁ live₂ virt₁ user₁ virt₂ user₂ was₁ was₂ same
  · refine ⟨maps.here, maps.elsewhere, fun d' i => ?_, maps.bytes, fun c held =>
      maps.used c (grows c held)⟩
    refine (maps.tables d' i).imp id fun fresh => ?_
    by_contra held
    rw [grows _ (Bool.eq_true_of_not_eq_false held)] at fresh
    cases fresh

/-! ## Giving a page back -/

def giveBack (vm : Vm) (d virt : Nat) : Vm :=
  pmmFreePage (vm.clearEntry d virt) (vm.entry d virt).frame

section GiveBack

variable (priv : Private live vm) (isLive : live d) (user : virt < kernelBase)
  (mapped : vm.mapped d virt)

include priv isLive user mapped in
/-- The pages that are left are those of before but one, as they were. -/
theorem Private.mapped_clearEntry (isLive' : live d') (user' : virt' < kernelBase) :
    ((vm.clearEntry d virt).mapped d' virt' ↔ vm.mapped d' virt' ∧ ¬ SamePage d virt d' virt') ∧
      (¬ SamePage d virt d' virt' → vm.mapped d' virt' →
        (vm.clearEntry d virt).entry d' virt' = vm.entry d' virt') := by
  have entry (other : ¬ SamePage d virt d' virt')
      (present : (vm.directory d' (dirIndex virt')).present) :
      (vm.clearEntry d virt).entry d' virt' = vm.entry d' virt' :=
    priv.sound.entry_withEntry_of_ne (s := systemOf live vm) isLive isLive' user user' mapped.1
      present other
  refine ⟨⟨fun left => ?_, fun ⟨was, other⟩ => ⟨was.1, ?_⟩⟩, fun other was => entry other was.1⟩
  · have other : ¬ SamePage d virt d' virt' := by
      rintro ⟨rfl, page⟩
      have cleared : (vm.clearEntry d' virt).entry d' virt' = .absent :=
        Vm.entry_withEntry_self page
      have present := left.2
      rw [cleared] at present
      cases present
    exact ⟨⟨left.1, entry other left.1 ▸ left.2⟩, other⟩
  · rw [entry other was.1]
    exact was.2

include priv isLive user mapped in
/-- Nothing refers to the frame any more. -/
theorem Private.not_refers_clearEntry (role : Role) :
    ¬ Refers (systemOf live (vm.clearEntry d virt)) (vm.entry d virt).frame role := by
  intro refer
  have was : Refers (systemOf live vm) (vm.entry d virt).frame .page :=
    Vm.mapped.refers (s := systemOf live vm) mapped isLive (dirIndex_lt user)
  have old : Refers (systemOf live vm) (vm.entry d virt).frame role :=
    Refers.of_clearEntry (s := systemOf live vm) refer
  obtain rfl := priv.sound.role old was
  generalize same : (vm.entry d virt).frame = frame at refer
  cases refer with
  | @page d' i j isLive' below present index isMapped =>
    -- the address of the entry
    let virt' := i * 2 ^ 22 + j * pageSize
    have dir : dirIndex virt' = i := by
      unfold virt' dirIndex pageSize
      omega
    have tab : tableIndex virt' = j := by
      unfold virt' tableIndex pageSize
      omega
    have user' : virt' < kernelBase := by
      unfold virt' pageSize kernelBase
      unfold kernelIndex at below
      omega
    have left : (vm.clearEntry d virt).mapped d' virt' := by
      unfold Vm.mapped Vm.entry
      rw [dir, tab]
      exact ⟨present, isMapped⟩
    obtain ⟨mappedIff, entry⟩ := priv.mapped_clearEntry isLive user mapped isLive' user'
    obtain ⟨wasMapped, other⟩ := mappedIff.mp left
    have frame : (vm.entry d' virt').frame = (vm.entry d virt).frame := by
      rw [← entry other wasMapped, same, Vm.entry, dir, tab]
      rfl
    exact other (priv.single d' d isLive' isLive virt' user' virt user wasMapped mapped frame)
  | region found member => cases found

include priv isLive user mapped in
/-- Giving the frame of a page back. -/
theorem Private.giveBack : Private live (giveBack vm d virt) := by
  have soundCleared : Sound (systemOf live (vm.clearEntry d virt)) :=
    priv.sound.shrink (fun _ _ refer => Refers.of_clearEntry (s := systemOf live vm) refer)
      fun _ _ _ held => held
  have sound : Sound (systemOf live (PageReplace.giveBack vm d virt)) :=
    soundCleared.free (priv.not_refers_clearEntry isLive user mapped)
  obtain ⟨used, freed⟩ := pmmFreePage_eq (vm.clearEntry d virt) (vm.entry d virt).frame
  refine ⟨sound, ?_, ?_, ?_, ?_⟩
  · refine (pmmFreePage_used_of_ne ?_).trans priv.frameZero
    exact (priv.pages d isLive virt user mapped).symm
  · unfold PageReplace.giveBack
    rw [freed]
    exact priv.tables
  · intro d' isLive' virt' user' left
    unfold PageReplace.giveBack at left ⊢
    rw [freed] at left ⊢
    obtain ⟨mappedIff, entry⟩ := priv.mapped_clearEntry isLive user mapped isLive' user'
    obtain ⟨was, other⟩ := mappedIff.mp left
    exact (congrArg Pte.frame (entry other was)).trans_ne (priv.pages d' isLive' virt' user' was)
  · intro d₁ d₂ live₁ live₂ virt₁ user₁ virt₂ user₂ left₁ left₂ same
    unfold PageReplace.giveBack at left₁ left₂ same
    rw [freed] at left₁ left₂ same
    obtain ⟨mappedIff₁, entry₁⟩ := priv.mapped_clearEntry isLive user mapped live₁ user₁
    obtain ⟨mappedIff₂, entry₂⟩ := priv.mapped_clearEntry isLive user mapped live₂ user₂
    obtain ⟨was₁, other₁⟩ := mappedIff₁.mp left₁
    obtain ⟨was₂, other₂⟩ := mappedIff₂.mp left₂
    refine priv.single d₁ d₂ live₁ live₂ virt₁ user₁ virt₂ user₂ was₁ was₂ ?_
    rw [← entry₁ other₁ was₁, ← entry₂ other₂ was₂]
    exact same

include priv isLive user mapped in
theorem Private.reads_giveBack (isLive' : live d') (user' : virt' < kernelBase)
    (other : ¬ SamePage d virt d' virt') :
    (PageReplace.giveBack vm d virt).reads d' virt' = vm.reads d' virt' := by
  obtain ⟨used, freed⟩ := pmmFreePage_eq (vm.clearEntry d virt) (vm.entry d virt).frame
  obtain ⟨mappedIff, entry⟩ := priv.mapped_clearEntry isLive user mapped isLive' user'
  unfold PageReplace.giveBack
  rw [freed]
  refine Vm.reads_congr ⟨fun left => (mappedIff.mp left).1, fun was => mappedIff.mpr ⟨was, other⟩⟩
    fun was => ?_
  exact congrArg (fun pte => vm.bytes pte.frame) (entry other was)

end GiveBack

end FunsOS.PageReplace
