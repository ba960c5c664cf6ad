import FunsOS.Vmalloc.Areas

/-!
# Addresses are not used again

Freeing an area takes it off the list and leaves the cursor where it is, and the search for
an address starts at the cursor. So addresses behind the cursor are lost: after any history
that moved the cursor, there is a size that was granted at the start and is refused when all
areas are free again (`reusable_iff`). A call leaves the cursor at the start only if it asks
for nothing, or for more than the whole range.
-/

set_option autoImplicit false

namespace FunsOS.Vmalloc

open Foundation List Areas

/-! ## Requests -/

/-- A request for addresses. -/
inductive Request where
  | vmalloc (size : Nat)
  | vmap (count : Nat)
  deriving DecidableEq, Repr

/-- The argument is a 32-bit word. -/
def Request.Word : Request → Prop
  | .vmalloc size => size < wordLimit
  | .vmap count => count < wordLimit

/-- The call does not return NULL, when `kmalloc` succeeds. -/
def Request.Succeeds (s : Areas) : Request → Prop
  | .vmalloc size => (Vmalloc.vmalloc s size true true).2 ≠ 0
  | .vmap count => (Vmalloc.vmap s count 0 true true).2 ≠ 0

/-- The size that `get_vm_area` is called with. -/
def Request.size : Request → Nat
  | .vmalloc size => size
  | .vmap count => count * pageSize % wordLimit

/-- What was granted at the start is granted. -/
def Reusable (s : Areas) : Prop :=
  ∀ request : Request, request.Word → request.Succeeds vmallocInit → request.Succeeds s

section Requests

variable {s : Areas} {flags : Nat}

/-- What `get_vm_area` returns is decided by one comparison. -/
def Granted (s : Areas) (size : Nat) : Prop :=
  size ≠ 0 ∧ add32 s.nextVmallocAddr (alignUp size pageSize) ≤ vmallocEnd

theorem getVmArea_of_not_granted {size : Nat} (refused : ¬ Granted s size) :
    getVmArea s size flags true = (s, none) := by
  by_cases zero : size = 0
  · subst zero
    rfl
  · refine getVmArea_refused ?_
    by_contra fits
    exact refused ⟨zero, Nat.le_of_not_lt fits⟩

variable (below : Below s)
include below

theorem Below.cursor_ne_zero : s.nextVmallocAddr ≠ 0 := by
  have := below.start_le
  unfold vmallocStart at this
  omega

theorem vmalloc_ne_null_iff {size : Nat} : (vmalloc s size true true).2 ≠ 0 ↔ Granted s size := by
  unfold vmalloc
  by_cases granted : Granted s size
  · rw [if_neg granted.1, getVmArea_granted below granted.1 granted.2]
    exact iff_of_true below.cursor_ne_zero granted
  · rw [getVmArea_of_not_granted granted]
    refine iff_of_false ?_ granted
    split <;> simp

theorem vmap_ne_null_iff {count : Nat} :
    (vmap s count flags true true).2 ≠ 0 ↔ Granted s (count * pageSize % wordLimit) := by
  unfold vmap
  by_cases granted : Granted s (count * pageSize % wordLimit)
  · have nonzero : count ≠ 0 := fun zero => granted.1 (by simp [zero])
    rw [if_neg nonzero, getVmArea_granted below granted.1 granted.2]
    exact iff_of_true below.cursor_ne_zero granted
  · rw [getVmArea_of_not_granted granted]
    refine iff_of_false ?_ granted
    split <;> simp

/-- **A request is decided by one comparison.** -/
theorem Request.succeeds_iff {request : Request} : request.Succeeds s ↔ Granted s request.size := by
  cases request with
  | vmalloc size => exact vmalloc_ne_null_iff below
  | vmap count => exact vmap_ne_null_iff below

/-- **Only a cursor at the start grants what the start grants.** Behind it, the first size
that does not fit is one that did. -/
theorem reusable_iff_cursor : Reusable s ↔ s.nextVmallocAddr = vmallocStart := by
  constructor
  · intro reusable
    by_contra moved
    have behind : vmallocStart < s.nextVmallocAddr := Nat.lt_of_le_of_ne below.start_le (Ne.symm moved)
    have inside := below.le_end
    have again := reusable (.vmalloc (vmallocEnd - s.nextVmallocAddr + 1))
    rw [Request.succeeds_iff Below.init, Request.succeeds_iff below] at again
    unfold Request.Word Request.size Granted alignUp add32 vmallocInit pageSize vmallocStart
      vmallocEnd wordLimit at *
    dsimp only at *
    omega
  · intro same request _ succeeds
    rw [Request.succeeds_iff Below.init] at succeeds
    rw [Request.succeeds_iff below]
    unfold Granted at *
    rw [same]
    exact succeeds

end Requests

/-! ## Histories -/

/-- `kmalloc` succeeds. -/
def Op.Served : Op → Prop
  | .getVmArea _ _ areaOk => areaOk
  | .vmalloc _ areaOk memOk => areaOk ∧ memOk
  | .vmap _ _ areaOk pagesOk => areaOk ∧ pagesOk
  | .vfree _ | .vunmap _ => True

section Histories

variable {s : Areas} {op : Op}

theorem rounded_lt_wordLimit (op : Op) : op.rounded < wordLimit := by
  cases op with
  | getVmArea | vmalloc | vmap => exact alignUp_lt_wordLimit
  | vfree | vunmap => exact Nat.two_pow_pos 32

variable (below : Below s)
include below

theorem getVmArea_cursor (size flags : Nat) :
    (getVmArea s size flags true).1.nextVmallocAddr =
      if add32 s.nextVmallocAddr (alignUp size pageSize) ≤ vmallocEnd then
        advance s.nextVmallocAddr (alignUp size pageSize)
      else s.nextVmallocAddr := by
  by_cases granted : Granted s size
  · rw [getVmArea_granted below granted.1 granted.2, if_pos granted.2]
  · rw [getVmArea_of_not_granted granted]
    split
    case isTrue fits =>
      -- only a request for nothing fits and is refused
      obtain rfl : size = 0 := by
        by_contra nonzero
        exact granted ⟨nonzero, fits⟩
      unfold advance add32
      split <;> rename_i later
      · exact absurd (Nat.mod_le (s.nextVmallocAddr + 0) wordLimit) (Nat.not_le.mpr later)
      · rfl
    case isFalse => rfl

/-- The cursor after a call whose `kmalloc` succeeds. -/
theorem step_cursor (served : op.Served) :
    (s.step op).nextVmallocAddr =
      if add32 s.nextVmallocAddr op.rounded ≤ vmallocEnd then advance s.nextVmallocAddr op.rounded
      else s.nextVmallocAddr := by
  have nothing : s.nextVmallocAddr = if add32 s.nextVmallocAddr 0 ≤ vmallocEnd then
      advance s.nextVmallocAddr 0 else s.nextVmallocAddr := getVmArea_cursor below 0 0
  have freed (addr : Nat) : (vfree s addr).nextVmallocAddr = s.nextVmallocAddr := by
    unfold vfree
    split <;> rfl
  cases op with
  | getVmArea size flags areaOk =>
    obtain rfl : areaOk := served
    exact getVmArea_cursor below size flags
  | vmalloc size areaOk memOk =>
    obtain ⟨rfl, rfl⟩ : areaOk ∧ memOk := served
    refine Eq.trans ?_ (getVmArea_cursor below size vmAlloc)
    change (vmalloc s size true true).1.nextVmallocAddr = _
    unfold vmalloc
    by_cases zero : size = 0
    · subst zero
      rfl
    · rw [if_neg zero]
      split
      case h_1 refused => rw [refused]
      case h_2 granted => rw [granted, if_neg (by decide)]
  | vmap count flags areaOk pagesOk =>
    obtain ⟨rfl, rfl⟩ : areaOk ∧ pagesOk := served
    refine Eq.trans ?_ (getVmArea_cursor below (count * pageSize % wordLimit) (flags ||| vmMap))
    change (vmap s count flags true true).1.nextVmallocAddr = _
    unfold vmap
    by_cases zero : count = 0
    · subst zero
      rfl
    · rw [if_neg zero]
      split
      case h_1 refused => rw [refused]
      case h_2 granted => rw [granted, if_neg (by decide)]
  | vfree addr | vunmap addr => exact (freed addr).trans nothing

/-- The call asks for nothing, or for more than the whole range. -/
def Op.Idle (op : Op) : Prop := op.rounded = 0 ∨ vmallocEnd - vmallocStart < op.rounded

/-- A call leaves the cursor at the start exactly if it is idle. -/
theorem step_at_start_iff (served : op.Served) :
    (s.step op).nextVmallocAddr = vmallocStart ↔ s.nextVmallocAddr = vmallocStart ∧ op.Idle := by
  have first := below.start_le
  have word := rounded_lt_wordLimit op
  rw [step_cursor below served]
  unfold Op.Idle advance add32 vmallocStart vmallocEnd wordLimit at *
  split
  case isTrue fits =>
    split
    case isTrue later => omega
    case isFalse => omega
  case isFalse => omega

/-- The cursor after a history. -/
theorem run_at_start_iff {ops : List Op} (served : ∀ op ∈ ops, op.Served) :
    (ops.foldl step s).nextVmallocAddr = vmallocStart ↔
      s.nextVmallocAddr = vmallocStart ∧ ∀ op ∈ ops, op.Idle := by
  induction ops generalizing s with
  | nil => simp
  | cons op ops ih =>
    rw [forall_mem_cons] at served ⊢
    rw [foldl_cons, ih (below.step op) served.2, step_at_start_iff below served.1, and_assoc]

theorem Below.run (ops : List Op) : Below (ops.foldl Areas.step s) :=
  foldl_invariant (P := Below) (fun _ op holds => holds.step op) below ops

def releaseAll (s : Areas) : List Op := s.vmList.map fun area => .vfree area.addr

theorem releaseAll_empties : ((releaseAll s).foldl step s).vmList = [] := by
  have starts := below.starts
  unfold releaseAll
  obtain ⟨areas, next⟩ := s
  clear below
  induction areas with
  | nil => rfl
  | cons area areas ih =>
    have nonnull : area.addr ≠ 0 := by
      have := starts area mem_cons_self
      unfold vmallocStart at this
      omega
    have freed : step ⟨area :: areas, next⟩ (.vfree area.addr) = ⟨areas, next⟩ := by
      unfold step vfree freeVmArea
      dsimp only
      rw [if_neg nonnull, eraseP_cons_of_pos (by simp)]
    rw [map_cons, foldl_cons, freed]
    exact ih (forall_mem_cons.mp starts).2

end Histories

/-- **Addresses are reusable only after a history that used none**: when all areas are
freed, everything that was granted at the start is granted again exactly if every call of
the history was idle. -/
theorem reusable_iff {ops : List Op} (served : ∀ op ∈ ops, op.Served) :
    let s := ops.foldl step vmallocInit
    let freed := (releaseAll s).foldl step s
    freed.vmList = [] ∧ (Reusable freed ↔ ∀ op ∈ ops, op.Idle) := by
  have below := Below.init.run ops
  have idle : ∀ op ∈ releaseAll (ops.foldl Areas.step vmallocInit), op.Served ∧ op.Idle := by
    intro op member
    obtain ⟨area, -, rfl⟩ := mem_map.mp member
    exact ⟨trivial, .inl rfl⟩
  refine ⟨releaseAll_empties below, ?_⟩
  rw [reusable_iff_cursor (below.run _), run_at_start_iff below fun op member => (idle op member).1,
    run_at_start_iff Below.init served]
  constructor
  · rintro ⟨⟨-, history⟩, -⟩
    exact history
  · intro history
    exact ⟨⟨rfl, history⟩, fun op member => (idle op member).2⟩

/-- The theorem at a history with one request, for more than the whole range. -/
theorem reusable_after_refused :
    let s := [Op.vmalloc 0x0F900000 true true].foldl step vmallocInit
    Reusable ((releaseAll s).foldl step s) := by
  have history : ∀ op ∈ [Op.vmalloc 0x0F900000 true true], op.Served ∧ op.Idle := by
    intro op member
    rw [mem_singleton.mp member]
    exact ⟨⟨rfl, rfl⟩, .inr (by decide)⟩
  exact (reusable_iff fun op member => (history op member).1).2.mpr fun op member =>
    (history op member).2

/-- **One page is enough**: after it has been freed, the whole range is refused, which was
granted at the start. -/
theorem freed_page_not_reusable :
    let s := [Op.vmalloc 4096 true true, .vfree 0xF0000000].foldl step vmallocInit
    s.vmList = [] ∧ (vmalloc vmallocInit 0x0F800000 true true).2 = 0xF0000000 ∧
      (vmalloc s 0x0F800000 true true).2 = 0 := by
  decide

end FunsOS.Vmalloc
