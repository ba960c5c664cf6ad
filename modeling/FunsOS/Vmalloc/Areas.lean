import FunsOS.Foundation.Runs
import FunsOS.Foundation.Word32

/-!
# Areas of virtual addresses

`kernel/vmalloc.c` after `vmalloc_init`. All sums are of 32-bit words. Whether `kmalloc`
gives memory for the record of an area and for its pages is an argument of the calls; the
memory itself, the names of areas and the counters, which are only printed, are left out.

The search for an address starts at the cursor. It never has to go on: every area ends at
or before the cursor, in the arithmetic of the overlap test (`Below`), so the first address
does not overlap. A request is therefore decided by the one comparison with `VMALLOC_END`
(`getVmArea_granted`, `getVmArea_refused`).
-/

set_option autoImplicit false

namespace FunsOS.Vmalloc

open Foundation List

def vmallocStart : Nat := 0xF0000000

def vmallocEnd : Nat := 0xFF800000

def pageSize : Nat := 4096

def vmAlloc : Nat := 0x0002

def vmMap : Nat := 0x0004

/-- `struct vm_struct`. -/
structure VmStruct where
  addr : Nat
  size : Nat
  flags : Nat
  nrPages : Nat
  deriving DecidableEq, Repr

/-- The static variables. -/
structure Areas where
  vmList : List VmStruct
  nextVmallocAddr : Nat
  deriving DecidableEq, Repr

def vmallocInit : Areas := ⟨[], vmallocStart⟩

variable (s : Areas) {areaOk : Bool}

def Areas.overlaps (first last : Nat) : Bool :=
  s.vmList.any fun tmp =>
    !(decide (last ≤ tmp.addr) || decide (add32 tmp.addr tmp.size ≤ first))

/-- The loop of `get_vm_area`, with the number of tries that are left; the flag says that
none was. -/
def Areas.search (s : Areas) (size : Nat) : Nat → Nat → Nat × Bool
  | 0, addr => (addr, true)
  | left + 1, addr =>
    if add32 addr size ≤ vmallocEnd then
      if s.overlaps addr (add32 addr size) then s.search size left (add32 addr pageSize)
      else (addr, false)
    else (addr, false)

def getVmArea (size flags : Nat) (areaOk : Bool) : Areas × Option VmStruct :=
  if size = 0 then (s, none)
  else
    let size := alignUp size pageSize
    if !areaOk then (s, none)
    else
      let found := s.search size 1024 s.nextVmallocAddr
      let addr := found.1
      if vmallocEnd < add32 addr size ∨ found.2 then (s, none)
      else
        let area : VmStruct := ⟨addr, size, flags, 0⟩
        (⟨area :: s.vmList,
          if s.nextVmallocAddr < add32 addr size then add32 addr size else s.nextVmallocAddr⟩,
          some area)

/-- `find_vm_area` and `free_vm_area`: the first area at an address is taken off the list. -/
def freeVmArea (addr : Nat) : Areas :=
  { s with vmList := s.vmList.eraseP fun area => area.addr == addr }

/-- `vmalloc`; NULL is 0. -/
def vmalloc (size : Nat) (areaOk memOk : Bool) : Areas × Nat :=
  if size = 0 then (s, 0)
  else
    match getVmArea s size vmAlloc areaOk with
    | (s, none) => (s, 0)
    | (s, some area) =>
      -- the new area is at the head of the list
      if !memOk then ({ s with vmList := s.vmList.tail }, 0) else (s, area.addr)

/-- `vfree` and `vunmap`, which differ in the counters they keep. -/
def vfree (addr : Nat) : Areas := if addr = 0 then s else freeVmArea s addr

/-- `vmap` of an array of pages. -/
def vmap (count flags : Nat) (areaOk pagesOk : Bool) : Areas × Nat :=
  if count = 0 then (s, 0)
  else
    match getVmArea s (count * pageSize % wordLimit) (flags ||| vmMap) areaOk with
    | (s, none) => (s, 0)
    | (s, some area) =>
      if !pagesOk then ({ s with vmList := s.vmList.tail }, 0)
      else
        ({ s with vmList := { area with nrPages := count } :: s.vmList.tail }, area.addr)

/-! ## Runs -/

/-- The calls, with what `kmalloc` does. -/
inductive Op where
  | getVmArea (size flags : Nat) (areaOk : Bool)
  | vmalloc (size : Nat) (areaOk memOk : Bool)
  | vfree (addr : Nat)
  | vmap (count flags : Nat) (areaOk pagesOk : Bool)
  | vunmap (addr : Nat)
  deriving DecidableEq, Repr

/-- The state after a call. -/
def Areas.step : Op → Areas
  | .getVmArea size flags areaOk => (getVmArea s size flags areaOk).1
  | .vmalloc size areaOk memOk => (vmalloc s size areaOk memOk).1
  | .vfree addr | .vunmap addr => vfree s addr
  | .vmap count flags areaOk pagesOk => (vmap s count flags areaOk pagesOk).1

/-- The size that a call asks `get_vm_area` for, after rounding. -/
def Op.rounded : Op → Nat
  | .getVmArea size _ _ | .vmalloc size _ _ => alignUp size pageSize
  | .vmap count _ _ _ => alignUp (count * pageSize % wordLimit) pageSize
  | .vfree _ | .vunmap _ => 0

/-! ## The cursor -/

/-- The cursor is in the range of addresses, and every area ends at or before it as far as
the overlap test can see. -/
structure Below (s : Areas) : Prop where
  start_le : vmallocStart ≤ s.nextVmallocAddr
  le_end : s.nextVmallocAddr ≤ vmallocEnd
  ends : ∀ area ∈ s.vmList, add32 area.addr area.size ≤ s.nextVmallocAddr
  starts : ∀ area ∈ s.vmList, vmallocStart ≤ area.addr

section Below

variable {s : Areas} {size flags : Nat}

/-- Nothing overlaps what starts at the cursor. -/
theorem Below.overlaps (below : Below s) {last : Nat} :
    s.overlaps s.nextVmallocAddr last = false := by
  unfold Areas.overlaps
  rw [any_eq_false]
  intro area member
  simp [below.ends area member]

/-- The cursor after an area of a size. -/
def advance (next size : Nat) : Nat := if next < add32 next size then add32 next size else next

/-- **A request that ends before `VMALLOC_END`** gets the addresses at the cursor. -/
theorem getVmArea_granted (below : Below s) (nonzero : size ≠ 0)
    (fits : add32 s.nextVmallocAddr (alignUp size pageSize) ≤ vmallocEnd) :
    getVmArea s size flags true =
      (⟨⟨s.nextVmallocAddr, alignUp size pageSize, flags, 0⟩ :: s.vmList,
        advance s.nextVmallocAddr (alignUp size pageSize)⟩,
        some ⟨s.nextVmallocAddr, alignUp size pageSize, flags, 0⟩) := by
  have found : s.search (alignUp size pageSize) 1024 s.nextVmallocAddr =
      (s.nextVmallocAddr, false) := by
    unfold Areas.search
    rw [if_pos fits, below.overlaps, if_neg (by decide)]
  unfold getVmArea
  rw [if_neg nonzero]
  rw [if_neg (by decide), found, if_neg (by simpa using fits)]
  rfl

theorem getVmArea_refused (behind : vmallocEnd < add32 s.nextVmallocAddr (alignUp size pageSize)) :
    getVmArea s size flags areaOk = (s, none) := by
  have found : s.search (alignUp size pageSize) 1024 s.nextVmallocAddr =
      (s.nextVmallocAddr, false) := by
    unfold Areas.search
    rw [if_neg (Nat.not_le.mpr behind)]
  unfold getVmArea
  split
  case isTrue => rfl
  case isFalse =>
    dsimp only
    split
    case isTrue => rfl
    case isFalse => rw [found, if_pos (.inl behind)]

/-- What `get_vm_area` can do. -/
theorem getVmArea_cases (below : Below s) : getVmArea s size flags areaOk = (s, none) ∨
      (add32 s.nextVmallocAddr (alignUp size pageSize) ≤ vmallocEnd ∧
        getVmArea s size flags areaOk =
          (⟨⟨s.nextVmallocAddr, alignUp size pageSize, flags, 0⟩ :: s.vmList,
            advance s.nextVmallocAddr (alignUp size pageSize)⟩,
            some ⟨s.nextVmallocAddr, alignUp size pageSize, flags, 0⟩)) := by
  cases areaOk with
  | false =>
    refine .inl ?_
    unfold getVmArea
    split <;> rfl
  | true =>
    by_cases zero : size = 0
    · subst zero
      exact .inl rfl
    · by_cases fits : add32 s.nextVmallocAddr (alignUp size pageSize) ≤ vmallocEnd
      · exact .inr ⟨fits, getVmArea_granted below zero fits⟩
      · exact .inl (getVmArea_refused (Nat.lt_of_not_le fits))

/-! ## One call -/

/-- A call that grants nothing, or gives something back. -/
def Keeps (s next : Areas) : Prop :=
  next.nextVmallocAddr = s.nextVmallocAddr ∧ next.vmList.Sublist s.vmList

/-- A call that moves the cursor over the size it asked for. Its area is on the list unless
`kmalloc` failed afterwards. -/
structure Grants (s : Areas) (op : Op) (next : Areas) : Prop where
  fits : add32 s.nextVmallocAddr op.rounded ≤ vmallocEnd
  cursor : next.nextVmallocAddr = advance s.nextVmallocAddr op.rounded
  areas : next.vmList = s.vmList ∨
    ∃ area, next.vmList = area :: s.vmList ∧ area.addr = s.nextVmallocAddr ∧
      area.size = op.rounded ∧
      (area.nrPages = 0 ∨ ∃ flags areaOk pagesOk, op = .vmap area.nrPages flags areaOk pagesOk)

/-- **What a call can do.** -/
theorem step_cases (below : Below s) {op : Op} : Keeps s (s.step op) ∨ Grants s op (s.step op) := by
  have kept : Keeps s s := ⟨rfl, List.Sublist.refl _⟩
  have freed (addr : Nat) : Keeps s (vfree s addr) := by
    unfold vfree
    split
    case isTrue => exact kept
    case isFalse => exact ⟨rfl, eraseP_sublist⟩
  cases op with
  | getVmArea size flags areaOk =>
    unfold Areas.step
    dsimp only
    rcases getVmArea_cases below with refused | ⟨fits, granted⟩
    · rw [refused]
      exact .inl kept
    · rw [granted]
      exact .inr ⟨fits, rfl, .inr ⟨_, rfl, rfl, rfl, .inl rfl⟩⟩
  | vmalloc | vmap =>
    simp only [Areas.step, vmalloc, vmap]
    split
    case isTrue => exact .inl kept
    case isFalse =>
      rcases getVmArea_cases below with refused | ⟨fits, granted⟩
      · rw [refused]
        exact .inl kept
      · rw [granted]
        dsimp only
        split
        case isTrue => exact .inr ⟨fits, rfl, .inl rfl⟩
        case isFalse =>
          refine .inr ⟨fits, rfl, .inr ⟨_, rfl, rfl, rfl, ?_⟩⟩
          first | exact .inl rfl | exact .inr ⟨_, _, _, rfl⟩
  | vfree addr | vunmap addr => exact .inl (freed addr)

theorem le_advance (next size : Nat) : next ≤ advance next size := by
  unfold advance
  split <;> omega

theorem advance_le {next size limit : Nat} (first : next ≤ limit) (last : add32 next size ≤ limit) :
    advance next size ≤ limit := by
  unfold advance
  split
  case isTrue => exact last
  case isFalse => exact first

/-- The cursor stays in the range of addresses and behind the areas, whatever the sizes. -/
theorem Below.step (below : Below s) (op : Op) : Below (s.step op) := by
  rcases step_cases below with ⟨cursor, areas⟩ | ⟨fits, cursor, areas⟩
  · refine ⟨cursor ▸ below.start_le, cursor ▸ below.le_end, fun area member => ?_, fun area member =>
      below.starts area (areas.subset member)⟩
    rw [cursor]
    exact below.ends area (areas.subset member)
  · have later := le_advance s.nextVmallocAddr op.rounded
    have old : ∀ area ∈ s.vmList, add32 area.addr area.size ≤ (s.step op).nextVmallocAddr := by
      intro area member
      rw [cursor]
      exact (below.ends area member).trans later
    refine ⟨cursor ▸ below.start_le.trans later, cursor ▸ advance_le below.le_end fits, ?_, ?_⟩
    · rcases areas with same | ⟨area, new, addr, size, -⟩
      · rw [same]
        exact old
      · rw [new]
        refine forall_mem_cons.mpr ⟨?_, old⟩
        rw [addr, size, cursor, advance]
        split <;> omega
    · rcases areas with same | ⟨area, new, addr, -⟩
      · rw [same]
        exact below.starts
      · rw [new]
        exact forall_mem_cons.mpr ⟨addr ▸ below.start_le, below.starts⟩

theorem Below.init : Below vmallocInit := ⟨by decide, by decide, nofun, nofun⟩

end Below

/-!
## Areas do not overlap

As long as the end of a request is a 32-bit word, the areas on the list are disjoint, lie
in the range of `vmalloc`, and those of `vmap` have room for their pages
(`areas_disjoint`). Near the top of the address space the sums wrap: a request for more than
is left up to `2 ^ 32` passes the test against `VMALLOC_END`, runs over the top, and leaves
the cursor where it is, so that the next area overlaps it. The size that `vmap` computes
wraps as well.
-/

/-- The address ranges of two areas are disjoint. -/
def VmStruct.Apart (a b : VmStruct) : Prop := a.addr + a.size ≤ b.addr ∨ b.addr + b.size ≤ a.addr

/-- The areas are disjoint, inside the range, and as long as their pages. -/
structure Sound (s : Areas) : Prop where
  apart : s.vmList.Pairwise VmStruct.Apart
  inside : ∀ area ∈ s.vmList, vmallocStart ≤ area.addr ∧ area.addr + area.size ≤ vmallocEnd
  spans : ∀ area ∈ s.vmList, area.nrPages * pageSize ≤ area.size

def Op.PagesFit : Op → Prop
  | .vmap count _ _ _ => count * pageSize < wordLimit
  | .getVmArea .. | .vmalloc .. | .vfree _ | .vunmap _ => True

instance : ∀ op : Op, Decidable op.PagesFit
  | .vmap count _ _ _ => inferInstanceAs (Decidable (count * pageSize < wordLimit))
  | .getVmArea .. | .vmalloc .. | .vfree _ | .vunmap _ => inferInstanceAs (Decidable True)

/-- The end of the request is a word, and so is the length of the pages to map. -/
def NoWrap (s : Areas) (op : Op) : Prop := s.nextVmallocAddr + op.rounded < wordLimit ∧ op.PagesFit
deriving Decidable

/-- The invariant: the areas end at or before the cursor as numbers, not only as words. -/
structure Stacked (s : Areas) : Prop extends Sound s, Below s where
  behind : ∀ area ∈ s.vmList, area.addr + area.size ≤ s.nextVmallocAddr

section Stacked

variable {s next : Areas} {op : Op}

/-- Pages whose length is a word are rounded to themselves. -/
theorem rounded_vmap {count flags : Nat} {pagesOk : Bool} (fits : count * pageSize < wordLimit) :
    (Op.vmap count flags areaOk pagesOk).rounded = count * pageSize := by
  unfold Op.rounded alignUp wordLimit pageSize at *
  dsimp only
  omega

theorem Stacked.keeps (stacked : Stacked s) (keeps : Keeps s next) (below : Below next) :
    Stacked next where
  toBelow := below
  apart := stacked.apart.sublist keeps.2
  inside area member := stacked.inside area (keeps.2.subset member)
  spans area member := stacked.spans area (keeps.2.subset member)
  behind area member := by
    rw [keeps.1]
    exact stacked.behind area (keeps.2.subset member)

/-- The new area starts where the others have ended. -/
theorem Stacked.grants (stacked : Stacked s) (grants : Grants s op next) (noWrap : NoWrap s op)
    (below : Below next) : Stacked next := by
  obtain ⟨fits, cursor, areas⟩ := grants
  have sum := add32_of_lt noWrap.1
  rw [sum] at fits
  have moved : next.nextVmallocAddr = s.nextVmallocAddr + op.rounded := by
    rw [cursor]
    unfold advance
    split <;> omega
  have old : ∀ area ∈ s.vmList, area.addr + area.size ≤ next.nextVmallocAddr := by
    intro area member
    have := stacked.behind area member
    omega
  rcases areas with same | ⟨area, new, addr, size, pages⟩
  · refine ⟨⟨?_, ?_, ?_⟩, below, ?_⟩
    · exact same ▸ stacked.apart
    · exact same ▸ stacked.inside
    · exact same ▸ stacked.spans
    · exact same ▸ old
  · refine ⟨⟨?_, ?_, ?_⟩, below, ?_⟩
    · rw [new, pairwise_cons]
      refine ⟨fun other member => .inr ?_, stacked.apart⟩
      rw [addr]
      exact stacked.behind other member
    · rw [new]
      refine forall_mem_cons.mpr ⟨?_, stacked.inside⟩
      rw [addr, size]
      exact ⟨stacked.start_le, fits⟩
    · rw [new]
      refine forall_mem_cons.mpr ⟨?_, stacked.spans⟩
      rcases pages with none | ⟨flags, areaOk, pagesOk, rfl⟩
      · rw [none]
        exact Nat.zero_le _
      · rw [size, rounded_vmap noWrap.2]
    · rw [new]
      refine forall_mem_cons.mpr ⟨?_, old⟩
      rw [addr, size, moved]

theorem Stacked.step (stacked : Stacked s) (noWrap : NoWrap s op) : Stacked (s.step op) := by
  have below := stacked.toBelow.step op
  rcases step_cases stacked.toBelow with keeps | grants
  · exact stacked.keeps keeps below
  · exact stacked.grants grants noWrap below

theorem Stacked.init : Stacked vmallocInit where
  toBelow := Below.init
  apart := List.Pairwise.nil
  inside _ member := by cases member
  spans _ member := by cases member
  behind _ member := by cases member

end Stacked

/-- **Areas never overlap** in a run whose requests do not wrap. -/
theorem areas_disjoint {ops : List Op} (noWrap : Meets Areas.step NoWrap vmallocInit ops) :
    Sound (ops.foldl Areas.step vmallocInit) :=
  (noWrap.invariant (fun _ _ stacked condition => Stacked.step stacked condition)
    Stacked.init).toSound

/-- The theorem at a run with three areas, one of which is freed. -/
theorem areas_disjoint_three :
    let ops : List Op := [.vmalloc 5000 true true, .vmap 3 0 true true, .vfree 0xF0000000,
      .vmalloc 1 true true]
    (ops.foldl Areas.step vmallocInit).vmList.length = 2 ∧
      Sound (ops.foldl Areas.step vmallocInit) :=
  ⟨by decide, areas_disjoint (by decide)⟩

/-- A request for 512 MB, and one for a page. -/
def halfGigabyte : Areas :=
  [Op.vmalloc 0x20000000 true true, .vmalloc 4096 true true].foldl Areas.step vmallocInit

/-- A request to map 1048577 pages. -/
def manyPages : Areas := [Op.vmap 0x100001 0 true true].foldl Areas.step vmallocInit

/-- **Requests that wrap**: 512 MB are granted of an area that has 248 MB, and the next page
is at the same address; `vmap` of 1048577 pages gives an area of one page. -/
theorem wrapped_areas_overlap :
    halfGigabyte.vmList.map (fun area => (area.addr, area.size)) =
        [(0xF0000000, 4096), (0xF0000000, 0x20000000)] ∧
      ¬ Sound halfGigabyte ∧
      manyPages.vmList.map (fun area => (area.nrPages, area.size)) = [(0x100001, 4096)] ∧
      ¬ Sound manyPages := by
  refine ⟨by decide, fun sound => ?_, by decide, fun sound => ?_⟩
  · have apart := sound.apart
    revert apart
    unfold VmStruct.Apart
    decide
  · have spans := sound.spans
    revert spans
    decide

end FunsOS.Vmalloc
