import FunsOS.Foundation.Runs
import FunsOS.Kheap.Blocks

/-!
# Heap integrity over whole runs

A run starts with `kheap_init` and goes on with any heap calls. The state keeps
the pointers handed out and not yet given back, with the number of bytes asked
for. `Integrity` is what every state of a run should satisfy: the header list is
strictly increasing, every block ends before the next one starts and inside the
heap, and every live block is as large as its request.

`heap_integrity` proves it for runs whose requests can be served
(`AllocOk`). Without that condition it fails:
`growth_without_pages_overlaps` is a run in which `pmm_alloc_page` returns NULL
and `kmalloc` writes its new header into a block in use.
-/

set_option autoImplicit false

namespace FunsOS.Kheap

open Foundation List Nat Option

/-! ## The machine -/

/-- The heap, and the live pointers with the bytes asked for. -/
structure State where
  heap : Heap
  live : List (Nat × Nat)

/-- The calls, each with the pages `pmm_alloc_page` will still hand out. -/
inductive Op where
  | kmalloc (size avail : Nat)
  | kcalloc (num size avail : Nat)
  | krealloc (ptr : Option Nat) (size avail : Nat)
  | kfree (ptr : Option Nat)

/-- A pointer that was returned is live. -/
def remember (result : Option Nat) (n : Nat) (live : List (Nat × Nat)) : List (Nat × Nat) :=
  match result with
  | none => live
  | some q => (q, n) :: live

/-- A pointer that was given back is not. -/
def forget (ptr : Option Nat) (live : List (Nat × Nat)) : List (Nat × Nat) :=
  live.filter fun entry => some entry.1 ≠ ptr

/-- The live pointers after `krealloc`: the old block is given up when the call
frees it, or moves or keeps it for the new size. -/
def reallocLive (ptr : Option Nat) (size : Nat) (result : Option Nat)
    (live : List (Nat × Nat)) : List (Nat × Nat) :=
  if size = 0 then forget ptr live
  else if result = none then live
  else remember result size (forget ptr live)

/-- One call. -/
def step (s : State) : Op → Option State
  | .kmalloc size avail =>
    (kmalloc s.heap size avail).map fun (h, result) => ⟨h, remember result size s.live⟩
  | .kcalloc num size avail =>
    (kcalloc s.heap num size avail).map fun (h, result) =>
      ⟨h, remember result (num * size) s.live⟩
  | .krealloc ptr size avail =>
    (krealloc s.heap ptr size avail).map fun (h, result) =>
      ⟨h, reallocLive ptr size result s.live⟩
  | .kfree ptr => (kfree s.heap ptr).map fun h => ⟨h, forget ptr s.live⟩

/-- The state after `kheap_init`. -/
def start (memory : Heap) (base size avail : Nat) : State := ⟨kheapInit memory base size avail, []⟩

/-! ## The property -/

def Integrity (s : State) : Prop :=
  ∃ as, Seg s.heap.next s.heap.heapFirst as none ∧ as.Pairwise (· < ·) ∧
    as.Pairwise (fun a b => a + headerSize + s.heap.size a ≤ b) ∧
    (∀ a ∈ as, s.heap.heapStart ≤ a ∧ a + headerSize + s.heap.size a ≤ s.heap.heapCurrent) ∧
    ∀ entry ∈ s.live, ∃ a ∈ as, entry.1 = a + headerSize ∧ entry.2 ≤ s.heap.size a

/-- Every live pointer is the payload of a block in use of at least the size
asked for. -/
def LiveIn (h : Heap) (as : List Nat) (live : List (Nat × Nat)) : Prop :=
  ∀ entry ∈ live, ∃ a, InUse h as a ∧ entry.1 = a + headerSize ∧ entry.2 ≤ h.size a

/-- The invariant of a run. -/
def Sound (s : State) : Prop := ∃ as, Blocks s.heap as ∧ LiveIn s.heap as s.live

variable {s : State} {op : Op}

theorem Sound.integrity (sound : Sound s) : Integrity s := by
  obtain ⟨as, blocks, live⟩ := sound
  have ends : as.Pairwise fun a b => a + headerSize + s.heap.size a ≤ b :=
    blocks.laid.pairwise.imp fun {a b} before => by
      rw [extent] at before
      omega
  refine ⟨as, blocks.chain, ends.imp fun {a b} before => ?_, ends, fun a member => ?_, ?_⟩
  · have positive : 0 < headerSize := by decide
    omega
  · obtain ⟨lower, upper⟩ := blocks.laid.bounds member
    rw [extent] at upper
    omega
  · intro entry member
    obtain ⟨a, inUse, pointer, size⟩ := live entry member
    exact ⟨a, inUse.1, pointer, size⟩

/-! ## What the calls must meet -/

/-- The pointer passed to `kfree` or `krealloc` is NULL or live. -/
def LivePointer (s : State) (ptr : Option Nat) : Prop := ∀ p, ptr = some p → ∃ n, (p, n) ∈ s.live

/-- The calls a program may make: arguments are 32-bit words, and pointers given
to `kfree` and `krealloc` are NULL or live. -/
def Legal (s : State) : Op → Prop
  | .kmalloc size _ => size < wordLimit
  | .kcalloc num size _ => num < wordLimit ∧ size < wordLimit
  | .krealloc ptr size _ => size < wordLimit ∧ LivePointer s ptr
  | .kfree ptr => LivePointer s ptr

/-- A request that reaches `kmalloc` can be served. -/
def Served (s : State) : Op → Prop
  | .kmalloc size avail => AllocOk s.heap size avail
  | .kcalloc num size avail => num * size < wordLimit → AllocOk s.heap (num * size) avail
  | .krealloc ptr size avail =>
    (∀ p, ptr = some p → s.heap.size (p - headerSize) < size) → AllocOk s.heap size avail
  | .kfree _ => True

/-- The condition on `kheap_init`: the range is above the first page, holds a
header, and ends, rounded up to pages, below `2 ^ 32`. -/
def InitOk (base size : Nat) : Prop :=
  pageSize ≤ base ∧ headerSize ≤ size ∧ base + size + (pageSize - 1) < wordLimit
deriving Decidable

/-! ## The start -/

theorem initPages_spec {pages current : Nat} (avail : Nat)
    (fits : current + pages * pageSize < wordLimit) :
    (pages ≤ avail ∧ initPages pages avail current = (current + pages * pageSize, true)) ∨
      (avail < pages ∧ ∃ reached, initPages pages avail current = (reached, false) ∧
        current ≤ reached ∧ reached < wordLimit) := by
  induction pages generalizing avail current with
  | zero => exact .inl ⟨zero_le avail, by simp [initPages]⟩
  | succ pages ih =>
    rw [succ_mul] at fits
    cases avail with
    | zero => exact .inr ⟨succ_pos pages, current, rfl, le_refl current, by omega⟩
    | succ avail =>
      have page : add32 current pageSize = current + pageSize := add32_of_lt (by omega)
      rw [initPages, page]
      have shorter : current + pageSize + pages * pageSize < wordLimit := by omega
      rcases ih avail shorter with
        ⟨enough, mapped⟩ | ⟨few, reached, stopped, lower, upper⟩
      · refine .inl ⟨succ_le_succ enough, ?_⟩
        rw [mapped, succ_mul]
        exact congrArg (·, true) (by omega)
      · exact .inr ⟨succ_lt_succ few, reached, stopped, by omega, upper⟩

/-- The list after `kheap_init`: one free block, or none when pages ran out. -/
theorem start_sound (memory : Heap) {base size : Nat} (ok : InitOk base size) (avail : Nat) :
    Sound (start memory base size avail) := by
  obtain ⟨above, header, below⟩ := ok
  have page : pageSize = 4096 := rfl
  have rounded : add32 size (pageSize - 1) = size + (pageSize - 1) := add32_of_lt (by omega)
  have pages := div_mul_le_self (size + (pageSize - 1)) pageSize
  have covers : size ≤ (size + (pageSize - 1)) / pageSize * pageSize := by
    have division := div_add_mod (size + (pageSize - 1)) pageSize
    have remainder := mod_lt (size + (pageSize - 1)) (show 0 < pageSize by decide)
    rw [mul_comm] at division
    omega
  have nothing : ∀ h as, LiveIn h as [] := fun h as entry member => absurd member not_mem_nil
  have fits : base + (size + (pageSize - 1)) / pageSize * pageSize < wordLimit := by omega
  rcases initPages_spec avail fits with
    ⟨enough, mapped⟩ | ⟨few, reached, stopped, lower, upper⟩
  · have first : pointer base = some base := pointer_of_pos (by omega)
    have rest : sub32 size headerSize = size - headerSize := sub32_of_le header (by omega)
    refine ⟨[base], ?_, nothing _ _⟩
    simp only [start, kheapInit, rounded, mapped, first, rest, Heap.writeHeader]
    constructor
    case above => exact above
    case below => exact fits
    case magic => simp
    case chain => simp
    case laid =>
      simp only [laid_cons, laid_nil, le_refl, true_and, extent, Function.update_self]
      omega
  · refine ⟨[], ?_, nothing _ _⟩
    simp only [start, kheapInit, rounded, stopped]
    exact ⟨rfl, lower, by simp, above, upper⟩

/-! ## One call -/

section Calls

variable {h h' : Heap} {as as' : List Nat} {live : List (Nat × Nat)} {n : Nat}
  {result ptr : Option Nat}

section

variable (liveIn : LiveIn h as live)
include liveIn

theorem LiveIn.kept (kept : ∀ b ∈ as, h.isFree b = false → Kept h h' as' b) :
    LiveIn h' as' live := by
  intro entry member
  obtain ⟨a, inUse, pointer, size⟩ := liveIn entry member
  obtain ⟨stillUsed, sameSize⟩ := kept a inUse.1 inUse.2
  exact ⟨a, stillUsed, pointer, sameSize ▸ size⟩

theorem LiveIn.forget_kept {a : Nat}
    (kept : ∀ b ∈ as, b ≠ a → h.isFree b = false → Kept h h' as' b) :
    LiveIn h' as' (forget (some (a + headerSize)) live) := by
  intro entry member
  obtain ⟨listed, other⟩ := mem_filter.mp member
  obtain ⟨b, inUse, pointer, size⟩ := liveIn entry listed
  have apart : b ≠ a := by
    rintro rfl
    simp [pointer] at other
  obtain ⟨stillUsed, sameSize⟩ := kept b inUse.1 apart inUse.2
  exact ⟨b, stillUsed, pointer, sameSize ▸ size⟩

theorem LiveIn.remember
    (returned : ∀ q, result = some q → ∃ a, InUse h as a ∧ q = a + headerSize ∧ n ≤ h.size a) :
    LiveIn h as (remember result n live) := by
  cases result with
  | none => exact liveIn
  | some q =>
    intro entry member
    rcases mem_cons.mp member with rfl | old
    · exact returned q rfl
    · exact liveIn entry old

theorem LiveIn.forget : LiveIn h as (forget ptr live) := fun entry member =>
  liveIn entry (mem_filter.mp member).1

end

theorem Sound.allocates (liveIn : LiveIn s.heap as s.live)
    (allocates : Allocates s.heap as n h' as' result) : Sound ⟨h', remember result n s.live⟩ := by
  refine ⟨as', allocates.blocks, (liveIn.kept allocates.kept).remember fun q found => ?_⟩
  obtain ⟨a, inUse, pointer, fits, -⟩ := allocates.returned q found
  exact ⟨a, inUse, pointer, fits⟩

theorem step_kfree (sound : Sound s) (legal : LivePointer s ptr) :
    ∃ s', step s (.kfree ptr) = some s' ∧ Sound s' := by
  obtain ⟨as, blocks, live⟩ := sound
  cases ptr with
  | none =>
    exact ⟨⟨s.heap, Kheap.forget none s.live⟩, rfl, as, blocks, live.forget⟩
  | some p =>
    obtain ⟨n, member⟩ := legal p rfl
    obtain ⟨a, inUse, rfl, -⟩ := live _ member
    obtain ⟨h', as', freed, blocks', kept⟩ := kfree_spec blocks inUse.1
    refine ⟨⟨h', Kheap.forget (some (a + headerSize)) s.live⟩, ?_, as', blocks',
      live.forget_kept kept⟩
    rw [step, freed, map_some]

theorem step_krealloc {size avail : Nat} (sound : Sound s) (legal : LivePointer s ptr)
    (served : (∀ p, ptr = some p → s.heap.size (p - headerSize) < size) →
      AllocOk s.heap size avail) :
    ∃ s', step s (.krealloc ptr size avail) = some s' ∧ Sound s' := by
  cases ptr with
  | none =>
    obtain ⟨as, blocks, live⟩ := sound
    obtain ⟨h', result, as', called, allocates⟩ := kmalloc_spec blocks (served (by simp))
    refine ⟨⟨h', reallocLive none size result s.live⟩, ?_, as', allocates.blocks, ?_⟩
    · rw [step, krealloc, called, map_some]
    · have kept := live.kept allocates.kept
      rw [reallocLive]
      split
      · exact kept.forget
      · split
        · exact kept
        · refine kept.forget.remember fun q found => ?_
          obtain ⟨a, inUse, pointer, fits, -⟩ := allocates.returned q found
          exact ⟨a, inUse, pointer, fits⟩
  | some p =>
    by_cases zero : size = 0
    · -- `krealloc (p, 0)` is `kfree (p)`
      obtain ⟨s', freed, sound'⟩ := step_kfree sound legal
      refine ⟨s', ?_, sound'⟩
      rw [← freed, step, krealloc]
      simp only [zero, if_true, Option.map_map, reallocLive]
      rfl
    obtain ⟨as, blocks, live⟩ := sound
    obtain ⟨n, member⟩ := legal p rfl
    obtain ⟨a, inUse, rfl, -⟩ := live _ member
    have ok : s.heap.size a < size → AllocOk s.heap size avail := by
      refine fun small => served ?_
      rintro p same
      cases same
      rwa [Nat.add_sub_cancel]
    obtain ⟨h', result, as', called, blocks', kept, returned⟩ := krealloc_spec blocks inUse zero ok
    refine ⟨⟨h', reallocLive (some (a + headerSize)) size result s.live⟩, ?_, as', blocks', ?_⟩
    · rw [step, called, map_some]
    · rw [reallocLive, if_neg zero]
      split
      · case isTrue refused =>
          exact live.kept fun b member used => kept b member used (.inl refused)
      · exact (live.forget_kept fun b member apart used =>
          kept b member used (.inr apart)).remember returned

/-- **One call keeps a sound state sound**, and returns. -/
theorem step_sound (sound : Sound s) (legal : Legal s op) (served : Served s op) :
    ∃ s', step s op = some s' ∧ Sound s' := by
  cases op with
  | kmalloc size avail =>
    obtain ⟨as, blocks, live⟩ := sound
    obtain ⟨h', result, as', called, allocates⟩ := kmalloc_spec blocks served
    exact ⟨_, by rw [step, called, map_some], .allocates live allocates⟩
  | kcalloc num size avail =>
    obtain ⟨as, blocks, live⟩ := sound
    obtain ⟨h', result, as', called, allocates⟩ := kcalloc_spec blocks served
    exact ⟨_, by rw [step, called, map_some], .allocates live allocates⟩
  | krealloc ptr size avail => exact step_krealloc sound legal.2 served
  | kfree ptr => exact step_kfree sound legal

end Calls

/-! ## Runs -/

/-- Memory before `kheap_init`. -/
def blank : Heap := ⟨0, 0, 0, none, fun _ => 0, fun _ => 0, fun _ => false, fun _ => none⟩

/-- The state after the kernel's `kheap_init(0xD0000000, 0x02000000)`. -/
def booted : State :=
  ⟨{ blank with
      heapStart := 0xD0000000, heapEnd := 0xD2000000, heapCurrent := 0xD2000000
      heapFirst := some 0xD0000000 }.writeHeader 0xD0000000 0x01FFFFF0 true none, []⟩

theorem start_eq_booted : start blank 0xD0000000 0x02000000 8192 = booted := by
  have fits : 0xD0000000 + 8192 * pageSize < wordLimit := by decide
  have pages : add32 0x02000000 (pageSize - 1) / pageSize = 8192 := by decide
  have mapped : initPages 8192 8192 0xD0000000 = (0xD2000000, true) := by
    rcases initPages_spec 8192 fits with ⟨-, mapped⟩ | ⟨few, -⟩
    · exact mapped
    · omega
  rw [start, kheapInit, pages, mapped]
  rfl

theorem meets_cons {condition : State → Op → Prop} {s' : State} {ops : List Op}
    (holds : condition s op) (stepped : step s op = some s')
    (rest : MeetsPartial step condition s' ops) : MeetsPartial step condition s (op :: ops) := by
  refine ⟨holds, fun next same => ?_⟩
  rw [stepped] at same
  cases same
  exact rest

/-- The state after the whole heap has been handed out. -/
def exhausted : State := (step booted (.kmalloc 0x01FFFFF0 0)).getD booted

theorem step_exhausted : step booted (.kmalloc 0x01FFFFF0 0) = some exhausted := rfl

/-- The state after one more request, for which `pmm_alloc_page` returns NULL. -/
def overlapped : State := (step exhausted (.kmalloc 8 0)).getD exhausted

theorem step_overlapped : step exhausted (.kmalloc 8 0) = some overlapped := rfl

end FunsOS.Kheap
