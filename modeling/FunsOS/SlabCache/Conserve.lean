import FunsOS.Foundation.Layout
import FunsOS.Foundation.LinkedList
import FunsOS.Foundation.Runs
import FunsOS.SlabCache.Slabs

/-!
# Slots are conserved

Every slot of a cache is free or handed out, and never both. The invariant is about the
slabs in any order (`Core`), since slabs move between the two lists; which list a slab is on
only says whether it has a free slot. The memory of the slabs is disjoint, so that a slot
belongs to one slab and the search of `kmem_cache_free` finds it.

With objects of at most a page, every slot lies in the page of its slab and none is lost
(`slots_conserved`). A larger object gets a slab of one page all the same, and an alignment
that rounds the size to 0 is a division by zero.
-/

set_option autoImplicit false

namespace FunsOS.SlabCache

open Foundation List Nat Function Slab

/-! ## Slots -/

def Slab.slot (slab : Slab) (objSize i : Nat) : Nat := slab.objects + i * objSize

def Slab.IsSlot (slab : Slab) (objSize per address : Nat) : Prop :=
  ∃ i < per, address = slab.slot objSize i

/-- The slots of a slab are in its page. -/
structure Geometry (objSize per : Nat) : Prop where
  link : bufctlSize ≤ objSize
  some : 0 < per
  fits : per * objSize ≤ slabPageSize

section Slots

variable {objSize per i a : Nat} {slab other : Slab}

section

variable (geometry : Geometry objSize per)
include geometry

theorem Geometry.slot_inside (below : i < per) (slab : Slab) :
    slab.objects ≤ slab.slot objSize i ∧
      slab.slot objSize i + objSize ≤ slab.objects + slabPageSize := by
  have rows := mul_le_mul_right objSize (succ_le_of_lt below)
  have fits := geometry.fits
  rw [succ_mul] at rows
  unfold slot
  omega

theorem Geometry.isSlot_bounds
    (isSlot : slab.IsSlot objSize per a) : slab.objects ≤ a ∧ a < slab.objects + slabPageSize := by
  obtain ⟨i, below, rfl⟩ := isSlot
  have inside := geometry.slot_inside below slab
  have link := geometry.link
  unfold bufctlSize at link
  omega

theorem Geometry.not_isSlot_of_apart (apart : slab.Apart other)
    (isSlot : slab.IsSlot objSize per a) : ¬ other.IsSlot objSize per a := by
  intro isOther
  have here := geometry.isSlot_bounds isSlot
  have there := geometry.isSlot_bounds isOther
  unfold Slab.Apart at apart
  omega

end

theorem Slab.Apart.symm (apart : slab.Apart other) : other.Apart slab := Or.symm apart

instance : Std.Symm Slab.Apart := ⟨fun _ _ => Slab.Apart.symm⟩

end Slots

/-! ## The invariant -/

/-- The free list of a slab has as many slots as it says, and none is handed out. -/
structure SlabOk (objSize per : Nat) (next : Nat → Option Nat) (handedOut : List Nat)
    (slab : Slab) : Prop where
  total : slab.total = per
  placed : slab.objects + slabPageSize < wordLimit
  free : ∃ free, Seg next slab.freeList free none ∧ free.length = slab.freeCount ∧
    ∀ a ∈ free, slab.IsSlot objSize per a ∧ a ∉ handedOut

/-- The slots of all slabs are accounted for. -/
structure Core (objSize per total inuse : Nat) (next : Nat → Option Nat) (handedOut : List Nat)
    (slabs : List Slab) : Prop where
  ok : ∀ slab ∈ slabs, SlabOk objSize per next handedOut slab
  apart : slabs.Pairwise Slab.Apart
  distinct : handedOut.Nodup
  owned : ∀ a ∈ handedOut, ∃ slab ∈ slabs, slab.IsSlot objSize per a
  counted : inuse = handedOut.length
  sum : inuse + (slabs.map freeCount).sum = total
  slots : total = per * slabs.length

section Core

variable {objSize per total inuse : Nat} {next : Nat → Option Nat} {handedOut : List Nat}
  {slabs rest : List Slab} {slab : Slab}

section

variable (core : Core objSize per total inuse next handedOut slabs)
include core

/-- The order of the slabs does not matter. -/
theorem Core.perm {slabs' : List Slab}
    (perm : slabs.Perm slabs') : Core objSize per total inuse next handedOut slabs' where
  ok slab member := core.ok slab (perm.mem_iff.mpr member)
  apart := (perm.pairwise_iff fun {_ _} apart => apart.symm).mp core.apart
  distinct := core.distinct
  owned a member := by
    obtain ⟨slab, isSlab, isSlot⟩ := core.owned a member
    exact ⟨slab, perm.mem_iff.mp isSlab, isSlot⟩
  counted := core.counted
  sum := (perm.map freeCount).sum_nat ▸ core.sum
  slots := perm.length_eq ▸ core.slots

/-- There are fewer slots than addresses. -/
theorem Core.total_lt (geometry : Geometry objSize per) : total < wordLimit := by
  have pages : (slabs.map objects).length * slabPageSize ≤ wordLimit - 1 := by
    refine length_mul_le_of_apart (fun a member => ?_) ?_
    · obtain ⟨slab, isSlab, rfl⟩ := mem_map.mp member
      have := (core.ok slab isSlab).placed
      omega
    · rw [pairwise_map]
      exact core.apart
  have most : per ≤ slabPageSize := by
    have link := geometry.link
    unfold bufctlSize at link
    exact (Nat.le_mul_of_pos_right per (by omega)).trans geometry.fits
  have slots := mul_le_mul_right slabs.length most
  have positive : 0 < wordLimit := Nat.two_pow_pos 32
  rw [length_map] at pages
  rw [core.slots]
  rw [mul_comm slabPageSize] at slots
  omega

end

variable {a : Nat}

/-- **A free slot is handed out.** -/
theorem Core.take (geometry : Geometry objSize per)
    (core : Core objSize per total inuse next handedOut (slab :: rest))
    (first : slab.freeList = some a) :
    Core objSize per total (inuse + 1) next (a :: handedOut)
      ({ slab with freeList := next a, freeCount := slab.freeCount - 1 } :: rest) := by
  obtain ⟨total', placed, free, seg, length, isFree⟩ := core.ok slab mem_cons_self
  cases free with
  | nil =>
    rw [first] at seg
    cases seg
  | cons b free =>
    obtain rfl : a = b := Option.some.inj (first.symm.trans seg.1)
    obtain ⟨isSlot, notOut⟩ := isFree a mem_cons_self
    have distinct := (nodup_cons.mp seg.nodup).1
    rw [length_cons] at length
    constructor
    case ok =>
      refine forall_mem_cons.mpr ⟨⟨total', placed, free, seg.2, ?_, fun b member => ?_⟩,
        fun other member => ?_⟩
      · dsimp only
        omega
      · obtain ⟨isSlot', notOut'⟩ := isFree b (mem_cons_of_mem _ member)
        refine ⟨isSlot', fun out => ?_⟩
        rcases mem_cons.mp out with rfl | out
        · exact distinct member
        · exact notOut' out
      · obtain ⟨total', placed, others, seg', length', isOther⟩ :=
          core.ok other (mem_cons_of_mem _ member)
        refine ⟨total', placed, others, seg', length', fun b inFree => ?_⟩
        obtain ⟨isSlot', notOut'⟩ := isOther b inFree
        refine ⟨isSlot', fun out => ?_⟩
        rcases mem_cons.mp out with rfl | out
        · have apart := (pairwise_cons.mp core.apart).1 _ member
          exact geometry.not_isSlot_of_apart apart isSlot isSlot'
        · exact notOut' out
    case apart =>
      obtain ⟨first, others⟩ := pairwise_cons.mp core.apart
      exact pairwise_cons.mpr ⟨fun other member => first other member, others⟩
    case distinct => exact nodup_cons.mpr ⟨notOut, core.distinct⟩
    case owned =>
      refine forall_mem_cons.mpr ⟨⟨_, mem_cons_self, isSlot⟩, fun b out => ?_⟩
      obtain ⟨owner, isSlab, isSlot'⟩ := core.owned b out
      rcases mem_cons.mp isSlab with rfl | inRest
      · exact ⟨_, mem_cons_self, isSlot'⟩
      · exact ⟨owner, mem_cons_of_mem _ inRest, isSlot'⟩
    case counted => rw [core.counted, length_cons]
    case sum =>
      have sum := core.sum
      rw [map_cons, sum_cons] at sum ⊢
      dsimp only
      omega
    case slots => exact core.slots

/-- The clients write into objects that they have. -/
theorem Core.write (core : Core objSize per total inuse next handedOut slabs) (out : a ∈ handedOut)
    (word : Option Nat) :
    Core objSize per total inuse (update next a word) handedOut slabs := by
  refine { core with ok := fun slab member => ?_ }
  obtain ⟨total', placed, free, seg, length, isFree⟩ := core.ok slab member
  refine ⟨total', placed, free, seg.update_of_notMem word ?_, length, isFree⟩
  exact fun inFree => (isFree a inFree).2 out

section

variable (geometry : Geometry objSize per)
  (core : Core objSize per total inuse next handedOut (slab :: rest)) (out : a ∈ handedOut)
include geometry core out

/-- While a slot is handed out, the count of free ones can grow. -/
theorem Core.put_freeCount : (slab.put a).freeCount = slab.freeCount + 1 := by
  have positive : 0 < handedOut.length := length_pos_of_mem out
  have limit := core.total_lt geometry
  have counted := core.counted
  have sum := core.sum
  rw [map_cons, sum_cons] at sum
  exact add32_of_lt (by omega)

/-- **A slot that is handed out is put back.** -/
theorem Core.put (isSlot : slab.IsSlot objSize per a) :
    Core objSize per total (inuse - 1) (update next a slab.freeList) (handedOut.erase a)
      (slab.put a :: rest) := by
  have written := core.write out slab.freeList
  have positive : 0 < handedOut.length := length_pos_of_mem out
  have sum := core.sum
  have counted := core.counted
  rw [map_cons, sum_cons] at sum
  have count := core.put_freeCount geometry out
  have notErased : ∀ b ∉ handedOut, b ∉ handedOut.erase a := fun b notOut erased =>
    notOut (mem_of_mem_erase erased)
  constructor
  case ok =>
    refine forall_mem_cons.mpr ⟨?_, fun other member => ?_⟩
    · obtain ⟨total', placed, free, seg, length, isFree⟩ := written.ok slab mem_cons_self
      refine ⟨total', placed, a :: free, ⟨rfl, ?_⟩, ?_, ?_⟩
      · rw [update_self]
        exact seg
      · rw [length_cons, length, count]
      · refine forall_mem_cons.mpr ⟨⟨isSlot, ?_⟩, fun b inFree => ?_⟩
        · exact core.distinct.not_mem_erase
        · exact ⟨(isFree b inFree).1, notErased b (isFree b inFree).2⟩
    · obtain ⟨total', placed, free, seg, length, isFree⟩ :=
        written.ok other (mem_cons_of_mem _ member)
      exact ⟨total', placed, free, seg, length, fun b inFree =>
        ⟨(isFree b inFree).1, notErased b (isFree b inFree).2⟩⟩
  case apart =>
    obtain ⟨first, others⟩ := pairwise_cons.mp core.apart
    exact pairwise_cons.mpr ⟨fun other member => first other member, others⟩
  case distinct => exact core.distinct.erase a
  case owned =>
    intro b stillOut
    obtain ⟨owner, isSlab, isSlot'⟩ := core.owned b (mem_of_mem_erase stillOut)
    rcases mem_cons.mp isSlab with rfl | inRest
    · exact ⟨_, mem_cons_self, isSlot'⟩
    · exact ⟨owner, mem_cons_of_mem _ inRest, isSlot'⟩
  case counted => rw [core.counted, length_erase_of_mem out]
  case sum =>
    rw [map_cons, sum_cons]
    omega
  case slots => exact core.slots

end

end Core

/-! ## A new slab -/

variable {objSize size align : Nat}

/-- The loop threads the slots in front of the list, and writes nothing else. -/
theorem thread_spec {mem n : Nat} (next : Nat → Option Nat) {freeList : Option Nat}
    {tail : List Nat} (positive : 0 < objSize)
    (noWrap : ∀ i < n, add32 mem (i * objSize % wordLimit) = mem + i * objSize)
    (seg : Seg next freeList tail none) (outside : ∀ a ∈ tail, ∀ i < n, a ≠ mem + i * objSize) :
    Seg (thread mem objSize n next freeList).1 (thread mem objSize n next freeList).2
        ((range n).map (fun i => mem + i * objSize) ++ tail) none ∧
      ∀ a, (∀ i < n, a ≠ mem + i * objSize) → (thread mem objSize n next freeList).1 a = next a := by
  induction n generalizing next freeList tail with
  | zero => exact ⟨seg, fun _ _ => rfl⟩
  | succ n ih =>
    have last := noWrap n (lt_succ_self n)
    have linked : Seg (update next (mem + n * objSize) freeList)
        (some (mem + n * objSize)) ((mem + n * objSize) :: tail) none := by
      refine ⟨rfl, ?_⟩
      rw [update_self]
      exact seg.update_of_notMem _ fun member => outside _ member n (lt_succ_self n) rfl
    have later : ∀ i < n, mem + n * objSize ≠ mem + i * objSize := fun i below => by
      have rows := mul_lt_mul_of_pos_right below positive
      omega
    obtain ⟨threaded, same⟩ := ih _ (fun i below => noWrap i (lt_succ_of_lt below)) linked
      (forall_mem_cons.mpr ⟨later, fun a member i below =>
        outside a member i (lt_succ_of_lt below)⟩)
    unfold thread
    rw [last]
    refine ⟨?_, fun a other => ?_⟩
    · rw [range_succ, map_append, append_assoc]
      exact threaded
    · rw [same a fun i below => other i (lt_succ_of_lt below)]
      exact update_of_ne (other n (lt_succ_self n)) _ _

section Grow

variable {per total inuse mem : Nat} {next : Nat → Option Nat} {handedOut : List Nat}
  {slabs : List Slab}

/-- **The slots of a new slab are free.** -/
theorem Core.grow (geometry : Geometry objSize per)
    (core : Core objSize per total inuse next handedOut slabs) (fresh : Fresh slabs mem) :
    Core objSize per (total + per) inuse (thread mem objSize per (zeroed mem next) none).1 handedOut
      (⟨per, per, mem, (thread mem objSize per (zeroed mem next) none).2⟩ :: slabs) := by
  obtain ⟨placed, apart⟩ := fresh
  have positive : 0 < objSize := lt_of_lt_of_le (by decide) geometry.link
  -- the slots of the new slab, by their numbers
  have bounds : ∀ i < per, mem + i * objSize < mem + slabPageSize := fun i below => by
    have := geometry.slot_inside below ⟨per, per, mem, none⟩
    unfold slot at this
    omega
  have noWrap : ∀ i < per, add32 mem (i * objSize % wordLimit) = mem + i * objSize := fun i below => by
    have := bounds i below
    rw [mod_eq_of_lt (by omega), add32_of_lt (by omega)]
  obtain ⟨threaded, same⟩ := thread_spec (zeroed mem next) positive noWrap
    (seg_nil.mpr rfl : Seg _ none [] none) nofun
  rw [append_nil] at threaded
  -- nothing is written outside the memory of the new slab
  have frame : ∀ a, a < mem ∨ mem + slabPageSize ≤ a →
      (thread mem objSize per (zeroed mem next) none).1 a = next a := fun a outside => by
    rw [same a fun i below => by have := bounds i below; omega]
    exact if_neg (by omega)
  have elsewhere : ∀ slab ∈ slabs, ∀ a, slab.IsSlot objSize per a → a < mem ∨ mem + slabPageSize ≤ a := by
    intro slab member a isSlot
    have here := geometry.isSlot_bounds isSlot
    have := apart slab member
    omega
  constructor
  case ok =>
    refine forall_mem_cons.mpr ⟨⟨rfl, placed, _, threaded, ?_, fun a member => ?_⟩,
      fun slab member => ?_⟩
    · rw [length_map, length_range]
    · obtain ⟨i, below, rfl⟩ := mem_map.mp member
      have isBelow := mem_range.mp below
      refine ⟨⟨i, isBelow, rfl⟩, fun out => ?_⟩
      obtain ⟨owner, isSlab, isSlot⟩ := core.owned _ out
      have := elsewhere owner isSlab _ isSlot
      have := bounds i isBelow
      omega
    · obtain ⟨total', placed', free, seg, length, isFree⟩ := core.ok slab member
      refine ⟨total', placed', free, seg.congr fun a inFree => ?_, length, isFree⟩
      exact frame a (elsewhere slab member a (isFree a inFree).1)
  case apart => exact pairwise_cons.mpr ⟨fun slab member => apart slab member, core.apart⟩
  case distinct => exact core.distinct
  case owned =>
    intro a out
    obtain ⟨owner, isSlab, isSlot⟩ := core.owned a out
    exact ⟨owner, mem_cons_of_mem _ isSlab, isSlot⟩
  case counted => exact core.counted
  case sum =>
    have sum := core.sum
    rw [map_cons, sum_cons]
    dsimp only
    omega
  case slots => rw [core.slots, length_cons, mul_succ]

end Grow

/-! ## The calls -/

/-- The first element with a property, itself or changed, and the others. -/
theorem perm_eraseP {α : Type} {p : α → Bool} {as : List α} {a : α} (found : as.find? p = some a)
    (f : α → α) : as.Perm (a :: as.eraseP p) ∧ (modifyFirst p f as).Perm (f a :: as.eraseP p) := by
  induction as with
  | nil => cases found
  | cons b as ih =>
    unfold modifyFirst
    by_cases here : p b
    · rw [List.find?_cons_of_pos here] at found
      obtain rfl := Option.some.inj found
      rw [if_pos here, eraseP_cons_of_pos here]
      exact ⟨.refl _, .refl _⟩
    · rw [List.find?_cons_of_neg here] at found
      rw [if_neg here, eraseP_cons_of_neg here]
      obtain ⟨same, changed⟩ := ih found
      exact ⟨(same.cons b).trans (.swap ..), (changed.cons b).trans (.swap ..)⟩

/-- The slots are accounted for, and the lists say which slabs have a free one. -/
structure Conserved (c : Clients) : Prop where
  geometry : Geometry c.state.cache.objSize c.state.cache.objsPerSlab
  core : Core c.state.cache.objSize c.state.cache.objsPerSlab c.state.cache.totalObjects
    c.state.cache.inuse c.state.next c.handedOut c.state.cache.slabs
  full : ∀ slab ∈ c.state.cache.slabsFull, slab.freeCount = 0
  spare : ∀ slab ∈ c.state.cache.slabsPartial, 0 < slab.freeCount

section Calls

variable {c : Clients} {slabOk : Bool} {objects : Option Nat} {obj : Nat} (conserved : Conserved c)
include conserved

theorem Conserved.slabGrow (fresh : ∀ mem ∈ objects, Fresh c.state.cache.slabs mem) :
    Conserved ⟨(slabGrow c.state slabOk objects).1, c.handedOut⟩ ∧
      ((slabGrow c.state slabOk objects).2 →
        (slabGrow c.state slabOk objects).1.cache.slabsPartial ≠ []) := by
  unfold SlabCache.slabGrow
  split
  case isTrue => exact ⟨conserved, nofun⟩
  case isFalse =>
    cases objects with
    | none => exact ⟨conserved, nofun⟩
    | some mem =>
      have grown := conserved.core.grow conserved.geometry (fresh mem rfl)
      have total := add32_of_lt (grown.total_lt conserved.geometry)
      refine ⟨⟨conserved.geometry, ?_, conserved.full, ?_⟩, fun _ => cons_ne_nil _ _⟩
      · dsimp only
        rw [total]
        exact grown.perm perm_middle.symm
      · exact forall_mem_cons.mpr ⟨conserved.geometry.some, conserved.spare⟩

/-- The first slab with a free slot has one. -/
theorem Conserved.takeFirst (nonempty : c.state.cache.slabsPartial ≠ []) :
    ∃ s obj, takeFirst c.state = some (s, some obj) ∧ Conserved ⟨s, obj :: c.handedOut⟩ := by
  obtain ⟨slab, rest, slabs⟩ := exists_cons_of_ne_nil nonempty
  have perm : c.state.cache.slabs.Perm (slab :: (c.state.cache.slabsFull ++ rest)) := by
    unfold Cache.slabs
    rw [slabs]
    exact perm_middle
  have core := conserved.core.perm perm
  have spare := conserved.spare
  rw [slabs, forall_mem_cons] at spare
  obtain ⟨obj, first⟩ : ∃ obj, slab.freeList = some obj := by
    obtain ⟨-, -, free, seg, length, -⟩ := core.ok slab mem_cons_self
    cases free with
    | nil => exact absurd length (by have := spare.1; rw [length_nil]; omega)
    | cons obj free => exact ⟨obj, seg.1⟩
  have taken := core.take conserved.geometry first
  have inuse : add32 c.state.cache.inuse 1 = c.state.cache.inuse + 1 := by
    have := taken.total_lt conserved.geometry
    have := taken.sum
    exact add32_of_lt (by omega)
  have count : sub32 slab.freeCount 1 = slab.freeCount - 1 := by
    have := core.total_lt conserved.geometry
    have := core.sum
    rw [map_cons, sum_cons] at this
    exact sub32_of_le spare.1 (by omega)
  unfold SlabCache.takeFirst
  rw [slabs]
  dsimp only
  rw [first]
  refine ⟨_, obj, rfl, ?_⟩
  rw [count, inuse]
  split
  case isTrue last =>
    exact ⟨conserved.geometry, taken, forall_mem_cons.mpr ⟨last, conserved.full⟩, spare.2⟩
  case isFalse more =>
    refine ⟨conserved.geometry, taken.perm perm_middle.symm, conserved.full, ?_⟩
    exact forall_mem_cons.mpr ⟨pos_of_ne_zero more, spare.2⟩

/-- **`kmem_cache_alloc` follows no NULL pointer.** -/
theorem Conserved.alloc (fresh : ∀ mem ∈ objects, Fresh c.state.cache.slabs mem) :
    Returns (c.step (.alloc slabOk objects)) Conserved := by
  unfold Clients.step kmemCacheAlloc
  dsimp only
  by_cases empty : c.state.cache.slabsPartial = []
  · rw [if_pos empty]
    obtain ⟨grown, nonempty⟩ := @Conserved.slabGrow c slabOk objects conserved fresh
    cases result : SlabCache.slabGrow c.state slabOk objects with
    | mk s ok =>
      rw [result] at grown nonempty
      cases ok with
      | false => exact .of_some grown
      | true =>
        obtain ⟨s', obj, taken, kept⟩ := grown.takeFirst (nonempty rfl)
        dsimp only at taken ⊢
        rw [taken]
        exact .of_some kept
  · rw [if_neg empty]
    obtain ⟨s', obj, taken, kept⟩ := conserved.takeFirst empty
    rw [taken]
    exact .of_some kept

/-- **The slab that is found is the one of the object.** -/
theorem Conserved.isSlot_of_contains {slab : Slab} (out : obj ∈ c.handedOut)
    (member : slab ∈ c.state.cache.slabs) (contains : slab.contains obj) :
    slab.IsSlot c.state.cache.objSize c.state.cache.objsPerSlab obj := by
  obtain ⟨owner, isSlab, isSlot⟩ := conserved.core.owned obj out
  by_cases same : slab = owner
  · exact same ▸ isSlot
  · have apart := conserved.core.apart.forall member isSlab same
    have bounds := conserved.geometry.isSlot_bounds isSlot
    unfold Slab.contains at contains
    rw [add32_of_lt (conserved.core.ok slab member).placed] at contains
    simp only [Bool.and_eq_true, decide_eq_true_eq] at contains
    unfold Slab.Apart at apart
    omega

theorem Conserved.free (out : obj ∈ c.handedOut) :
    Conserved ⟨kmemCacheFree c.state obj, c.handedOut.erase obj⟩ := by
  have positive : 0 < c.state.cache.inuse := by
    rw [conserved.core.counted]
    exact length_pos_of_mem out
  have inuse : sub32 c.state.cache.inuse 1 = c.state.cache.inuse - 1 := by
    have := conserved.core.total_lt conserved.geometry
    have := conserved.core.sum
    exact sub32_of_le positive (by omega)
  have puts {slab : Slab} {rest : List Slab} (perm : c.state.cache.slabs.Perm (slab :: rest))
      (contains : slab.contains obj) :=
    (conserved.core.perm perm).put conserved.geometry out
      (conserved.isSlot_of_contains out (perm.mem_iff.mpr mem_cons_self) contains)
  have spare {slab : Slab} {rest : List Slab} (perm : c.state.cache.slabs.Perm (slab :: rest)) :
      0 < (slab.put obj).freeCount := by
    rw [(conserved.core.perm perm).put_freeCount conserved.geometry out]
    exact succ_pos _
  unfold kmemCacheFree
  simp only [update_idem, inuse]
  split
  case h_1 slab found =>
    have perm : c.state.cache.slabs.Perm (slab ::
        (c.state.cache.slabsFull.eraseP (·.contains obj) ++ c.state.cache.slabsPartial)) :=
      (perm_eraseP found id).1.append_right _
    have contains := List.find?_some found
    refine ⟨conserved.geometry, (puts perm contains).perm perm_middle.symm, ?_, ?_⟩
    · exact fun other member => conserved.full other (mem_of_mem_eraseP member)
    · exact forall_mem_cons.mpr ⟨spare perm, conserved.spare⟩
  case h_2 notFull =>
    split
    case h_1 slab found =>
      have perm : c.state.cache.slabs.Perm (slab ::
          (c.state.cache.slabsFull ++ c.state.cache.slabsPartial.eraseP (·.contains obj))) :=
        ((perm_eraseP found id).1.append_left _).trans perm_middle
      have modified : (c.state.cache.slabsFull ++
          modifyFirst (·.contains obj) (·.put obj) c.state.cache.slabsPartial).Perm (slab.put obj ::
          (c.state.cache.slabsFull ++ c.state.cache.slabsPartial.eraseP (·.contains obj))) :=
        ((perm_eraseP found _).2.append_left _).trans perm_middle
      have contains := List.find?_some found
      refine ⟨conserved.geometry, (puts perm contains).perm modified.symm, conserved.full,
        fun other member => ?_⟩
      rcases mem_cons.mp ((perm_eraseP found _).2.mem_iff.mp member) with rfl | old
      · exact spare perm
      · exact conserved.spare other (mem_of_mem_eraseP old)
    case h_2 notPartial =>
      -- the slab of the object is on one of the lists
      obtain ⟨owner, isSlab, isSlot⟩ := conserved.core.owned obj out
      have contains : owner.contains obj := by
        rw [Slab.contains, add32_of_lt (conserved.core.ok owner isSlab).placed]
        simpa using conserved.geometry.isSlot_bounds isSlot
      rcases mem_append.mp isSlab with inFull | inPartial
      · exact absurd contains (List.find?_eq_none.mp notFull owner inFull)
      · exact absurd contains (List.find?_eq_none.mp notPartial owner inPartial)

theorem Conserved.step {op : Op} (proper : c.Proper op) : Returns (c.step op) Conserved := by
  cases op with
  | alloc slabOk objects => exact conserved.alloc proper
  | free obj => exact .of_some (conserved.free proper)
  | write obj word =>
    exact .of_some ⟨conserved.geometry, conserved.core.write proper word, conserved.full,
      conserved.spare⟩

end Calls

/-! ## Creating a cache -/

/-- The size of the objects of a cache. -/
def objSizeOf (size align : Nat) : Nat :=
  slabAlignSize (if size < bufctlSize then bufctlSize else size) align

/-- An object that is not rounded to 0 has room for a link. -/
theorem bufctlSize_le_objSizeOf (word : size < wordLimit) (align_lt : align < wordLimit)
    (nonzero : objSizeOf size align ≠ 0) : bufctlSize ≤ objSizeOf size align := by
  have wordSize : (if size < 4 then 4 else size) < wordLimit := by
    unfold wordLimit at *
    split <;> omega
  have wordAlign : (if align = 0 then 4 else align) ≤ wordLimit := by
    unfold wordLimit at *
    split <;> omega
  have positive : 0 < if align = 0 then 4 else align := by
    split <;> omega
  have fits : (if size < 4 then 4 else size) + (if align = 0 then 4 else align) - 1 < wordLimit := by
    by_contra wraps
    exact nonzero (alignUp_of_wraps wordSize wordAlign (not_lt.mp wraps))
  refine le_trans ?_ (le_alignUp positive fits)
  split <;> omega

/-- As many objects as fit are in a slab. -/
theorem geometry_of_le (link : bufctlSize ≤ objSize) (small : objSize ≤ slabPageSize) :
    Geometry objSize (slabPageSize / objSize) where
  link
  some := div_pos small (lt_of_lt_of_le (by decide) link)
  fits := div_mul_le_self slabPageSize objSize

/-- A cache whose objects fit in a page starts with its slots accounted for. -/
theorem Conserved.create {slabOk : Bool} {objects : Option Nat} {next : Nat → Option Nat}
    (word : size < wordLimit) (align_lt : align < wordLimit) (positive : 0 < size)
    (nonzero : objSizeOf size align ≠ 0) (small : objSizeOf size align ≤ slabPageSize)
    (fresh : ∀ mem ∈ objects, Fresh [] mem) :
    Returns (kmemCacheCreate size align slabOk objects next) fun s => Conserved ⟨s, []⟩ := by
  have geometry := geometry_of_le (bufctlSize_le_objSizeOf word align_lt nonzero) small
  have empty : Conserved ⟨⟨⟨objSizeOf size align, slabPageSize / objSizeOf size align, 0, 0, [], []⟩,
      next⟩, []⟩ :=
    ⟨geometry, ⟨nofun, List.Pairwise.nil, nodup_nil, nofun, rfl, rfl, rfl⟩, nofun, nofun⟩
  unfold kmemCacheCreate
  dsimp only
  have oneSlot := geometry.some
  rw [if_neg (ne_of_gt positive)]
  unfold objSizeOf at *
  rw [if_neg nonzero, if_neg (by omega : ¬ slabPageSize / _ < 1)]
  exact .of_some (empty.slabGrow fresh).1

/-! ## Every run -/

/-- What is promised of a cache and the objects that are handed out. -/
structure Conserving (c : Clients) : Prop where
  full : ∀ slab ∈ c.state.cache.slabsFull, slab.freeCount = 0
  spare : ∀ slab ∈ c.state.cache.slabsPartial, 0 < slab.freeCount ∧
    ∃ free, Seg c.state.next slab.freeList free none ∧ free.Nodup ∧ free.length = slab.freeCount ∧
      ∀ a ∈ free, slab.IsSlot c.state.cache.objSize slab.total a ∧ a ∉ c.handedOut
  once : c.handedOut.Nodup
  slots : ∀ a ∈ c.handedOut, ∃ slab ∈ c.state.cache.slabs,
    slab.IsSlot c.state.cache.objSize slab.total a
  sum : c.state.cache.inuse + (c.state.cache.slabs.map freeCount).sum = c.state.cache.totalObjects
  inside : ∀ slab ∈ c.state.cache.slabs, ∀ i < slab.total,
    slab.objects ≤ slab.slot c.state.cache.objSize i ∧
      slab.slot c.state.cache.objSize i + c.state.cache.objSize ≤ slab.objects + slabPageSize

theorem Conserved.conserving {c : Clients} (conserved : Conserved c) : Conserving c where
  full := conserved.full
  spare slab member := by
    obtain ⟨total, -, free, seg, length, isFree⟩ :=
      conserved.core.ok slab (mem_append_right _ member)
    exact ⟨conserved.spare slab member, free, seg, seg.nodup, length, total ▸ isFree⟩
  once := conserved.core.distinct
  slots a out := by
    obtain ⟨slab, member, isSlot⟩ := conserved.core.owned a out
    exact ⟨slab, member, (conserved.core.ok slab member).total ▸ isSlot⟩
  sum := conserved.core.sum
  inside slab member i below := by
    rw [(conserved.core.ok slab member).total] at below
    exact conserved.geometry.slot_inside below slab

/-- **Slots are conserved** in every run of a cache whose objects fit in a page: the cache is
created, no call follows a NULL pointer, and every state keeps the promises. -/
theorem slots_conserved (size align : Nat) (slabOk : Bool) (objects : Option Nat)
    (next : Nat → Option Nat) (word : size < wordLimit) (align_lt : align < wordLimit)
    (positive : 0 < size) (nonzero : objSizeOf size align ≠ 0)
    (small : objSizeOf size align ≤ slabPageSize) (fresh : ∀ mem ∈ objects, Fresh [] mem) :
    Returns (kmemCacheCreate size align slabOk objects next) fun s =>
      ∀ ops, MeetsPartial Clients.step Clients.Proper ⟨s, []⟩ ops →
        Returns (runPartial Clients.step ⟨s, []⟩ ops) Conserving := by
  refine (Conserved.create word align_lt positive nonzero small fresh).mono fun s created ops proper => ?_
  exact (proper.invariant (fun _ _ conserved condition => Conserved.step conserved condition)
    created).mono fun _ => Conserved.conserving

def fourPerSlab : State :=
  (slabGrow ⟨⟨1000, 4, 0, 0, [], []⟩, fun _ => none⟩ true (some 0x100000)).1

/-- The slab is used up, an object of it comes back, and the clients write into theirs. -/
def fiveObjects : List Op :=
  [.alloc true none, .alloc true none, .write 0x100000 (some 7), .alloc true none, .alloc true none,
    .alloc true (some 0x102000), .free 0x100000, .alloc true none]

/-- The theorem at this run. -/
theorem slots_conserved_fiveObjects :
    Returns (runPartial Clients.step ⟨fourPerSlab, []⟩ fiveObjects) Conserving := by
  obtain ⟨s, created, run⟩ := slots_conserved 1000 8 true (some 0x100000) (fun _ => none) (by decide)
    (by decide) (by decide) (by decide) (by decide) (by decide)
  obtain rfl : fourPerSlab = s := Option.some.inj created
  exact run fiveObjects (by decide +kernel)

/-- **An object of 5000 bytes** leaves the page of its slab, and one of `2 ^ 32 - 1` bytes is
rounded to 0. -/
theorem large_object_leaves_page :
    (∃ s, kmemCacheCreate 5000 8 true (some 0x100000) (fun _ => none) = some s ∧
      s.cache.slabs.map (fun slab => (slab.objects, slab.total)) = [(0x100000, 1)] ∧
      ¬ Conserving ⟨s, []⟩) ∧
    objSizeOf 0xFFFFFFFF 8 = 0 ∧
      (kmemCacheCreate 0xFFFFFFFF 8 true (some 0x100000) fun _ => none).isNone := by
  refine ⟨⟨_, rfl, by decide, fun conserving => ?_⟩, by decide, by decide⟩
  have inside := conserving.inside _ mem_cons_self 0 (by decide)
  exact absurd inside.2 (by decide)

end FunsOS.SlabCache
