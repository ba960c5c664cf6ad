import FunsOS.Mm.Vmm
import FunsOS.Foundation.Runs

/-!
# The page table entries in use, and the replacement policies

The table of `kernel/page_replace.c` and the ten policies. The list has the entries
below `page_ref_count`. A policy scans the table for a victim, moves its hand and edits
bits on the way; the eviction of the victim is in `FunsOS.PageReplace.Machine`.

`timer_get_ticks` and `rand` are arguments. The counters of hits, faults, evictions,
swap-ins and accesses are only printed and are left out, as is `aging_tick`. The number
11, for which the policy table has no row, is not modelled as a policy.
-/

set_option autoImplicit false

namespace FunsOS.PageReplace

open Foundation Option
open Mm (kernelBase)

def maxPageRefs : Nat := 4096

def workingSetWindow : Nat := 50

/-- The largest 32-bit word, also `(uint32_t)-1`. -/
def maxWord : Nat := 0xFFFFFFFF

/-- `page_ref_t`. -/
structure PageRef where
  virtualAddr : Nat
  ownerPid : Nat
  refCount : Nat
  lastAccess : Nat
  accessCount : Nat
  accessed : Bool
  dirty : Bool
  inSwap : Bool
  referenceByte : Bool
  swapSlot : Nat
  ageCounter : Nat
  accessHistory : List Bool
  historyPos : Nat
  frequency : Nat
  deriving DecidableEq, Repr

/-- The page is below `KERNEL_BASE`. -/
def PageRef.user (ref : PageRef) : Bool := decide (ref.virtualAddr < kernelBase)

/-- The policies, in the order of the policy table. -/
inductive Policy where
  | fifo
  | lru
  | clock
  | lfu
  | mru
  | workingset
  | secondchance
  | nfu
  | aging
  | random
  deriving DecidableEq, Repr

/-- The table and the hands. -/
structure Table where
  pageRefs : List PageRef
  algorithm : Policy
  clockHand : Nat
  fifoHand : Nat
  deriving DecidableEq, Repr

/-- `page_ref_count`. -/
def Table.count (t : Table) : Nat := t.pageRefs.length

def Table.findPageRef (t : Table) (virt pid : Nat) : Option Nat :=
  t.pageRefs.findIdx? fun ref => decide (ref.virtualAddr = virt) && decide (ref.ownerPid = pid)

/-- Change one entry. -/
def Table.modify (t : Table) (i : Nat) (f : PageRef → PageRef) : Table :=
  { t with pageRefs := t.pageRefs.modify i f }

/-! ## Accesses -/

def accessGeneric (tick : Nat) (ref : PageRef) : PageRef :=
  { ref with accessed := true, lastAccess := tick, referenceByte := true }

def accessLfu (tick : Nat) (ref : PageRef) : PageRef :=
  { ref with
    accessed := true
    lastAccess := tick
    accessCount := add32 ref.accessCount 1
    frequency := add32 ref.frequency 1 }

def accessWorkingset (tick : Nat) (ref : PageRef) : PageRef :=
  { ref with
    accessed := true
    lastAccess := tick
    accessHistory := ref.accessHistory.set ref.historyPos true
    historyPos := add32 ref.historyPos 1 % workingSetWindow }

def accessAging (tick : Nat) (ref : PageRef) : PageRef := accessGeneric tick ref

/-- The `access` column of the policy table. -/
def Policy.access : Policy → Nat → PageRef → PageRef
  | .fifo | .lru | .clock | .mru | .secondchance | .random => accessGeneric
  | .lfu | .nfu => accessLfu
  | .workingset => accessWorkingset
  | .aging => accessAging

/-! ## Scans of the whole table -/

/-- A scan for the entry with the best key: it starts from a sentinel, and an eligible
entry replaces the victim if its key is better. -/
def scanFor (eligible : PageRef → Bool) (key : PageRef → Nat) (better : Nat → Nat → Bool)
    (sentinel : Nat) (refs : List PageRef) : Option Nat :=
  (refs.zipIdx.foldl (fun (best : Nat × Option Nat) entry =>
    if eligible entry.1 && better (key entry.1) best.1 then (key entry.1, some entry.2) else best)
    (sentinel, none)).2

section

variable (t : Table)

/-- The victim of `evict_lru`. -/
def evictLru : Option Nat :=
  scanFor PageRef.user PageRef.lastAccess (fun x y => decide (x < y)) maxWord t.pageRefs

/-- The victim of `evict_mru`. -/
def evictMru : Option Nat :=
  scanFor PageRef.user PageRef.lastAccess (fun x y => decide (y < x)) 0 t.pageRefs

/-- The victim of `evict_nfu`. -/
def evictNfu : Option Nat :=
  scanFor PageRef.user PageRef.accessCount (fun x y => decide (x < y)) maxWord t.pageRefs

/-- The victim of `evict_lfu`: of entries with one frequency, the one that was accessed
first. -/
def evictLfu : Option Nat :=
  (t.pageRefs.zipIdx.foldl (fun (best : Nat × Option (PageRef × Nat)) entry =>
    if entry.1.user && (decide (entry.1.frequency < best.1) ||
        (decide (entry.1.frequency = best.1) &&
          decide (entry.1.lastAccess < (best.2.map fun victim => victim.1.lastAccess).getD maxWord))) then
      (entry.1.frequency, some entry)
    else best) (maxWord, none)).2.map Prod.snd

/-- The victim of `evict_workingset`: the page that was not accessed for the longest time,
among those without an access in the window if there is one. -/
def evictWorkingset : Option Nat :=
  match scanFor (fun ref => ref.user && !(ref.accessHistory.any id)) PageRef.lastAccess
      (fun x y => decide (x < y)) maxWord t.pageRefs with
  | some victim => some victim
  | none => evictLru t

/-- The ageing of an entry in `evict_aging`. -/
def age (ref : PageRef) : PageRef :=
  { ref with
    ageCounter := if ref.accessed then (ref.ageCounter / 2) ||| 0x80 else ref.ageCounter / 2
    accessed := false }

/-- The victim of `evict_aging`, and the aged table. -/
def evictAging : Table × Option Nat :=
  let t := { t with pageRefs := t.pageRefs.map age }
  (t, scanFor PageRef.user PageRef.ageCounter (fun x y => decide (x < y)) 0xFF t.pageRefs)

/-- The victim of `evict_random`, for the values of `rand`. -/
def evictRandom (rand : Nat → Nat) : Option Nat :=
  match ((List.range t.count).map fun tries => rand tries % t.count).find? fun i =>
      (t.pageRefs[i]?).any PageRef.user with
  | some victim => some victim
  | none => evictLru t

/-! ## Scans with a hand -/

/-- The loop of `evict_fifo`. -/
def fifoScan : Nat → Table → Table × Option Nat
  | 0, t => (t, none)
  | n + 1, t =>
    let i := t.fifoHand % t.count
    let t := { t with fifoHand := add32 t.fifoHand 1 % t.count }
    if (t.pageRefs[i]?).any PageRef.user then (t, some i) else fifoScan n t

/-- The victim of `evict_fifo`. -/
def evictFifo : Table × Option Nat := fifoScan t.count t

/-- The loop of a policy with the clock hand: `turn` says what becomes of a user page
that is passed, or that it is the victim (`none`). When the loop ends without a victim,
the entry under the hand is taken if it is a user page. -/
def clockScan (turn : PageRef → Option PageRef) : Nat → Table → Table × Option Nat
  | 0, t =>
    let i := t.clockHand % t.count
    (t, if (t.pageRefs[i]?).any PageRef.user then some i else none)
  | n + 1, t =>
    let i := t.clockHand % t.count
    let t := { t with clockHand := add32 t.clockHand 1 % t.count }
    match t.pageRefs[i]? with
    | none => clockScan turn n t
    | some ref =>
      if ref.user then
        match turn ref with
        | none => (t, some i)
        | some passed => clockScan turn n (t.modify i fun _ => passed)
      else clockScan turn n t

def clockTurn (ref : PageRef) : Option PageRef :=
  if ref.accessed then some { ref with accessed := false } else none

def secondchanceTurn (ref : PageRef) : Option PageRef :=
  if ref.accessed && ref.dirty then some { ref with accessed := false }
  else if ref.accessed then some { ref with accessed := false, dirty := false }
  else if !ref.dirty then none
  else some ref

/-- The victim of `evict_clock`. -/
def evictClock : Table × Option Nat := clockScan clockTurn (t.count * 2) t

/-- The victim of `evict_secondchance`. -/
def evictSecondchance : Table × Option Nat := clockScan secondchanceTurn (t.count * 3) t

/-! ## The policy table -/

/-- The `evict` column of the policy table, up to the eviction: the table after the scan,
and the victim. An empty table has none. -/
def Table.select (rand : Nat → Nat) : Table × Option Nat :=
  if t.count = 0 then (t, none)
  else
    match t.algorithm with
    | .fifo => evictFifo t
    | .lru => (t, evictLru t)
    | .clock => evictClock t
    | .lfu => (t, evictLfu t)
    | .mru => (t, evictMru t)
    | .workingset => (t, evictWorkingset t)
    | .secondchance => evictSecondchance t
    | .nfu => (t, evictNfu t)
    | .aging => evictAging t
    | .random => (t, evictRandom t rand)

end

/-!
## What a policy does to the table

Whatever the policy, the scan for a victim leaves the pages of the table as they are,
and the victim is an entry of the table for a user page (`select_spec`). The policies
differ in the bits they edit and in which entry they take.
-/

open List

/-- The page an entry is for, and whether it is marked as swapped out. -/
def PageRef.identity (ref : PageRef) : Nat × Nat × Bool := (ref.virtualAddr, ref.ownerPid, ref.inSwap)

def Table.identities (t : Table) : List (Nat × Nat × Bool) := t.pageRefs.map PageRef.identity

def Table.Victim (t : Table) (i : Nat) : Prop := ∃ ref, t.pageRefs[i]? = some ref ∧ ref.user

/-! ## Scans of the whole table -/

variable {i : Nat} {t : Table} {rand : Nat → Nat} {turn : PageRef → Option PageRef}
  {f : PageRef → PageRef} {α : Type} {view : PageRef → α}

/-- A scan gives an eligible entry. -/
theorem scanFor_eligible {eligible : PageRef → Bool} {key : PageRef → Nat}
    {better : Nat → Nat → Bool} {sentinel : Nat} {refs : List PageRef}
    (found : scanFor eligible key better sentinel refs = some i) :
    ∃ ref, refs[i]? = some ref ∧ eligible ref := by
  refine foldl_invariant_of_mem
    (P := fun best : Nat × Option Nat => ∀ i, best.2 = some i →
      ∃ ref, refs[i]? = some ref ∧ eligible ref) ?_ (fun _ taken => by cases taken) i found
  intro best entry member holds k taken
  split at taken
  case isTrue better =>
    obtain rfl := some.inj taken
    exact ⟨entry.1, mem_zipIdx_iff_getElem?.mp member, (Bool.and_eq_true _ _ ▸ better).1⟩
  case isFalse => exact holds k taken

theorem evictLru_victim (found : evictLru t = some i) : t.Victim i := scanFor_eligible found

theorem evictMru_victim (found : evictMru t = some i) : t.Victim i := scanFor_eligible found

theorem evictNfu_victim (found : evictNfu t = some i) : t.Victim i := scanFor_eligible found

theorem evictLfu_victim (found : evictLfu t = some i) : t.Victim i := by
  obtain ⟨victim, scanned, rfl⟩ := map_eq_some_iff.mp found
  refine foldl_invariant_of_mem
    (P := fun best : Nat × Option (PageRef × Nat) => ∀ victim, best.2 = some victim →
      t.Victim victim.2) ?_ (fun _ taken => by cases taken) victim scanned
  intro best entry member holds other taken
  split at taken
  case isTrue better =>
    obtain rfl := some.inj taken
    exact ⟨entry.1, mem_zipIdx_iff_getElem?.mp member, (Bool.and_eq_true _ _ ▸ better).1⟩
  case isFalse => exact holds other taken

theorem evictWorkingset_victim (found : evictWorkingset t = some i) : t.Victim i := by
  unfold evictWorkingset at found
  split at found
  case h_1 victim scanned =>
    obtain rfl := some.inj found
    obtain ⟨ref, here, eligible⟩ := scanFor_eligible scanned
    exact ⟨ref, here, (Bool.and_eq_true _ _ ▸ eligible).1⟩
  case h_2 => exact evictLru_victim found

theorem victim_of_any (user : (t.pageRefs[i]?).any PageRef.user) : t.Victim i := by
  unfold Table.Victim
  cases entry : t.pageRefs[i]? with
  | none => simp [entry] at user
  | some ref => exact ⟨ref, rfl, by simpa [entry] using user⟩

theorem evictRandom_victim (found : evictRandom t rand = some i) : t.Victim i := by
  unfold evictRandom at found
  split at found
  case h_1 victim drawn =>
    obtain rfl := some.inj found
    have user := List.find?_some drawn
    exact victim_of_any user
  case h_2 => exact evictLru_victim found

/-! ## Scans with a hand -/

/-- The loop of `evict_fifo` moves the hand only. -/
theorem fifoScan_spec (n : Nat) (t : Table) :
    (fifoScan n t).1.pageRefs = t.pageRefs ∧ ∀ i, (fifoScan n t).2 = some i → t.Victim i := by
  induction n generalizing t with
  | zero => exact ⟨rfl, nofun⟩
  | succ n ih =>
    unfold fifoScan
    dsimp only
    split
    case isTrue user =>
      refine ⟨rfl, fun i found => ?_⟩
      obtain rfl := some.inj found
      exact victim_of_any user
    case isFalse => exact ih _

/-- A turn of the hand clears the access bit of the entry it passes, and nothing else. -/
def OnlyClears (turn : PageRef → Option PageRef) : Prop :=
  ∀ ref passed, turn ref = some passed → passed = { ref with accessed := false }

theorem clockTurn_clears : OnlyClears clockTurn := by
  intro ref passed turned
  unfold clockTurn at turned
  split at turned
  case isTrue => exact (some.inj turned).symm
  case isFalse => cases turned

/-- The turn of `evict_secondchance` sets the dirty bit to 0 only where it is 0. -/
theorem secondchanceTurn_clears : OnlyClears secondchanceTurn := by
  intro ref passed turned
  cases ref
  unfold secondchanceTurn at turned
  grind

/-- A change of an entry that keeps a view of it. -/
theorem map_view_modify (keeps : ∀ ref, t.pageRefs[i]? = some ref → view (f ref) = view ref) :
    (t.modify i f).pageRefs.map view = t.pageRefs.map view := by
  unfold Table.modify
  refine ext_getElem? fun k => ?_
  rw [getElem?_map, getElem?_map, getElem?_modify]
  cases entry : t.pageRefs[k]? with
  | none => rfl
  | some ref =>
    by_cases here : i = k
    · subst here
      simp [keeps ref entry]
    · simp [here]

/-- A change of an entry that keeps its page. -/
theorem identities_modify
    (keeps : ∀ ref, t.pageRefs[i]? = some ref → (f ref).identity = ref.identity) :
    (t.modify i f).identities = t.identities :=
  map_view_modify keeps

theorem clockScan_map (keeps : ∀ ref passed, turn ref = some passed → view passed = view ref)
    (n : Nat) (t : Table) : (clockScan turn n t).1.pageRefs.map view = t.pageRefs.map view := by
  induction n generalizing t with
  | zero => rfl
  | succ n ih =>
    unfold clockScan
    dsimp only
    split
    case h_1 => exact ih _
    case h_2 ref entry =>
      split
      case isFalse => exact ih _
      case isTrue =>
        split
        case h_1 => rfl
        case h_2 passed turned =>
          refine (ih _).trans ((map_view_modify fun ref' entry' => ?_).trans rfl)
          obtain rfl := some.inj (entry.symm.trans entry')
          exact keeps _ _ turned

theorem clockScan_victim (n : Nat) (t : Table) :
    ∀ i, (clockScan turn n t).2 = some i → (clockScan turn n t).1.Victim i := by
  induction n generalizing t with
  | zero =>
    unfold clockScan
    dsimp only
    intro i found
    split at found
    case isTrue user =>
      obtain rfl := some.inj found
      exact victim_of_any user
    case isFalse => cases found
  | succ n ih =>
    unfold clockScan
    dsimp only
    split
    case h_1 => exact ih _
    case h_2 ref entry =>
      split
      case isFalse => exact ih _
      case isTrue user =>
        split
        case h_1 =>
          intro i found
          obtain rfl := some.inj found
          exact ⟨ref, entry, user⟩
        case h_2 => exact ih _

/-! ## Every policy -/

/-- **Every policy keeps what does not depend on the access bit and the age** of an entry. -/
theorem select_map
    (ignores : ∀ ref n, view { ref with ageCounter := n, accessed := false } = view ref) :
    (t.select rand).1.pageRefs.map view = t.pageRefs.map view := by
  have keeps {turn : PageRef → Option PageRef} (clears : OnlyClears turn) :
      ∀ ref passed, turn ref = some passed → view passed = view ref := by
    intro ref passed turned
    rw [clears ref passed turned]
    exact ignores ref ref.ageCounter
  unfold Table.select
  split
  case isTrue => rfl
  case isFalse =>
    cases t.algorithm with
    | fifo => exact congrArg (map view) (fifoScan_spec t.count t).1
    | clock => exact clockScan_map (keeps clockTurn_clears) _ t
    | secondchance => exact clockScan_map (keeps secondchanceTurn_clears) _ t
    | aging =>
      have same : view ∘ age = view := funext fun ref => ignores ref _
      exact map_map.trans (congrArg (map · t.pageRefs) same)
    | lru | lfu | mru | workingset | nfu | random => rfl

/-- The victim of every policy is an entry for a user page. -/
theorem select_victim : ∀ i, (t.select rand).2 = some i → (t.select rand).1.Victim i := by
  unfold Table.select
  split
  case isTrue => exact nofun
  case isFalse =>
    cases t.algorithm with
    | fifo =>
      intro i found
      obtain ⟨same, victim⟩ := fifoScan_spec t.count t
      obtain ⟨ref, entry, user⟩ := victim i found
      exact ⟨ref, (congrArg (·[i]?) same).trans entry, user⟩
    | lru => exact fun i => evictLru_victim
    | clock => exact clockScan_victim _ t
    | lfu => exact fun i => evictLfu_victim
    | mru => exact fun i => evictMru_victim
    | workingset => exact fun i => evictWorkingset_victim
    | secondchance => exact clockScan_victim _ t
    | nfu => exact fun i => evictNfu_victim
    | aging =>
      intro i found
      dsimp only [evictAging] at found ⊢
      exact scanFor_eligible found
    | random => exact fun i => evictRandom_victim

/-- **Every policy keeps the pages of the table**, and its victim is an entry for a user
page. -/
theorem select_spec : (t.select rand).1.identities = t.identities ∧
      ∀ i, (t.select rand).2 = some i → (t.select rand).1.Victim i :=
  ⟨select_map (fun _ _ => rfl), select_victim⟩

end FunsOS.PageReplace
