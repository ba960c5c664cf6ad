import Mathlib.Data.List.Perm.Basic
import Mathlib.Data.Nat.ModEq
import FunsOS.PageReplace.Contents

/-!
# When an eviction finds a victim

`page_replace_evict` on a table with an entry for a user page. Each policy gives up on some
tables: the scans for the best key skip an entry whose key equals the sentinel they start
from, `evict_secondchance` passes dirty pages for ever, and the increment of a hand at
`0xFFFFFFFF` wraps, so that `evict_fifo` misses the last entry. `Table.Evictable` has the
condition of each policy, and `evicts_one_iff` says that it is exact: the eviction then
returns 0, takes one user page out of the table, and leaves the address, the owner and the
dirty bit of every other entry as they are.
-/

set_option autoImplicit false

namespace FunsOS.PageReplace

open Foundation List Option Nat PageRef Table
open Mm (kernelBase)

/-! ## Scans of the whole table -/

theorem scanFor_isSome {eligible : PageRef → Bool} {key : PageRef → Nat}
    {better : Nat → Nat → Bool} {sentinel : Nat} {refs : List PageRef} :
    (scanFor eligible key better sentinel refs).isSome ↔
      ∃ ref ∈ refs, eligible ref ∧ better (key ref) sentinel := by
  unfold scanFor
  rw [foldl_best_isSome (fun best entry => eligible entry.1 && better (key entry.1) best.1)
    (fun entry => key entry.1) Prod.snd]
  simp only [isSome_none, Bool.false_eq_true, false_or, Bool.and_eq_true]
  constructor
  · rintro ⟨entry, member, taken⟩
    exact ⟨entry.1, mem_of_getElem? (mem_zipIdx_iff_getElem?.mp member), taken⟩
  · rintro ⟨ref, member, taken⟩
    obtain ⟨i, entry⟩ := getElem?_of_mem member
    exact ⟨(ref, i), mem_zipIdx_iff_getElem?.mpr entry, taken⟩

variable {t next : Table} {ref : PageRef} {i first : Nat} {rand : Nat → Nat} {s : State}

theorem evictLru_isSome :
    (evictLru t).isSome ↔ ∃ ref ∈ t.pageRefs, ref.user ∧ ref.lastAccess < maxWord := by
  unfold evictLru
  rw [scanFor_isSome]
  simp only [decide_eq_true_eq]

theorem evictMru_isSome :
    (evictMru t).isSome ↔ ∃ ref ∈ t.pageRefs, ref.user ∧ 0 < ref.lastAccess := by
  unfold evictMru
  rw [scanFor_isSome]
  simp only [decide_eq_true_eq]

theorem evictNfu_isSome :
    (evictNfu t).isSome ↔ ∃ ref ∈ t.pageRefs, ref.user ∧ ref.accessCount < maxWord := by
  unfold evictNfu
  rw [scanFor_isSome]
  simp only [decide_eq_true_eq]

theorem evictLfu_isSome (typed : ∀ ref ∈ t.pageRefs, ref.frequency ≤ maxWord) :
    (evictLfu t).isSome ↔ ∃ ref ∈ t.pageRefs, ref.user ∧
      (ref.frequency < maxWord ∨ ref.lastAccess < maxWord) := by
  unfold evictLfu
  rw [isSome_map]
  refine (foldl_best_isSome
    (fun (best : Nat × Option (PageRef × Nat)) (entry : PageRef × Nat) =>
      entry.1.user && (decide (entry.1.frequency < best.1) ||
        (decide (entry.1.frequency = best.1) &&
          decide (entry.1.lastAccess < (best.2.map fun victim => victim.1.lastAccess).getD maxWord))))
    (fun entry => entry.1.frequency) id (maxWord, none) t.pageRefs.zipIdx).trans ?_
  simp only [isSome_none, Bool.false_eq_true, false_or, Bool.and_eq_true, Bool.or_eq_true,
    decide_eq_true_eq, map_none, getD_none]
  constructor
  · rintro ⟨entry, member, user, taken⟩
    refine ⟨entry.1, mem_of_getElem? (mem_zipIdx_iff_getElem?.mp member), user, ?_⟩
    exact taken.imp_right And.right
  · rintro ⟨ref, member, user, taken⟩
    obtain ⟨i, entry⟩ := getElem?_of_mem member
    refine ⟨(ref, i), mem_zipIdx_iff_getElem?.mpr entry, user, ?_⟩
    have := typed ref member
    dsimp only
    omega

/-- The pages without an access in the window are looked at twice. -/
theorem evictWorkingset_isSome :
    (evictWorkingset t).isSome ↔ ∃ ref ∈ t.pageRefs, ref.user ∧ ref.lastAccess < maxWord := by
  unfold evictWorkingset
  split
  case h_1 victim scanned =>
    have found := isSome_of_eq_some scanned
    rw [scanFor_isSome] at found
    obtain ⟨ref, member, eligible, taken⟩ := found
    refine ⟨fun _ => ⟨ref, member, ?_, of_decide_eq_true taken⟩, fun _ => rfl⟩
    exact (Bool.and_eq_true _ _ ▸ eligible).1
  case h_2 => exact evictLru_isSome

/-- An aged counter is 0xFF only if the page was accessed and the counter was already at
its top. -/
theorem age_lt_top (typed : ref.ageCounter ≤ 0xFF) :
    (age ref).ageCounter < 0xFF ↔ ref.accessed = false ∨ ref.ageCounter < 254 := by
  have halved : ∀ counter : Fin 256, (counter.val / 2 ||| 0x80) < 0xFF ↔ counter.val < 254 := by
    decide +kernel
  have top := halved ⟨ref.ageCounter, by omega⟩
  unfold age
  cases ref.accessed with
  | false => simp only [Bool.false_eq_true, if_false, true_or, iff_true]; omega
  | true => simpa using top

theorem evictAging_isSome (typed : ∀ ref ∈ t.pageRefs, ref.ageCounter ≤ 0xFF) :
    (evictAging t).2.isSome ↔ ∃ ref ∈ t.pageRefs, ref.user ∧
      (ref.accessed = false ∨ ref.ageCounter < 254) := by
  unfold evictAging
  rw [scanFor_isSome]
  simp only [List.mem_map, decide_eq_true_eq]
  constructor
  · rintro ⟨_, ⟨ref, member, rfl⟩, user, taken⟩
    exact ⟨ref, member, user, (age_lt_top (typed ref member)).mp taken⟩
  · rintro ⟨ref, member, user, taken⟩
    exact ⟨age ref, ⟨ref, member, rfl⟩, user, (age_lt_top (typed ref member)).mpr taken⟩

theorem any_user_iff : (t.pageRefs[i]?).any user ↔ t.Victim i := by
  refine ⟨victim_of_any, ?_⟩
  rintro ⟨ref, entry, user⟩
  rw [entry]
  exact user

theorem evictRandom_isSome :
    (evictRandom t rand).isSome ↔
      (∃ tries < t.count, t.Victim (rand tries % t.count)) ∨
        ∃ ref ∈ t.pageRefs, ref.user ∧ ref.lastAccess < maxWord := by
  unfold evictRandom
  have drawn : (((range t.count).map fun tries => rand tries % t.count).find? fun i =>
      (t.pageRefs[i]?).any user).isSome ↔
      ∃ tries < t.count, t.Victim (rand tries % t.count) := by
    rw [find?_isSome]
    simp only [List.mem_map, List.mem_range, any_user_iff]
    grind
  rw [← drawn, ← evictLru_isSome]
  split
  case h_1 found => simp [found]
  case h_2 missed => simp [missed]

/-! ## The hands -/

/-- The hand after some steps of a scan. -/
def handAfter (count : Nat) : Nat → Nat → Nat
  | 0, hand => hand
  | k + 1, hand => handAfter count k (add32 hand 1 % count)

/-- Where a hand is after whole turns: where it started, or at the last entry if its first
step wraps. -/
def resting (hand count : Nat) : Nat := if hand = maxWord then count - 1 else hand % count

section Hands

variable {count hand k : Nat}

/-- Inside the table the hand goes round. -/
theorem handAfter_of_lt (size : count ≤ maxPageRefs) (inside : hand < count) :
    handAfter count k hand = (hand + k) % count := by
  induction k generalizing hand with
  | zero => exact (mod_eq_of_lt inside).symm
  | succ k ih =>
    have fits : hand + 1 < wordLimit := by
      unfold maxPageRefs at size
      unfold wordLimit
      omega
    unfold handAfter
    rw [add32_of_lt fits, ih (mod_lt _ (by omega)), mod_add_mod]
    congr 1
    omega

/-- After its first step the hand is inside the table. -/
theorem handAfter_succ (size : count ≤ maxPageRefs) (occupied : 0 < count) :
    handAfter count (k + 1) hand = (add32 hand 1 % count + k) % count :=
  handAfter_of_lt size (mod_lt _ occupied)

theorem first_add_pred_mod (typed : hand ≤ maxWord) (occupied : 0 < count) :
    (add32 hand 1 % count + (count - 1)) % count = resting hand count := by
  unfold resting
  split
  case isTrue wraps =>
    subst wraps
    have wrapped : add32 maxWord 1 = 0 := by decide
    rw [wrapped, zero_mod, zero_add, mod_eq_of_lt (by omega)]
  case isFalse inner =>
    have fits : hand + 1 < wordLimit := by
      unfold maxWord at *
      unfold wordLimit
      omega
    rw [add32_of_lt fits, Nat.mod_add_mod, Nat.add_assoc, Nat.add_sub_cancel' occupied,
      add_mod_right]

/-- **A hand comes to rest** after whole turns. -/
theorem handAfter_turns (size : count ≤ maxPageRefs) (occupied : 0 < count)
    (typed : hand ≤ maxWord) {turns : Nat} :
    handAfter count (count * (turns + 1)) hand = resting hand count := by
  obtain ⟨steps, isSteps⟩ : ∃ steps, count * (turns + 1) = steps + 1 :=
    ⟨count * (turns + 1) - 1, by have := mul_le_mul_left count (le_add_left 1 turns); omega⟩
  have split : steps = (count - 1) + count * turns := by
    rw [mul_succ] at isSteps
    omega
  rw [isSteps, handAfter_succ size occupied, split, ← add_assoc, add_mul_mod_self_left,
    first_add_pred_mod typed occupied]

/-- A hand that goes round comes to every entry. -/
theorem exists_add_mod {i : Nat} (first_lt : first < count) (below : i < count) :
    ∃ k < count, (first + k) % count = i := by
  by_cases behind : first ≤ i
  · exact ⟨i - first, by omega, by rw [Nat.add_sub_cancel' behind, Nat.mod_eq_of_lt below]⟩
  · refine ⟨i + count - first, by omega, ?_⟩
    rw [Nat.add_sub_cancel' (by omega), Nat.add_mod_right, Nat.mod_eq_of_lt below]

/-- The steps of one turn end at different entries. -/
theorem add_mod_injective {k' : Nat} (below : k < count) (below' : k' < count)
    (same : (first + k) % count = (first + k') % count) : k = k' := by
  have := Nat.ModEq.add_left_cancel' first same
  exact Nat.ModEq.eq_of_lt_of_lt this below below'

end Hands

/-! ## Scans with the fifo hand -/

theorem fifoScan_isSome {n : Nat} :
    (fifoScan n t).2.isSome ↔ ∃ k < n, t.Victim (handAfter t.count k t.fifoHand % t.count) := by
  induction n generalizing t with
  | zero => simp [fifoScan]
  | succ n ih =>
    unfold fifoScan
    dsimp only
    split
    case isTrue user =>
      refine ⟨fun _ => ⟨0, succ_pos n, ?_⟩, fun _ => rfl⟩
      exact any_user_iff.mp user
    case isFalse kernel =>
      rw [ih]
      rw [any_user_iff] at kernel
      constructor
      · rintro ⟨k, below, victim⟩
        exact ⟨k + 1, succ_lt_succ below, victim⟩
      · rintro ⟨k, below, victim⟩
        cases k with
        | zero => exact absurd victim kernel
        | succ k => exact ⟨k, lt_of_succ_lt_succ below, victim⟩

theorem Table.Victim.lt_count (victim : t.Victim i) : i < t.count := by
  obtain ⟨ref, entry, -⟩ := victim
  exact (List.getElem?_eq_some_iff.mp entry).1

/-- **One turn of the fifo hand** comes to every entry but the one it would come to rest at,
if it does not start there. -/
theorem evictFifo_isSome (size : t.count ≤ maxPageRefs) (typed : t.fifoHand ≤ maxWord) :
    (evictFifo t).2.isSome ↔
      ∃ i, t.Victim i ∧ (i = t.fifoHand % t.count ∨ i ≠ resting t.fifoHand t.count) := by
  unfold evictFifo
  rw [fifoScan_isSome]
  constructor
  · rintro ⟨k, below, victim⟩
    refine ⟨_, victim, ?_⟩
    cases k with
    | zero => exact .inl rfl
    | succ k =>
      right
      have occupied : 0 < t.count := by omega
      rw [handAfter_succ size occupied, mod_mod, ← first_add_pred_mod typed occupied]
      intro same
      have := add_mod_injective (by omega) (by omega) same
      omega
  · rintro ⟨i, victim, visited⟩
    have occupied : 0 < t.count := zero_lt_of_lt victim.lt_count
    by_cases first : i = t.fifoHand % t.count
    · exact ⟨0, occupied, first ▸ victim⟩
    · have other := visited.resolve_left first
      obtain ⟨k, below, turned⟩ := exists_add_mod (mod_lt (add32 t.fifoHand 1) occupied)
        victim.lt_count
      have before : k ≠ t.count - 1 := by
        rintro rfl
        exact other (turned ▸ first_add_pred_mod typed occupied)
      refine ⟨k + 1, by omega, ?_⟩
      rw [handAfter_succ size occupied, mod_mod, turned]
      exact victim

/-! ## Scans with the clock hand -/

/-- One step of a scan that finds no victim. -/
structure Passes (turn : PageRef → Option PageRef) (t next : Table) : Prop where
  count : next.count = t.count
  hand : next.clockHand = add32 t.clockHand 1 % t.count
  entry : ∀ i ref, t.pageRefs[i]? = some ref → ∃ passed, next.pageRefs[i]? = some passed ∧
    if i = t.clockHand % t.count ∧ ref.user then turn ref = some passed else passed = ref

/-- The scan of a table whose entry under the hand is not a victim goes on. -/
theorem clockScan_step {turn : PageRef → Option PageRef} {n : Nat} :
    (∃ ref, t.pageRefs[t.clockHand % t.count]? = some ref ∧ ref.user ∧ turn ref = none ∧
      (clockScan turn (n + 1) t).2.isSome) ∨
      ∃ next, Passes turn t next ∧ (clockScan turn (n + 1) t).2 = (clockScan turn n next).2 := by
  rw [clockScan]
  split
  case h_1 absent =>
    refine .inr ⟨_, ?_, rfl⟩
    refine ⟨rfl, rfl, fun i ref entry => ⟨ref, entry, ?_⟩⟩
    rw [if_neg]
    rintro ⟨rfl, -⟩
    cases absent.symm.trans entry
  case h_2 ref under =>
    split
    case isFalse kernel =>
      refine .inr ⟨_, ?_, rfl⟩
      refine ⟨rfl, rfl, fun i other entry => ⟨other, entry, ?_⟩⟩
      rw [if_neg]
      rintro ⟨rfl, user⟩
      cases under.symm.trans entry
      exact kernel user
    case isTrue user =>
      split
      case h_1 turned => exact .inl ⟨ref, under, user, turned, rfl⟩
      case h_2 passed turned =>
        refine .inr ⟨_, ?_, rfl⟩
        refine ⟨length_modify .., rfl, fun i other entry => ?_⟩
        unfold Table.modify
        by_cases here : i = t.clockHand % t.count
        · subst here
          cases under.symm.trans entry
          refine ⟨passed, by simp [entry], ?_⟩
          rw [if_pos ⟨rfl, user⟩]
          exact turned
        · refine ⟨other, by simp [entry, Ne.symm here], ?_⟩
          rw [if_neg (here ·.1)]

section Clock

variable {turn : PageRef → Option PageRef} {n k k' : Nat}

/-- The scan finds a victim by the time the hand comes to an entry it takes. -/
theorem clockScan_of_visit (user : ref.user) (taken : turn ref = none) (below : k < n)
    (entry : t.pageRefs[i]? = some ref) (visits : handAfter t.count k t.clockHand % t.count = i) :
    (clockScan turn n t).2.isSome := by
  induction n generalizing t k with
  | zero => omega
  | succ n ih =>
    rcases clockScan_step with ⟨_, _, _, _, found⟩ | ⟨next, passes, same⟩
    case inl => exact found
    case inr =>
      obtain ⟨passed, entry', turned⟩ := passes.entry i ref entry
      split at turned
      case isTrue => simp [taken] at turned
      case isFalse elsewhere =>
        subst turned
        rw [same]
        cases k with
        | zero => exact absurd ⟨visits.symm, user⟩ elsewhere
        | succ k =>
          refine ih (lt_of_succ_lt_succ below) entry' ?_
          rw [passes.count, passes.hand]
          exact visits

/-- An entry that is passed once is taken when the hand comes again. -/
theorem clockScan_of_two_visits (clears : OnlyClears turn) (user : ref.user)
    (once : ∀ passed, turn ref = some passed → turn passed = none) (order : k < k') (below : k' < n)
    (entry : t.pageRefs[i]? = some ref) (visits : handAfter t.count k t.clockHand % t.count = i)
    (visits' : handAfter t.count k' t.clockHand % t.count = i) : (clockScan turn n t).2.isSome := by
  induction n generalizing t k k' with
  | zero => omega
  | succ n ih =>
    obtain ⟨k', rfl⟩ : ∃ before, k' = before + 1 := ⟨k' - 1, by omega⟩
    rcases clockScan_step with ⟨_, _, _, _, found⟩ | ⟨next, passes, same⟩
    case inl => exact found
    case inr =>
      have again : handAfter next.count k' next.clockHand % next.count = i := by
        rw [passes.count, passes.hand]
        exact visits'
      obtain ⟨passed, entry', turned⟩ := passes.entry i ref entry
      rw [same]
      split at turned
      case isTrue =>
        have user' : passed.user := clears ref passed turned ▸ user
        exact clockScan_of_visit user' (once passed turned) (by omega) entry' again
      case isFalse elsewhere =>
        subst turned
        cases k with
        | zero => exact absurd ⟨visits.symm, user⟩ elsewhere
        | succ k =>
          refine ih (lt_of_succ_lt_succ order) (by omega) entry' ?_ again
          rw [passes.count, passes.hand]
          exact visits

/-- Every entry after a step is one from before it, passed if it was under the hand. -/
theorem Passes.entry_of_next {passed : PageRef} (passes : Passes turn t next)
    (entry : next.pageRefs[i]? = some passed) :
    ∃ ref, t.pageRefs[i]? = some ref ∧ (turn ref = some passed ∧ ref.user ∨ passed = ref) := by
  have below : i < t.count := passes.count ▸ (List.getElem?_eq_some_iff.mp entry).1
  refine ⟨_, getElem?_eq_getElem below, ?_⟩
  obtain ⟨passed', entry', turned⟩ := passes.entry i _ (getElem?_eq_getElem below)
  cases entry.symm.trans entry'
  split at turned
  case isTrue under => exact .inl ⟨turned, under.2⟩
  case isFalse => exact .inr turned

/-- A step keeps which entries are for user pages. -/
theorem Passes.victim_iff (passes : Passes turn t next) (clears : OnlyClears turn) :
    next.Victim i ↔ t.Victim i := by
  constructor
  · rintro ⟨passed, entry, user⟩
    obtain ⟨ref, entry', ⟨turned, user'⟩ | rfl⟩ := passes.entry_of_next entry
    · exact ⟨ref, entry', user'⟩
    · exact ⟨passed, entry', user⟩
  · rintro ⟨ref, entry, user⟩
    obtain ⟨passed, entry', turned⟩ := passes.entry i ref entry
    split at turned
    case isTrue => exact ⟨passed, entry', clears ref passed turned ▸ user⟩
    case isFalse => exact ⟨passed, entry', turned ▸ user⟩

/-- The entry at which the hand comes to rest is the last resort. -/
theorem clockScan_of_rest (clears : OnlyClears turn)
    (victim : t.Victim (handAfter t.count n t.clockHand % t.count)) :
    (clockScan turn n t).2.isSome := by
  induction n generalizing t with
  | zero =>
    exact isSome_of_eq_some (if_pos (any_user_iff.mpr victim))
  | succ n ih =>
    rcases clockScan_step with ⟨_, _, _, _, found⟩ | ⟨next, passes, same⟩
    case inl => exact found
    case inr =>
      rw [same]
      refine ih ?_
      rw [passes.count, passes.hand]
      exact (passes.victim_iff clears).mpr victim

/-- A scan that passes every user page, however often it comes to it, has nothing but the
last resort. -/
theorem rest_of_clockScan (stuck : PageRef → Prop) (clears : OnlyClears turn)
    (passed : ∀ ref, stuck ref → ref.user → turn ref ≠ none)
    (remains : ∀ ref, stuck ref → stuck { ref with accessed := false })
    (all : ∀ ref ∈ t.pageRefs, stuck ref) (found : (clockScan turn n t).2.isSome) :
    t.Victim (handAfter t.count n t.clockHand % t.count) := by
  induction n generalizing t with
  | zero =>
    unfold clockScan at found
    dsimp only at found
    split at found
    case isTrue user => exact any_user_iff.mp user
    case isFalse => cases found
  | succ n ih =>
    rcases clockScan_step with ⟨ref, entry, user, turned, _⟩ | ⟨next, passes, same⟩
    case inl => exact absurd turned (passed ref (all ref (mem_of_getElem? entry)) user)
    case inr =>
      have stillStuck : ∀ ref ∈ next.pageRefs, stuck ref := by
        intro after member
        obtain ⟨j, entry⟩ := getElem?_of_mem member
        obtain ⟨ref, entry', ⟨turned, -⟩ | rfl⟩ := passes.entry_of_next entry
        · rw [clears ref after turned]
          exact remains ref (all ref (mem_of_getElem? entry'))
        · exact all after (mem_of_getElem? entry')
      have victim := ih stillStuck (same ▸ found)
      rw [passes.victim_iff clears, passes.count, passes.hand] at victim
      exact victim

end Clock

section

variable (size : t.count ≤ maxPageRefs)
include size

/-- The hand comes to every entry in the turn after its first step, and again in the next. -/
theorem exists_visits (below : i < t.count) :
    ∃ k < t.count, (k = t.count - 1 → i = (add32 t.clockHand 1 % t.count + (t.count - 1)) % t.count) ∧
      handAfter t.count (k + 1) t.clockHand % t.count = i ∧
      handAfter t.count (k + t.count + 1) t.clockHand % t.count = i := by
  have occupied : 0 < t.count := zero_lt_of_lt below
  obtain ⟨k, inTurn, turned⟩ := exists_add_mod (mod_lt (add32 t.clockHand 1) occupied) below
  refine ⟨k, inTurn, fun isLast => ?_, ?_, ?_⟩
  · rw [← isLast, turned]
  · rw [handAfter_succ size occupied, mod_mod, turned]
  · rw [handAfter_succ size occupied, mod_mod, ← add_assoc, add_mod_right, turned]

/-- **The clock always finds a victim**: two turns pass every entry twice but the one at
which the hand comes to rest, and that one is the last resort. -/
theorem evictClock_isSome (typed : t.clockHand ≤ maxWord)
    (victim : t.Victim i) : (evictClock t).2.isSome := by
  have occupied : 0 < t.count := zero_lt_of_lt victim.lt_count
  obtain ⟨k, inTurn, isLast, visits, again⟩ := exists_visits size victim.lt_count
  by_cases last : k = t.count - 1
  · refine clockScan_of_rest clockTurn_clears ?_
    have rests := isLast last
    rw [first_add_pred_mod typed occupied, ← handAfter_turns size occupied typed] at rests
    rw [← rests, mod_eq_of_lt victim.lt_count]
    exact victim
  · obtain ⟨ref, entry, user⟩ := victim
    refine clockScan_of_two_visits clockTurn_clears user (fun passed turned => ?_) (by omega)
      (by omega) entry visits again
    rw [clockTurn_clears ref passed turned]
    rfl

/-- **A second chance is given to clean pages only**: when every user page is dirty, the
scan has nothing but the entry at which the hand comes to rest. -/
theorem evictSecondchance_isSome (occupied : 0 < t.count) (typed : t.clockHand ≤ maxWord) :
    (evictSecondchance t).2.isSome ↔
      (∃ ref ∈ t.pageRefs, ref.user ∧ ref.dirty = false) ∨
        t.Victim (resting t.clockHand t.count) := by
  have rests : handAfter t.count (t.count * 3) t.clockHand % t.count = resting t.clockHand t.count := by
    rw [handAfter_turns size occupied typed, ← first_add_pred_mod typed occupied, mod_mod]
  constructor
  · intro found
    by_cases clean : ∃ ref ∈ t.pageRefs, ref.user ∧ ref.dirty = false
    · exact .inl clean
    · right
      rw [← rests]
      refine rest_of_clockScan (fun ref => ref.user → ref.dirty)
        secondchanceTurn_clears (fun ref stuck user => ?_) (fun ref stuck => stuck) ?_ found
      · unfold secondchanceTurn
        cases ref.accessed <;> simp [stuck user]
      · intro ref member user
        by_contra notDirty
        exact clean ⟨ref, member, user, by simpa using notDirty⟩
  · rintro (⟨ref, member, user, clean⟩ | victim)
    · obtain ⟨i, entry⟩ := getElem?_of_mem member
      obtain ⟨k, inTurn, -, visits, again⟩ :=
        exists_visits size (Table.Victim.lt_count ⟨ref, entry, user⟩)
      refine clockScan_of_two_visits secondchanceTurn_clears user (fun passed turned => ?_)
        (by omega) (by omega) entry visits again
      rw [secondchanceTurn_clears ref passed turned]
      simp [secondchanceTurn, clean]
    · exact clockScan_of_rest secondchanceTurn_clears (rests ▸ victim)

end

/-! ## Every policy -/

/-- The table is inside its array, and the numbers of the policies inside their C types. -/
structure Table.Typed (t : Table) : Prop where
  size : t.count ≤ maxPageRefs
  clockHand : t.clockHand ≤ maxWord
  fifoHand : t.fifoHand ≤ maxWord
  frequency : ∀ ref ∈ t.pageRefs, ref.frequency ≤ maxWord
  ageCounter : ∀ ref ∈ t.pageRefs, ref.ageCounter ≤ 0xFF

/-- What a policy needs of a table with a user page to find a victim. -/
def Table.Evictable (t : Table) (rand : Nat → Nat) : Prop :=
  match t.algorithm with
  | .fifo => ∃ i, t.Victim i ∧ (i = t.fifoHand % t.count ∨ i ≠ resting t.fifoHand t.count)
  | .lru | .workingset => ∃ ref ∈ t.pageRefs, ref.user ∧ ref.lastAccess < maxWord
  | .clock => True
  | .lfu => ∃ ref ∈ t.pageRefs, ref.user ∧ (ref.frequency < maxWord ∨ ref.lastAccess < maxWord)
  | .mru => ∃ ref ∈ t.pageRefs, ref.user ∧ 0 < ref.lastAccess
  | .secondchance => (∃ ref ∈ t.pageRefs, ref.user ∧ ref.dirty = false) ∨
      t.Victim (resting t.clockHand t.count)
  | .nfu => ∃ ref ∈ t.pageRefs, ref.user ∧ ref.accessCount < maxWord
  | .aging => ∃ ref ∈ t.pageRefs, ref.user ∧ (ref.accessed = false ∨ ref.ageCounter < 254)
  | .random => (∃ tries < t.count, t.Victim (rand tries % t.count)) ∨
      ∃ ref ∈ t.pageRefs, ref.user ∧ ref.lastAccess < maxWord

/-- A policy finds a victim exactly under its condition. -/
theorem select_isSome (typed : t.Typed) (user : ∃ ref ∈ t.pageRefs, ref.user) :
    (t.select rand).2.isSome ↔ t.Evictable rand := by
  obtain ⟨ref, member, isUser⟩ := user
  obtain ⟨i, entry⟩ := getElem?_of_mem member
  have victim : t.Victim i := ⟨ref, entry, isUser⟩
  have occupied : 0 < t.count := zero_lt_of_lt victim.lt_count
  unfold select Table.Evictable
  rw [if_neg (ne_of_gt occupied)]
  cases t.algorithm with
  | fifo => exact evictFifo_isSome typed.size typed.fifoHand
  | lru => exact evictLru_isSome
  | clock => exact iff_of_true (evictClock_isSome typed.size typed.clockHand victim) trivial
  | lfu => exact evictLfu_isSome typed.frequency
  | mru => exact evictMru_isSome
  | workingset => exact evictWorkingset_isSome
  | secondchance => exact evictSecondchance_isSome typed.size occupied typed.clockHand
  | nfu => exact evictNfu_isSome
  | aging => exact evictAging_isSome typed.ageCounter
  | random => exact evictRandom_isSome

/-! ## The eviction -/

/-- The page an entry is for, and whether the page was written. -/
def PageRef.content (ref : PageRef) : Nat × Nat × Bool := (ref.virtualAddr, ref.ownerPid, ref.dirty)

/-- The entry is taken out of the table, and nothing else is. -/
theorem remove_perm (entry : t.pageRefs[i]? = some ref) :
    t.pageRefs.Perm (ref :: (t.remove i).pageRefs) := by
  obtain ⟨below, isRef⟩ := List.getElem?_eq_some_iff.mp entry
  obtain ⟨front, last, refs⟩ : ∃ front last, t.pageRefs = front ++ [last] :=
    ⟨_, _, (dropLast_append_getLast (ne_nil_of_length_pos (by omega))).symm⟩
  have count : t.count = front.length + 1 := by
    unfold Table.count
    rw [refs, length_append, length_singleton]
  by_cases inner : i < t.count - 1
  · have inFront : i < front.length := by omega
    have isRef' : front.get ⟨i, inFront⟩ = ref := by
      rw [← isRef]
      simp [refs, getElem_append_left inFront]
    have removed : (t.remove i).pageRefs = front.set i last := by
      rw [remove_of_lt inner (by simp [refs] : t.pageRefs.getLast? = some last)]
      simp [refs, set_append_left _ _ inFront]
    rw [removed, refs]
    calc front ++ [last]
      _ |>.Perm (last :: front) := perm_append_singleton last front
      _ |>.Perm (last :: ref :: front.eraseIdx i) := by
          refine List.Perm.cons _ (List.Perm.symm ?_)
          rw [← isRef']
          exact getElem_cons_eraseIdx_perm inFront
      _ |>.Perm (ref :: last :: front.eraseIdx i) := List.Perm.swap ..
      _ |>.Perm (ref :: front.set i last) :=
          List.Perm.cons _ (set_perm_cons_eraseIdx inFront last).symm
  · have atEnd : i = front.length := by
      unfold Table.count at *
      omega
    subst atEnd
    have isLast : last = ref := by
      rw [← isRef]
      simp [refs]
    rw [remove_last inner, ← isLast, refs, dropLast_concat]
    exact perm_append_singleton last front

theorem doEvictPage_table (entry : s.table.pageRefs[i]? = some ref) :
    (doEvictPage s i).table = s.table.remove i := by
  unfold doEvictPage
  rw [entry]
  dsimp only
  split
  case h_1 => rfl
  case h_2 =>
    split
    case isTrue => rfl
    case isFalse => exact remove_modify (List.getElem?_eq_some_iff.mp entry).1

/-- `page_replace_evict` returns 0 and takes one entry out of the table, which is for a user
page, and the address, the owner and the dirty bit of every other entry stay as they are. -/
def EvictsOne (s : State) (rand : Nat → Nat) : Prop :=
  (pageReplaceEvict s rand).2 ∧
    ∃ victim ∈ s.table.pageRefs, victim.user ∧
      (s.table.pageRefs.map content).Perm
        (victim.content :: ((pageReplaceEvict s rand).1.table.pageRefs.map content))

/-- **An eviction that finds a victim evicts one page.** -/
theorem evictsOne_of_select (found : (s.table.select rand).2 = some i) : EvictsOne s rand := by
  obtain ⟨ref, entry, user⟩ := select_victim i found
  have same : (s.table.select rand).1.pageRefs.map content =
      s.table.pageRefs.map content := select_map (fun _ _ => rfl)
  have evicted : pageReplaceEvict s rand =
      (doEvictPage { s with table := (s.table.select rand).1 } i, true) := by
    unfold pageReplaceEvict
    dsimp only
    rw [found]
  obtain ⟨victim, member, content⟩ : ∃ victim ∈ s.table.pageRefs, victim.content = ref.content := by
    rw [← List.mem_map, ← same]
    exact List.mem_map_of_mem (List.mem_of_getElem? entry)
  unfold EvictsOne
  rw [evicted]
  refine ⟨rfl, victim, member, ?_, ?_⟩
  · have address : victim.virtualAddr = ref.virtualAddr := congrArg Prod.fst content
    unfold PageRef.user at user ⊢
    rw [address]
    exact user
  · have removed := (remove_perm entry).map PageRef.content
    rw [doEvictPage_table entry, ← same, content]
    exact removed

/-- **`page_replace_evict` evicts one user page exactly under the condition of its policy**,
for every table with a user page. -/
theorem evicts_one_iff {s : State} {rand : Nat → Nat} (typed : s.table.Typed)
    (user : ∃ ref ∈ s.table.pageRefs, ref.user) :
    EvictsOne s rand ↔ s.table.Evictable rand := by
  rw [← select_isSome typed user]
  constructor
  · rintro ⟨returned, -⟩
    unfold pageReplaceEvict at returned
    dsimp only at returned
    split at returned
    case h_1 => cases returned
    case h_2 found => exact isSome_of_eq_some found
  · intro found
    obtain ⟨i, isSome⟩ := isSome_iff_exists.mp found
    exact evictsOne_of_select isSome

/-! ## Tables without a victim -/

def withTable (policy : Policy) (hand : Nat) (refs : List PageRef) : State :=
  { newProcess policy with table := ⟨refs, policy, hand, hand⟩ }

def kernelRef : PageRef := newRef kernelBase 1 1

/-- Tables with a user page on which a policy finds no victim: a hand that wraps, keys that
equal the sentinel, and a dirty page behind a kernel page. -/
def victimless : List State :=
  [withTable .fifo maxWord [kernelRef, kernelRef, newRef 0x400000 1 1],
    withTable .lru 0 [newRef 0x400000 1 maxWord],
    withTable .lfu 0 [{ newRef 0x400000 1 maxWord with frequency := maxWord }],
    withTable .mru 0 [newRef 0x400000 1 0],
    withTable .workingset 0 [newRef 0x400000 1 maxWord],
    withTable .secondchance 0 [kernelRef, { newRef 0x400000 1 1 with dirty := true }],
    withTable .nfu 0 [{ newRef 0x400000 1 1 with accessCount := maxWord }],
    withTable .aging 0 [{ newRef 0x400000 1 1 with ageCounter := 0xFF }],
    withTable .random 0 [kernelRef, newRef 0x400000 1 maxWord]]

/-- **Nine policies give up on a table with a user page**; `rand` gives 0. -/
theorem victimless_evict_fails :
    victimless.map (fun s => (s.table.pageRefs.any user, (pageReplaceEvict s fun _ => 0).2)) =
      replicate 9 (true, false) := by
  decide +kernel

/-- The theorem at a table with a kernel page and a clean user page. -/
theorem secondchance_evicts_clean_page :
    EvictsOne (withTable .secondchance 0 [kernelRef, newRef 0x400000 1 1]) fun _ => 0 := by
  refine (evicts_one_iff ⟨by decide, by decide, by decide, by decide, by decide⟩ ?_).mpr ?_
  · exact ⟨newRef 0x400000 1 1, mem_of_getElem? (i := 1) rfl, by decide⟩
  · exact .inl ⟨newRef 0x400000 1 1, mem_of_getElem? (i := 1) rfl, by decide, rfl⟩

end FunsOS.PageReplace
