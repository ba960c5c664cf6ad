import FunsOS.Sched.Schedule

/-!
# What the scheduler's operations keep

One lemma for each operation of the scheduler: it returns, and it keeps the invariant.
An operation on one process takes it out of its queue, changes it and puts it back; the
hypotheses say when the code's way of doing so is right. For a process of the CFS policy
that is READY it mostly is not: `sched_block`, `sched_set_priority` and
`sched_set_current` look for the process in an MLFQ queue, and `sched_set_policy` takes
the first process of the CFS queue in its place.
-/

set_option autoImplicit false

namespace FunsOS.Sched

open Foundation List SchedState
open Function (update update_of_ne update_self)

universe u

variable {α : Type u} [DecidableEq α] [Fintype α] {s s' : SchedState α}
  {q : QueueId → List α} {ps : List α} {p : α} {out : Option α} {life : α → Life}
  {limit : Nat}

/-! ## The process list -/

/-- The process list changes, and what has become of a process that is not the idle task. -/
theorem Placed.relist {ps' : List α} {next prev : α → Option α} {processList : Option α}
    (placed : Placed limit life s q ps out) (now : Life)
    (list : Dll next prev processList ps'.getLast? ps')
    (members : ∀ x ∈ ps', out ≠ some x → x ∈ ps) (notIdle : s.idleTask ≠ some p)
    (known : now ≠ .new) (listed : ∀ x, x ∈ ps' ↔ update life p now x = .listed) :
    Placed limit (update life p now) { s with next, prev, processList } q ps' out :=
  { placed with
    queues := placed.queues.change (by constructor <;> rfl) (fun _ _ _ => ⟨rfl, rfl, rfl⟩)
      placed.queues.level placed.queues.clean
    cfs := placed.cfs.congr rfl rfl fun _ => ⟨rfl, rfl, rfl⟩
    covered := fun x member notOut => placed.covered x (members x member notOut) notOut
    fresh := by
      intro x stillNew
      have other : x ≠ p := by
        rintro rfl
        exact known ((update_self _ _ _).symm.trans stillNew)
      exact placed.fresh x ((update_of_ne other _ _).symm.trans stillNew)
    idle := by
      intro x isIdle
      have other : x ≠ p := fun here => notIdle (here ▸ isIdle)
      rw [update_of_ne other]
      exact placed.idle x isIdle
    list
    listed }

/-- The list part of `sched_add`: a new process enters the list, and is not queued
yet. -/
theorem Placed.enlist (placed : Placed limit life s q ps none) (isNew : life p = .new)
    {lastRunTime : α → Nat} :
    Placed limit (update life p .listed)
      { s.setState p .ready with
        lastRunTime
        next := update s.next p s.processList
        prev := redirect (update s.prev p none) s.processList (some p)
        processList := some p } q (p :: ps) (some p) := by
  obtain ⟨absent, notWaiting⟩ := placed.fresh p isNew
  have unlisted : p ∉ ps := fun member => by simp [(placed.listed p).mp member] at isNew
  have front := placed.list.pushFront unlisted
  have relisted := (placed.exclude absent notWaiting).relist .listed (front.tail_eq ▸ front)
    (fun x member notOut => mem_of_ne_of_mem (fun here => notOut (by rw [here])) member)
    (placed.notIdle (p := p) (by simp [isNew])) (by decide) fun x => ?_
  · exact relisted.changeState (by simp) (by repeat' constructor) ⟨rfl, rfl, rfl⟩ rfl
  · by_cases here : x = p
    · subst here
      simp
    · rw [update_of_ne here, ← placed.listed x]
      simp [here]

/-- The list part of `sched_remove`. -/
theorem Placed.unlist_of_mem (placed : Placed limit life s q ps out) (listed : p ∈ ps) :
    Placed limit (update life p .unlisted) (unlist s p) q (ps.erase p) out := by
  have member : ∀ {x}, x ∈ ps.erase p ↔ x ≠ p ∧ x ∈ ps := placed.list.nodup.mem_erase_iff
  have isListed := (placed.listed p).mp listed
  refine placed.relist .unlisted ?_ (fun x inside _ => (member.mp inside).2)
    (placed.notIdle (by simp [isListed])) (by decide) fun x => ?_
  · obtain ⟨before, after, split⟩ := append_of_mem listed
    have dll := placed.list
    rw [split] at dll
    have fresh : p ∉ before := fun early =>
      (nodup_cons.mp (nodup_middle.mp dll.nodup)).1 (mem_append_left _ early)
    have erased : ps.erase p = before ++ after := by
      rw [split, erase_append_right _ fresh, erase_cons_head]
    -- the start pointer is moved exactly when the process has no predecessor
    have start : (if s.processList = some p then s.next p else s.processList) =
        restart s.processList (s.prev p) (s.next p) := by
      rw [dll.links.2, dll.head_eq]
      cases before with
      | nil => simp [restart]
      | cons b rest =>
        have other : b ≠ p := fun here => fresh (here ▸ mem_cons_self)
        rw [List.getLast?_cons]
        simp [restart, other]
    have removed := dll.remove
    rw [erased, start]
    exact removed.tail_eq ▸ removed
  · rw [member]
    by_cases here : x = p
    · subst here
      simp
    · rw [update_of_ne here, ← placed.listed x]
      simp [here]

/-! ## Operations on one process -/

omit [Fintype α] in
theorem touch_ne_new (life : α → Life) (p : α) : touch life (some p) p ≠ .new := by
  unfold touch
  split
  · simp
  case isFalse other => exact fun isNew => other ⟨rfl, isNew⟩

omit [Fintype α] in
theorem touch_cases (life : α → Life) (subject : Option α) (x : α) :
    touch life subject x = life x ∨ (life x = .new ∧ touch life subject x = .unlisted) := by
  unfold touch
  split
  case isTrue touched => exact .inr ⟨touched.2, rfl⟩
  case isFalse => exact .inl rfl

/-- An operation may be given a process. -/
theorem Placed.given (placed : Placed limit life s q ps out) {subject : Option α} :
    Placed limit (touch life subject) s q ps out := by
  refine placed.relabel (fun x => ?_) (fun x => ?_) fun x => ?_
  · rcases touch_cases life subject x with same | ⟨-, gone⟩
    · exact fun isNew => same ▸ isNew
    · simp [gone]
  · rcases touch_cases life subject x with same | ⟨isNew, gone⟩
    · rw [same]
    · simp [gone, isNew]
  · rcases touch_cases life subject x with same | ⟨isNew, -⟩
    · exact fun gone => same ▸ gone
    · simp [isNew]

/-- A process is out of its queue, and nothing else has changed. -/
def TakenOut (limit : Nat) (life : α → Life) (ps : List α) (s : SchedState α) (p : α)
    (t : SchedState α) : Prop :=
  Frame s t ∧ ∃ q, Placed limit life t q ps (some p)

section

variable (placed : Placed limit life s q ps none)
include placed

/-- A process that is not READY is in no queue. -/
theorem Placed.takenOut_returns {taken : Option (SchedState α)}
    (takes : s.state p = .ready → Returns taken (TakenOut limit life ps s p)) :
    Returns (if s.state p = .ready then taken else some s) (TakenOut limit life ps s p) := by
  split
  case isTrue ready => exact takes ready
  case isFalse notReady =>
    exact .of_some ⟨Frame.refl, q, placed.exclude_of_not_ready notReady⟩

/-- Taking a READY process of an RT or MLFQ queue out. -/
theorem Placed.removeSelected_returns (notWaiting : ¬ s.inCfs p) :
    Returns (removeSelected s p) (TakenOut limit life ps s p) := by
  rw [placed.removeSelected_eq]
  exact .of_some ⟨frame_queueRemove s _ p, _, placed.take notWaiting⟩

/-- The dequeueing of `sched_set_policy` takes the process out, if it comes first in the
CFS queue when it waits there. -/
theorem Placed.dequeueByPolicy_returns (ready : s.state p = .ready)
    (first : s.inCfs p → s.cfsNodes.head?.map Prod.fst = some p) :
    Returns (dequeueByPolicy s p) (TakenOut limit life ps s p) := by
  cases route : (s.policy p).route with
  | queue =>
    have removes : dequeueByPolicy s p = removeSelected s p := by
      unfold Policy.route at route
      unfold dequeueByPolicy
      split_ifs at route ⊢ <;> rfl
    rw [removes]
    exact placed.removeSelected_returns fun waiting => by simp [waiting.2] at route
  | cfs =>
    have removes : dequeueByPolicy s p = some (schedCfsDequeue s) := by
      unfold Policy.route at route
      unfold dequeueByPolicy
      split_ifs at route ⊢
      rfl
    rw [removes]
    exact .of_some ⟨(schedCfsDequeue_frame s).1, q,
      placed.dequeue ⟨ready, route⟩ (first ⟨ready, route⟩)⟩
  | deadline => exact absurd route (placed.cfs.noDeadline p)

/-- A process outside the queues and the list may become the idle task. -/
theorem Placed.setIdle (gone : life p = .unlisted) (route : (s.policy p).route = .queue)
    (absent : ∀ i, p ∉ q i) : Placed limit life { s with idleTask := some p } q ps none where
  queues := placed.queues.change (by constructor <;> rfl) (fun _ _ _ => ⟨rfl, rfl, rfl⟩)
    placed.queues.level placed.queues.clean
  cfs := placed.cfs.congr rfl rfl fun _ => ⟨rfl, rfl, rfl⟩
  covered := placed.covered
  apart := placed.apart
  fresh := placed.fresh
  idle := by
    rintro x ⟨⟩
    exact ⟨gone, route, absent⟩
  list := placed.list
  listed := placed.listed

end

/-! ## The operations -/

variable (kept : Kept limit life ps s)
include kept

theorem Kept.given (subject : Option α) : Kept limit (touch life subject) ps s := by
  obtain ⟨⟨q, placed⟩, holder, justified⟩ := kept
  refine ⟨⟨q, placed.given⟩, fun x isCurrent => ?_, justified⟩
  obtain ⟨known, state⟩ := holder x isCurrent
  refine ⟨?_, state⟩
  rcases touch_cases life subject x with same | ⟨-, gone⟩
  · rwa [same]
  · simp [gone]

/-- An operation that does not go through `schedule` and leaves the state of the current
process alone. -/
theorem Kept.of_placed (placed : ∃ q, Placed limit life s' q ps none)
    (current : s'.current = s.current) (unscheduled : s'.scheduled = false)
    (state : ∀ x, s.current = some x → s'.state x = s.state x) : Kept limit life ps s' := by
  refine ⟨placed, fun x isCurrent => ?_, fun scheduled => ?_⟩
  · rw [current] at isCurrent
    rw [state x isCurrent]
    exact kept.2.1 x isCurrent
  · simp [unscheduled] at scheduled

/-- `sched_yield`. -/
theorem Kept.yield_returns (work : Work s none) : Returns (schedYield s) (Kept limit life ps) := by
  unfold schedYield
  split
  case h_1 => exact .of_some kept
  case h_2 p current =>
    obtain ⟨known, notReady, -⟩ := kept.2.1 p current
    obtain ⟨q, placed⟩ := kept.1
    split
    · have lower : s.queueLevel p - 1 < 8 :=
        Nat.lt_of_le_of_lt (Nat.sub_le _ _) (placed.queues.level p)
      exact (kept.midway.level lower known notReady).schedule_returns work
    · exact kept.midway.schedule_returns work

variable (unscheduled : s.scheduled = false)
include unscheduled

/-- **`sched_add` of a new process.** -/
theorem Kept.add_returns (isNew : life p = .new) :
    Returns (schedAdd s p) (Kept limit (update life p .listed) (p :: ps)) := by
  obtain ⟨⟨q, placed⟩, holder, -⟩ := kept
  have notIdle : s.idleTask ≠ some p := placed.notIdle (by simp [isNew])
  refine Returns.mono ((placed.enlist isNew).addToQueue_returns (by simp) notIdle
    (update_self _ _ _)) ?_
  rintro s' ⟨frame, -, back⟩
  refine ⟨back, ?_, fun scheduled => ?_⟩
  · intro x isCurrent
    rw [frame.current] at isCurrent
    obtain ⟨known, state⟩ := holder x isCurrent
    have other : x ≠ p := by
      rintro rfl
      exact known isNew
    rw [frame.state, update_of_ne other]
    have same : (s.setState p .ready).state x = s.state x := update_of_ne other _ _
    exact ⟨known, same ▸ state⟩
  · rw [frame.scheduled] at scheduled
    simp [setState, unscheduled] at scheduled

/-- **`sched_remove` of a process of the list.** -/
theorem Kept.remove_returns (isListed : life p = .listed) :
    Returns (schedRemove s p) (Kept limit (update life p .unlisted) (ps.erase p)) := by
  obtain ⟨⟨q, placed⟩, holder, -⟩ := kept
  have frame := frame_queueRemove s (s.selected p) p
  have listed := (placed.listed p).mpr isListed
  rw [schedRemove, placed.removeSelected_eq]
  refine .of_some ⟨?_, ?_, fun scheduled => ?_⟩
  · by_cases member : p ∈ q (s.selected p)
    · have notWaiting : ¬ s.inCfs p := fun waiting => by
        have route := (placed.queues.home _ p member).2.1
        simp [waiting.2] at route
      refine ⟨_, ((placed.take notWaiting).unlist_of_mem listed).settle ?_ fun inside => ?_⟩
      · rw [inCfs] at notWaiting ⊢
        exact fun waiting => notWaiting (frame.state ▸ frame.policy ▸ waiting)
      · exact absurd rfl (placed.list.nodup.mem_erase_iff.mp inside).1
    · rw [queueRemove_of_notMem placed.queues member]
      exact ⟨q, placed.unlist_of_mem listed⟩
  · intro x isCurrent
    obtain ⟨known, state⟩ := holder x (frame.current ▸ isCurrent)
    refine ⟨?_, by rwa [show (unlist _ p).state = s.state from frame.state]⟩
    by_cases here : x = p
    · subst here
      simp
    · rwa [update_of_ne here]
  · have unchanged : s.scheduled := frame.scheduled.symm.trans scheduled
    simp [unscheduled] at unchanged

/-- `sched_set_current` of no process. -/
theorem Kept.setCurrent_none_keeps : Kept limit life ps (schedSetCurrent s none) := by
  obtain ⟨q, placed⟩ := kept.1
  refine ⟨⟨q, placed.congr (by repeat' constructor) fun _ => ⟨rfl, rfl, rfl, rfl⟩⟩, ?_, ?_⟩
  · rintro x ⟨⟩
  · intro scheduled
    simp [schedSetCurrent, unscheduled] at scheduled

/-- `sched_create_idle_task`. -/
theorem Kept.createIdleTask_keeps (isNew : life p = .new) (noIdle : s.idleTask = none) :
    Kept limit (touch life (some p)) ps (schedCreateIdleTask s p) := by
  obtain ⟨q, placed⟩ := kept.1
  obtain ⟨absent, notWaiting⟩ := placed.fresh p isNew
  have gone : touch life (some p) p = .unlisted := by simp [touch, isNew]
  let moved : SchedState α :=
    { s.setState p .ready with
      policy := update s.policy p .idleOnly
      priority := update s.priority p priorityMax
      effectivePriority := update s.effectivePriority p priorityMax }
  have policy : moved.policy p = .idleOnly := update_self _ _ _
  have changed : Placed limit (touch life (some p)) moved q ps (some p) := by
    refine (placed.given.exclude absent notWaiting).change (touch_ne_new life p)
      (by repeat' constructor)
      (fun x other => ?_) ?_
    · exact ⟨update_of_ne other _ _, update_of_ne other _ _, update_of_ne other _ _, rfl⟩
    · refine ⟨placed.queues.level p, ?_, ?_, ?_, fun isIdle => by simp [noIdle] at isIdle⟩
      all_goals rw [policy]
      · rintro ⟨⟩
      · decide
      · rintro ⟨⟩
  have settled : Placed limit (touch life (some p)) moved q ps none := by
    refine changed.settle (fun waiting => ?_) fun member => ?_
    · have route := waiting.2
      rw [policy] at route
      cases route
    · simp [(placed.listed p).mp member] at isNew
  refine (kept.given (some p)).of_placed
    ⟨q, settled.setIdle gone (by rw [policy]; rfl) absent⟩ rfl unscheduled fun x isCurrent => ?_
  have other : x ≠ p := by
    rintro rfl
    exact (kept.2.1 x isCurrent).1 isNew
  exact update_of_ne other _ _

/-- The current process marks itself before it is removed. -/
theorem Kept.markZombie_keeps : Kept limit life ps (markZombie s) := by
  unfold markZombie
  cases current : s.current with
  | none => exact kept
  | some p =>
    obtain ⟨q, placed⟩ := kept.1
    obtain ⟨known, notReady, -⟩ := kept.2.1 p current
    refine ⟨⟨q, (placed.exclude_of_not_ready notReady).leaves known (by repeat' constructor)
      ⟨rfl, rfl, rfl⟩ rfl (by decide)⟩, ?_, fun scheduled => ?_⟩
    · intro x isCurrent
      cases current.symm.trans isCurrent
      simp [setState, known]
    · simp [setState, unscheduled] at scheduled

variable (known : life p ≠ .new)
include known

/-- `sched_set_current` of a process. -/
theorem Kept.setCurrent_keeps (notWaiting : ¬ s.inCfs p) :
    Kept limit life ps (schedSetCurrent s (some p)) := by
  obtain ⟨q, placed⟩ := kept.1
  have frame := frame_queueRemove s (s.selected p) p
  refine ⟨⟨_, (placed.take notWaiting).leaves known (by repeat' constructor) ⟨rfl, rfl, rfl⟩ rfl
    (by decide)⟩, ?_, fun scheduled => ?_⟩
  · intro x isCurrent
    cases isCurrent
    simp [schedSetCurrent, setState, known]
  · have unchanged : s.scheduled := frame.scheduled.symm.trans scheduled
    simp [unscheduled] at unchanged

/-- `sched_block`. -/
theorem Kept.block_returns {reason : BlockReason} (notWaiting : ¬ s.inCfs p)
    (work : s.state p = .running → Work s (some p)) :
    Returns (schedBlock s p reason) (Kept limit life ps) := by
  obtain ⟨q, placed⟩ := kept.1
  unfold schedBlock
  cases state : s.state p with
  | running =>
    have blocked : Placed limit life
        { s.setState p .blocked with
          blockedReason := update s.blockedReason p reason } q ps none :=
      (placed.exclude_of_not_ready (by simp [state])).leaves known (by repeat' constructor)
        ⟨rfl, rfl, rfl⟩ rfl (by decide)
    refine blocked.schedule_returns (fun x isCurrent => (kept.2.1 x isCurrent).1) ?_
    refine (work state).change rfl (fun x _ still => ?_) id
      fun x isCurrent stays running notIdle _ => ?_
    · have other : x ≠ p := by
        rintro rfl
        exact still.2.1 state
      simpa [dormant, setState, other] using still
    · have other : x ≠ p := fun here => stays (by rw [here])
      exact ⟨isCurrent, by simp, (update_of_ne other _ _).trans running, notIdle⟩
  | ready =>
    have frame := frame_queueRemove s (s.selected p) p
    simp only [placed.removeSelected_eq]
    refine .of_some (kept.of_placed ⟨_, (placed.take notWaiting).leaves known
      (by repeat' constructor) ⟨rfl, rfl, rfl⟩ rfl (by decide)⟩ frame.current
      (frame.scheduled.trans unscheduled) fun x isCurrent => ?_)
    have other : x ≠ p := by
      rintro rfl
      exact (kept.2.1 x isCurrent).2.1 state
    exact (update_of_ne other _ _).trans (congrFun frame.state x)
  | blocked | unused | zombie => exact .of_some kept

omit known in
/-- `sched_sleep`. -/
theorem Kept.sleep_returns {milliseconds : Nat} (work : Work s s.current) :
    Returns (schedSleep s milliseconds) (Kept limit life ps) := by
  unfold schedSleep
  split
  case h_1 => exact .of_some kept
  case h_2 p current =>
    obtain ⟨q, placed⟩ := kept.1
    obtain ⟨known, notReady, -⟩ := kept.2.1 p current
    refine Kept.block_returns ?_ ?_ known (fun waiting => notReady waiting.1)
      fun _ => current ▸ work
    · exact kept.of_placed ⟨q, placed.congr (by repeat' constructor) fun _ => ⟨rfl, rfl, rfl, rfl⟩⟩
        rfl unscheduled fun _ _ => rfl
    · exact unscheduled

variable (notIdle : s.idleTask ≠ some p) {priority : Nat}
include notIdle

/-- `sched_unblock`. -/
theorem Kept.unblock_returns : Returns (schedUnblock s p) (Kept limit life ps) := by
  obtain ⟨q, placed⟩ := kept.1
  unfold schedUnblock
  split
  case isTrue => exact .of_some kept
  case isFalse notBlocked =>
    have blocked : s.state p = .blocked := Decidable.not_not.mp notBlocked
    refine Returns.mono (placed.ready_returns known notIdle (by simp [blocked])
      (by repeat' constructor) ⟨rfl, rfl, rfl⟩ rfl) ?_
    rintro s' ⟨frame, -, back⟩
    refine kept.of_placed back frame.current (frame.scheduled.trans unscheduled) ?_
    intro x isCurrent
    have other : x ≠ p := by
      rintro rfl
      exact (kept.2.1 x isCurrent).2.2 blocked
    rw [frame.state]
    exact update_of_ne other _ _

/-- The common shape of `sched_set_priority` and `sched_set_policy`. -/
theorem Kept.requeue_returns {take : SchedState α → Option (SchedState α)}
    {change : SchedState α → SchedState α}
    (takes : ∀ q, Placed limit life s q ps none → s.state p = .ready →
      Returns (take s) (TakenOut limit life ps s p))
    (changes : ∀ t q', Frame s t → Placed limit life t q' ps (some p) →
      Placed limit life (change t) q' ps (some p))
    (same : ∀ t, (change t).state = t.state ∧ (change t).current = t.current ∧
      (change t).idleTask = t.idleTask ∧ (change t).scheduled = t.scheduled) :
    Returns (requeueIfReady take change s p) (Kept limit life ps) := by
  obtain ⟨q, placed⟩ := kept.1
  refine (placed.takenOut_returns (takes q placed)).bind ?_
  rintro t ⟨frame, q', outside⟩
  obtain ⟨state, current, idle, scheduled⟩ := same t
  have changed := changes t q' frame outside
  dsimp only
  split
  case isTrue ready =>
    refine Returns.mono (changed.addToQueue_returns known ?_ ready) ?_
    · rw [idle, frame.idleTask]
      exact notIdle
    · rintro s' ⟨frame', -, back⟩
      refine kept.of_placed back (frame'.current.trans (current.trans frame.current)) ?_ ?_
      · rw [frame'.scheduled, scheduled, frame.scheduled, unscheduled]
      · intro x _
        rw [frame'.state, state, frame.state]
  case isFalse notReady =>
    refine .of_some (kept.of_placed ⟨q', changed.settle_of_not_ready notReady⟩
      (current.trans frame.current) (scheduled.trans (frame.scheduled.trans unscheduled)) ?_)
    intro x _
    rw [state, frame.state]

/-- `sched_set_priority`. -/
theorem Kept.setPriority_returns (notWaiting : ¬ s.inCfs p) :
    Returns (schedSetPriority s p priority) (Kept limit life ps) := by
  unfold schedSetPriority
  refine kept.requeue_returns unscheduled known notIdle
    (fun q placed _ => placed.removeSelected_returns notWaiting) (fun t q' _ outside => ?_)
    fun t => ⟨rfl, rfl, rfl, rfl⟩
  refine outside.change known (by repeat' constructor) (fun x other => ?_)
    (outside.admits (outside.queues.level p) rfl)
  exact ⟨rfl, rfl, update_of_ne other _ _, rfl⟩

/-- `sched_set_policy`. -/
theorem Kept.setPolicy_returns {policy : Policy} (clean : policy.Clean)
    (notDeadline : policy.route ≠ .deadline)
    (first : s.inCfs p → s.cfsNodes.head?.map Prod.fst = some p)
    (room : policy.route = .cfs → ((cfsProcs s).erase p).card < limit) :
    Returns (schedSetPolicy s p policy) (Kept limit life ps) := by
  refine kept.requeue_returns unscheduled known notIdle
    (fun q placed ready => placed.dequeueByPolicy_returns ready first)
    (fun t q' frame outside => ?_) fun t => ⟨rfl, rfl, rfl, rfl⟩
  refine outside.change known (by repeat' constructor) (fun x other => ?_) ?_
  · exact ⟨rfl, update_of_ne other _ _, rfl, update_of_ne other _ _⟩
  · constructor
    case level => simp
    case clean => simpa using clean
    case notDeadline => simpa using notDeadline
    case room =>
      have procs : cfsProcs t = cfsProcs s := by rw [cfsProcs, cfsProcs, frame.policy]
      rw [procs]
      simpa using room
    case idle => exact fun isIdle => absurd (frame.idleTask ▸ isIdle) notIdle

/-- `sched_set_policy_cfs`. A READY process has to be in an RT or MLFQ queue, with a flag
that the function tests. -/
theorem Kept.setPolicyCfs_returns (flags : s.state p = .ready → (s.policy p).route = .queue ∧
      ((s.policy p).realTime ∨ (s.policy p).normal ∨ (s.policy p).batch ∨ (s.policy p).idlePrio))
    (room : ((cfsProcs s).erase p).card < limit) :
    Returns (schedSetPolicyCfs s p) (Kept limit life ps) := by
  obtain ⟨q, placed⟩ := kept.1
  have taken : s.state p = .ready → Returns (dequeueForCfs s p) (TakenOut limit life ps s p) := by
    intro ready
    obtain ⟨route, flag⟩ := flags ready
    have removes : dequeueForCfs s p = removeSelected s p := by
      unfold dequeueForCfs
      by_cases isRt : (s.policy p).realTime
      · rw [if_pos isRt]
      · rw [if_neg isRt, if_pos (flag.resolve_left isRt)]
    rw [removes]
    exact placed.removeSelected_returns fun waiting => by simp [waiting.2] at route
  refine (placed.takenOut_returns taken).map ?_
  rintro t ⟨frame, q', outside⟩
  let moved : SchedState α :=
    { t with
      policy := update t.policy p .cfsOnly
      vruntime := update t.vruntime p t.cfsMinVruntime
      needResched := update t.needResched p false
      execStart := update t.execStart p t.tickCount }
  have policy : moved.policy p = .cfsOnly := update_self _ _ _
  have changed : Placed limit life moved q' ps (some p) := by
    refine outside.change known (by repeat' constructor) (fun x other => ?_) ?_
    · exact ⟨rfl, update_of_ne other _ _, rfl, rfl⟩
    · have procs : cfsProcs t = cfsProcs s := by rw [cfsProcs, cfsProcs, frame.policy]
      refine ⟨outside.queues.level p, ?_, ?_, fun _ => procs ▸ room, fun isIdle => ?_⟩
      · rw [policy]
        rintro ⟨⟩
      · rw [policy]
        decide
      · exact absurd (frame.idleTask ▸ isIdle) notIdle
  change Kept limit life ps (if moved.state p = .ready then enqueueEntity moved p
    else if moved.state p = .running then { moved with cfsCurr := some p } else moved)
  split_ifs with ready running
  · have frame' := (enqueueEntity_frame moved p).1
    refine kept.of_placed ⟨q', changed.enqueue ⟨ready, by rw [policy]; rfl⟩⟩
      (frame'.current.trans frame.current)
      (frame'.scheduled.trans (frame.scheduled.trans unscheduled)) fun x _ => ?_
    rw [frame'.state]
    exact congrFun frame.state x
  · have settled := changed.settle_of_not_ready ready
    exact kept.of_placed ⟨q', settled.congr (by repeat' constructor) fun _ => ⟨rfl, rfl, rfl, rfl⟩⟩
      frame.current (frame.scheduled.trans unscheduled)
      fun x _ => congrFun frame.state x
  · exact kept.of_placed ⟨q', changed.settle_of_not_ready ready⟩ frame.current
      (frame.scheduled.trans unscheduled) fun x _ => congrFun frame.state x

/-- `sched_batch_add`. -/
theorem Kept.batchAdd_returns (notWaiting : priority < priorityMax → ¬ s.inCfs p) :
    Returns (schedBatchAdd s p priority) (Kept limit life ps) := by
  obtain ⟨q, placed⟩ := kept.1
  let marked : SchedState α :=
    { s with policy := update s.policy p { s.policy p with batch := true } }
  have policy : ∀ x, (marked.policy x).route = (s.policy x).route ∧
      (marked.policy x).realTime = (s.policy x).realTime ∧
      ((s.policy x).Clean → (marked.policy x).Clean) := by
    intro x
    by_cases here : x = p
    · subst here
      simp [marked, Policy.route, Policy.Clean]
    · simp [marked, here]
  have place : ∀ x, SamePlace s marked x := fun x =>
    ⟨rfl, (policy x).1, by rw [selected, selected, (policy x).2.1]⟩
  have kept' : Kept limit life ps marked :=
    kept.of_placed ⟨q, placed.reselect (by repeat' constructor) place placed.queues.level
      fun x => (policy x).2.2 (placed.queues.clean x)⟩ rfl unscheduled fun _ _ => rfl
  change Returns (if priority < priorityMax then schedSetPriority marked p priority
    else some marked) (Kept limit life ps)
  split
  case isTrue lower =>
    refine kept'.setPriority_returns unscheduled known notIdle fun waiting => ?_
    exact notWaiting lower ⟨waiting.1, (policy p).1 ▸ waiting.2⟩
  case isFalse => exact .of_some kept'

theorem Kept.cfsTick_returns (route : (s.policy p).route = .cfs) (work : Work s none) :
    Returns (schedCfsTick s p) (Kept limit life ps) := by
  obtain ⟨q, placed⟩ := kept.1
  have ticked : Placed limit life (taskTickFair s p) q ps none := placed.congr
    (by repeat' constructor) fun _ => ⟨rfl, rfl, rfl, rfl⟩
  unfold schedCfsTick
  dsimp only
  split
  case isFalse =>
    exact .of_some (kept.of_placed ⟨q, ticked⟩ rfl unscheduled fun _ _ => rfl)
  case isTrue runs =>
    have running : s.state p = .running := runs.2
    let waiting : SchedState α :=
      { (taskTickFair s p).setState p .ready with
        needResched := update (taskTickFair s p).needResched p false }
    have adds : addToQueue waiting p = some (enqueueEntity waiting p) := addToQueue_of_cfs route
    obtain ⟨queued, isQueued, frame, busier, q', back⟩ : Returns (addToQueue waiting p) _ :=
      ticked.ready_returns known notIdle (by simp [runs.2]) (by repeat' constructor)
        ⟨rfl, rfl, rfl⟩ rfl
    cases adds.symm.trans isQueued
    have state : ∀ x ≠ p, (enqueueEntity waiting p).state x = s.state x := by
      intro x other
      rw [frame.state]
      exact update_of_ne other _ _
    refine back.schedule_returns (fun x isCurrent => ?_) ?_
    · rw [frame.current] at isCurrent
      exact (kept.2.1 x isCurrent).1
    · refine work.change frame.policy (fun x _ still => ?_) (fun held => busier (.inl held))
        fun x isCurrent stays isRunning notIdle' isQueue => ?_
      · have other : x ≠ p := by
          rintro rfl
          exact still.2.1 running
        rw [dormant, state x other, frame.blockedReason]
        exact still
      · have other : x ≠ p := by
          rintro rfl
          simp [route] at isQueue
        exact ⟨frame.current.trans isCurrent, stays, (state x other).trans isRunning,
          frame.idleTask ▸ notIdle'⟩

end FunsOS.Sched
