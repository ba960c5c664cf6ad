import FunsOS.Sched.Placement

/-!
# `schedule` and `sched_tick`

`Kept limit life ps s` is the invariant of the scheduler between operations: every process
is in its place, the current process is not waiting, and if the operation went
through `schedule` and the idle task is current, no process of the process list is
READY. `Placed.schedule_returns` proves it of `schedule`, provided that there is work
for it (`Work`) or no process of the CFS policy to run, and `Kept.tick_returns` of
`sched_tick` with its walks over the process list.

Inside an operation `Midway` holds: the part of the invariant that the next call of
`schedule` needs.
-/

set_option autoImplicit false

namespace FunsOS.Sched

open Foundation Function List Nat SchedState

universe u

variable {α : Type u} [DecidableEq α] [Fintype α] {s s' : SchedState α}
  {q : QueueId → List α} {ps : List α} {p : α} {life : α → Life}
  {limit : Nat}

/-! ## The invariant -/

/-- The current process is neither waiting to run nor blocked. -/
def Holder (life : α → Life) (s : SchedState α) : Prop :=
  ∀ p, s.current = some p → life p ≠ .new ∧ s.state p ≠ .ready ∧ s.state p ≠ .blocked

/-- If the operation went through `schedule` and the idle task is current, no process
of the list is READY. -/
def IdleJustified (ps : List α) (s : SchedState α) : Prop :=
  s.scheduled → ∀ p, s.current = some p → s.idleTask = some p → ∀ x ∈ ps, s.state x ≠ .ready

/-- The invariant of the machine. -/
def Kept (limit : Nat) (life : α → Life) (ps : List α) (s : SchedState α) : Prop :=
  (∃ q, Placed limit life s q ps none) ∧ Holder life s ∧ IdleJustified ps s

/-- The process neither runs nor is going to become READY by itself. -/
def SchedState.dormant (s : SchedState α) (p : α) : Prop :=
  s.state p ≠ .ready ∧ s.state p ≠ .running ∧ ¬ (s.state p = .blocked ∧ s.blockedReason p = .sleep)
deriving Decidable

/-- `schedule` will put the current process into an RT or MLFQ queue. The process
`leaving` is about to be blocked. -/
def SchedState.requeues (s : SchedState α) (leaving : Option α) : Prop :=
  match s.current with
  | none => False
  | some p =>
    leaving ≠ some p ∧ s.state p = .running ∧ s.idleTask ≠ some p ∧ (s.policy p).route = .queue

instance (s : SchedState α) (leaving : Option α) : Decidable (s.requeues leaving) := by
  unfold requeues
  split <;> infer_instance

/-- `schedule` will find a process of an RT or MLFQ queue, unless all processes of the
CFS policy are dormant. -/
def Work (s : SchedState α) (leaving : Option α) : Prop :=
  (∀ p, (s.policy p).route = .cfs → s.dormant p) ∨ s.busy ∨ s.requeues leaving

instance (s : SchedState α) (leaving : Option α) : Decidable (Work s leaving) :=
  inferInstanceAs (Decidable (_ ∨ _))

omit [DecidableEq α] [Fintype α] in
/-- What `Work` depends on. -/
theorem Work.change {leaving leaving' : Option α} (work : Work s leaving)
    (policy : s'.policy = s.policy)
    (dormant : ∀ x, (s.policy x).route = .cfs → s.dormant x → s'.dormant x)
    (busy : s.busy → s'.busy)
    (requeues : ∀ x, s.current = some x → leaving ≠ some x → s.state x = .running →
      s.idleTask ≠ some x → (s.policy x).route = .queue →
      s'.current = some x ∧ leaving' ≠ some x ∧ s'.state x = .running ∧ s'.idleTask ≠ some x) :
    Work s' leaving' := by
  rcases work with still | held | again
  · refine .inl fun x isCfs => ?_
    rw [policy] at isCfs
    exact dormant x isCfs (still x isCfs)
  · exact .inr (.inl (busy held))
  · refine .inr (.inr ?_)
    unfold SchedState.requeues at again ⊢
    cases current : s.current with
    | none => simp [current] at again
    | some x =>
      simp only [current] at again
      obtain ⟨stays, running, notIdle, route⟩ := again
      obtain ⟨current', stays', running', notIdle'⟩ :=
        requeues x current stays running notIdle route
      simp only [current']
      exact ⟨stays', running', notIdle', policy ▸ route⟩

/-! ## `schedule` -/

/-- After the first half of `schedule`, the current process is in its queue. -/
theorem Placed.requeueCurrent_returns (placed : Placed limit life s q ps none)
    (known : ∀ p, s.current = some p → life p ≠ .new) (work : Work s none) :
    Returns (requeueCurrent s) fun s' =>
      s'.current = s.current ∧ ((∀ x, (s'.policy x).route = .cfs → s'.state x ≠ .ready) ∨ s'.busy) ∧
        ∃ q', Placed limit life s' q' ps none := by
  cases current : s.current with
  | none =>
    rw [requeueCurrent, current]
    refine .of_some ⟨current, ?_, q, placed⟩
    rcases work with still | held | again
    · exact .inl fun x isCfs => (still x isCfs).1
    · exact .inr held
    · simp [requeues, current] at again
  | some p =>
    simp only [requeueCurrent, current]
    split
    case isFalse stays =>
      refine .of_some ⟨current, ?_, q, placed⟩
      rcases work with still | held | again
      · exact .inl fun x isCfs => (still x isCfs).1
      · exact .inr held
      · simp only [requeues, current] at again
        exact absurd ⟨again.2.1, again.2.2.1⟩ stays
    case isTrue runs =>
      refine Returns.mono (placed.ready_returns (known p current) runs.2 (by simp [runs.1])
        (by repeat' constructor) ⟨rfl, rfl, rfl⟩ rfl) ?_
      rintro s' ⟨frame, busier, back⟩
      refine ⟨frame.current.trans current, ?_, back⟩
      rcases work with still | held | again
      · refine .inl fun x isCfs => ?_
        rw [frame.policy] at isCfs
        have other : x ≠ p := by
          rintro rfl
          exact (still x isCfs).2.1 runs.1
        rw [frame.state]
        exact (update_of_ne other _ _).trans_ne (still x isCfs).1
      · exact .inr (busier (.inl held))
      · simp only [requeues, current] at again
        exact .inr (busier (.inr again.2.2.2))

omit [Fintype α] in
/-- `pick_next_process` pops the first process of a queue, or finds them all empty. -/
theorem pickFrom_cases (s : SchedState α) (qs : List QueueId) :
    (pickFrom s qs = (s, s.idleTask) ∧ ∀ i ∈ qs, s.head i = none) ∨
      ∃ i p, s.head i = some p ∧ pickFrom s qs = (queueRemove s i p, some p) := by
  induction qs with
  | nil => exact .inl ⟨rfl, by simp⟩
  | cons i qs ih =>
    rw [pickFrom]
    cases head : s.head i with
    | some p => exact .inr ⟨i, p, head, rfl⟩
    | none =>
      rcases ih with ⟨picked, empty⟩ | found
      · exact .inl ⟨picked, by simpa [head] using empty⟩
      · exact .inr found

theorem mem_pickOrder {i : QueueId} : i ∈ pickOrder := by
  rcases i with level | level
  · revert level
    decide
  · revert level
    decide

/-- **`schedule` runs the next process, and the idle task only when nothing is READY.** -/
theorem Placed.schedule_returns (placed : Placed limit life s q ps none)
    (known : ∀ p, s.current = some p → life p ≠ .new) (work : Work s none) :
    Returns (schedule s) (Kept limit life ps) := by
  refine (placed.requeueCurrent_returns known work).map ?_
  rintro s' ⟨current, rest, q', placed'⟩
  rcases pickFrom_cases s' pickOrder with ⟨picked, empty⟩ | ⟨i, p, head, picked⟩
  · -- all queues are empty, so no CFS process is READY either
    simp only [pickNextProcess, picked]
    have nothing : ∀ i x, x ∉ q' i := by
      intro i x member
      have held := (placed'.queues.lists i).head_eq.symm.trans (empty i mem_pickOrder)
      rw [List.head?_eq_none_iff] at held
      simp [held] at member
    have still : ∀ x, (s'.policy x).route = .cfs → s'.state x ≠ .ready := by
      rcases rest with still | busy
      · exact still
      · obtain ⟨i, held⟩ := placed'.queues.busy_iff.mp busy
        obtain ⟨x, member⟩ := exists_mem_of_ne_nil _ held
        exact absurd member (nothing i x)
    have outside : ∀ x, Placed limit life s' q' ps (some x) := fun x =>
      placed'.exclude (fun i => nothing i x) fun waiting => still x waiting.2 waiting.1
    cases idle : s'.idleTask with
    | some p =>
      obtain ⟨unlisted, -⟩ := placed'.idle p idle
      have isKnown : life p ≠ .new := by simp [unlisted]
      refine ⟨⟨q', (outside p).leaves isKnown (by repeat' constructor) ⟨rfl, rfl, rfl⟩ rfl
        (by decide)⟩, ?_, ?_⟩
      · intro x isCurrent
        cases isCurrent
        simp [switchTo, setState, isKnown]
      · intro _ x _ _ y listed ready
        have other : y ≠ p := by
          rintro rfl
          have := (placed'.listed y).mp listed
          simp [unlisted] at this
        rw [switchTo, setState] at ready
        simp only [update_of_ne other] at ready
        cases route : (s'.policy y).route with
        | queue => exact nothing _ y (placed'.covered y listed (by simp) ready route)
        | cfs => exact still y route ready
        | deadline => exact placed'.cfs.noDeadline y route
    | none =>
      cases previous : s.current with
      | none =>
        refine ⟨⟨q', placed'.congr (by repeat' constructor) fun _ => ⟨rfl, rfl, rfl, rfl⟩⟩, ?_, ?_⟩
        · intro x isCurrent
          simp [switchTo, current, previous] at isCurrent
        · intro _ x _ isIdle
          simp [switchTo, idle] at isIdle
      | some p =>
        have isKnown := known p previous
        refine ⟨⟨q', (outside p).leaves isKnown (by repeat' constructor) ⟨rfl, rfl, rfl⟩ rfl
          (by decide)⟩, ?_, ?_⟩
        · intro x isCurrent
          cases isCurrent
          simp [switchTo, setState, isKnown]
        · intro _ x _ isIdle
          simp [switchTo, setState, idle] at isIdle
  · simp only [pickNextProcess, picked]
    have member : p ∈ q' i := mem_of_head? ((placed'.queues.lists i).head_eq ▸ head)
    obtain ⟨-, route, rfl⟩ := placed'.queues.home i p member
    have isKnown : life p ≠ .new := fun isNew => (placed'.fresh p isNew).1 _ member
    have taken := placed'.take (p := p) fun waiting => by simp [waiting.2] at route
    refine ⟨⟨_, taken.leaves isKnown (by repeat' constructor) ⟨rfl, rfl, rfl⟩ rfl (by decide)⟩, ?_,
      ?_⟩
    · intro x isCurrent
      cases isCurrent
      simp [switchTo, setState, isKnown]
    · intro _ x isCurrent isIdle
      cases isCurrent
      have idle : s'.idleTask = some p := (frame_queueRemove s' _ p).idleTask.symm.trans isIdle
      exact absurd member ((placed'.idle p idle).2.2 _)

/-! ## Walks over the process list -/

omit [DecidableEq α] [Fintype α] in
/-- What the body of a walk keeps, the walk keeps. -/
theorem forEachProcess_returns {change : SchedState α → α → Option (SchedState α)}
    {P : SchedState α → Prop} {next : α → Option α} (links : ∀ s, P s → s.next = next)
    (body : ∀ s p, p ∈ ps → P s → Returns (change s p) P) {rest : List α} {fuel : Nat}
    {start : Option α} (seg : Seg next start rest none) (inList : ∀ p ∈ rest, p ∈ ps)
    (enough : rest.length < fuel) (holds : P s) :
    Returns (forEachProcess change fuel start s) P := by
  induction rest generalizing fuel start s with
  | nil =>
    obtain ⟨fuel, rfl⟩ := exists_eq_add_one_of_ne_zero (ne_of_gt enough)
    rw [seg_nil.mp seg]
    exact .of_some holds
  | cons a rest ih =>
    obtain ⟨fuel, rfl⟩ := exists_eq_add_one_of_ne_zero (ne_of_gt (zero_lt_of_lt enough))
    obtain ⟨rfl, tail⟩ := seg_cons.mp seg
    refine (body s a (inList a mem_cons_self) holds).bind fun s' holds' => ?_
    rw [links s' holds']
    exact ih tail (forall_mem_cons.mp inList).2 (lt_of_succ_lt_succ enough) holds'

/-- What holds between the parts of an operation that started in `s₀`. -/
structure Midway (limit : Nat) (life : α → Life) (ps : List α) (s₀ s : SchedState α) : Prop where
  placed : ∃ q, Placed limit life s q ps none
  holder : Holder life s
  work : Work s₀ none → Work s none
  next : s.next = s₀.next
  scheduled : s.scheduled = s₀.scheduled

variable {s₀ : SchedState α}

section

variable (midway : Midway limit life ps s₀ s)
include midway

/-- Nothing of the invariant depends on the fields that differ. -/
theorem Midway.congr (keeps : Keeps s s') (same : ∀ x, SameProcess s s' x)
    (reason : s'.blockedReason = s.blockedReason) (current : s'.current = s.current)
    (scheduled : s'.scheduled = s.scheduled) : Midway limit life ps s₀ s' := by
  obtain ⟨q, placed⟩ := midway.placed
  constructor
  case placed => exact ⟨q, placed.congr keeps same⟩
  case holder =>
    intro x isCurrent
    rw [(same x).state]
    exact midway.holder x (current ▸ isCurrent)
  case work =>
    intro before
    refine (midway.work before).change (funext fun x => (same x).policy) (fun x _ still => ?_)
      keeps.busy_iff.mpr fun x isCurrent stays running notIdle _ => ?_
    · rw [dormant, (same x).state, reason]
      exact still
    · exact ⟨current.trans isCurrent, stays, (same x).state.trans running, keeps.idleTask ▸ notIdle⟩
  case next => exact keeps.next.trans midway.next
  case scheduled => exact scheduled.trans midway.scheduled

theorem Midway.walk {change : SchedState α → α → Option (SchedState α)}
    (body : ∀ s p, p ∈ ps → Midway limit life ps s₀ s → Returns (change s p) (Midway limit life ps s₀)) :
    Returns (forEachProcess change (walkLimit α) s.processList s) (Midway limit life ps s₀) := by
  obtain ⟨q, placed⟩ := midway.placed
  have seg := placed.list.forward
  rw [midway.next] at seg
  exact forEachProcess_returns (fun s still => still.next) body seg (fun _ member => member)
    (lt_succ_of_le placed.list.nodup.length_le_card) midway

/-- A blocked process of the list becomes READY and is queued. -/
theorem Midway.wake (listed : p ∈ ps) : Returns (wakeIfDue s p) (Midway limit life ps s₀) := by
  obtain ⟨q, placed⟩ := midway.placed
  unfold wakeIfDue
  split
  case isFalse => exact .of_some midway
  case isTrue due =>
    obtain ⟨blocked, sleeps, -⟩ := due
    have isListed := (placed.listed p).mp listed
    have known : life p ≠ .new := by simp [isListed]
    have notIdle : s.idleTask ≠ some p := placed.notIdle (by simp [isListed])
    have notCurrent : ∀ x, s.current = some x → x ≠ p := by
      rintro x isCurrent rfl
      exact (midway.holder x isCurrent).2.2 blocked
    refine Returns.mono (placed.ready_returns known notIdle (by simp [blocked])
      (by repeat' constructor) ⟨rfl, rfl, rfl⟩ rfl) ?_
    rintro s' ⟨frame, busier, back⟩
    have same : ∀ x ≠ p, s'.state x = s.state x ∧ s'.blockedReason x = s.blockedReason x := by
      intro x other
      rw [frame.state, frame.blockedReason]
      exact ⟨update_of_ne other _ _, update_of_ne other _ _⟩
    constructor
    case placed => exact back
    case holder =>
      intro x isCurrent
      rw [frame.current] at isCurrent
      rw [(same x (notCurrent x isCurrent)).1]
      exact midway.holder x isCurrent
    case work =>
      intro before
      refine (midway.work before).change frame.policy (fun x _ still => ?_)
        (fun held => busier (.inl held)) fun x isCurrent stays running notIdle _ => ?_
      · have other : x ≠ p := by
          rintro rfl
          exact still.2.2 ⟨blocked, sleeps⟩
        rw [dormant, (same x other).1, (same x other).2]
        exact still
      · exact ⟨frame.current.trans isCurrent, stays,
          (same x (notCurrent x isCurrent)).1.trans running, frame.idleTask ▸ notIdle⟩
    case next => exact frame.next.trans midway.next
    case scheduled => exact frame.scheduled.trans midway.scheduled

/-- The current process's fields change, and it is in no queue. -/
theorem Midway.level {level : Nat} (small : level < 8)
    (known : life p ≠ .new) (notReady : s.state p ≠ .ready) :
    Midway limit life ps s₀ { s with queueLevel := update s.queueLevel p level } := by
  obtain ⟨q, placed⟩ := midway.placed
  refine ⟨⟨q, ?_⟩, midway.holder, midway.work, midway.next, midway.scheduled⟩
  refine Placed.settle_of_not_ready ?_ notReady
  refine (placed.exclude_of_not_ready notReady).change known (by repeat' constructor)
    (fun x other => ?_)
    (placed.admits ?_ rfl)
  · exact ⟨rfl, rfl, rfl, update_of_ne other _ _⟩
  · simpa using small

/-- A NORMAL process of the list is moved to the top queue. -/
theorem Midway.boost (listed : p ∈ ps) : Returns (Sched.boost s p) (Midway limit life ps s₀) := by
  obtain ⟨q, placed⟩ := midway.placed
  have isListed := (placed.listed p).mp listed
  have known : life p ≠ .new := by simp [isListed]
  unfold Sched.boost
  split
  case isFalse => exact .of_some midway
  case isTrue sunk =>
    split
    case isFalse notReady => exact .of_some (midway.level (by decide) known notReady)
    case isTrue ready =>
      obtain ⟨notRt, notCfs, notDl⟩ := placed.queues.clean p sunk.1
      have route : (s.policy p).route = .queue := by simp [Policy.route, notRt, notCfs, notDl]
      have selected : s.selected p = mlfqClamped (s.queueLevel p) := by
        simp [selected, notRt]
      have notIdle : s.idleTask ≠ some p := placed.notIdle (by simp [isListed])
      have frame := frame_queueRemove s (s.selected p) p
      have taken := placed.take (p := p) fun waiting => by simp [waiting.2] at route
      rw [mlfqAt_of_lt (placed.queues.level p), ← selected]
      let lifted : SchedState α :=
        { queueRemove s (s.selected p) p with
          queueLevel := update (queueRemove s (s.selected p) p).queueLevel p 0 }
      have outside : Placed limit life lifted (leave q (s.selected p) p) ps (some p) := by
        refine taken.change known (by repeat' constructor) (fun x other => ?_) (taken.admits ?_ rfl)
        · exact ⟨rfl, rfl, rfl, update_of_ne other _ _⟩
        · simp [lifted]
      have adds : Sched.addToQueue lifted p = some (queueAdd lifted (.mlfq 0) p) := by
        simp [Sched.addToQueue, lifted, frame.policy, notRt, notCfs, notDl, mlfqClamped]
      have added := outside.addToQueue_returns known (frame.idleTask ▸ notIdle)
        ((congrFun frame.state p).trans ready)
      rw [adds] at added
      refine added.mono ?_
      rintro s' ⟨frame', busier, back⟩
      constructor
      case placed => exact back
      case holder =>
        intro x isCurrent
        rw [frame'.state, show lifted.state = s.state from frame.state]
        rw [frame'.current, show lifted.current = s.current from frame.current] at isCurrent
        exact midway.holder x isCurrent
      case work =>
        refine fun _ => .inr (.inl (busier (.inr ?_)))
        exact (congrArg Policy.route (congrFun frame.policy p)).trans route
      case next => exact frame'.next.trans (frame.next.trans midway.next)
      case scheduled => exact frame'.scheduled.trans (frame.scheduled.trans midway.scheduled)

end

/-! ## `sched_tick` -/

theorem Kept.midway (kept : Kept limit life ps s) : Midway limit life ps s s :=
  ⟨kept.1, kept.2.1, id, rfl, rfl⟩

section

variable (midway : Midway limit life ps s₀ s)
include midway

/-- An operation that has not called `schedule` ends. -/
theorem Midway.kept (unscheduled : s₀.scheduled = false) : Kept limit life ps s := by
  refine ⟨midway.placed, midway.holder, fun scheduled => ?_⟩
  rw [midway.scheduled, unscheduled] at scheduled
  cases scheduled

/-- An operation ends with `schedule`. -/
theorem Midway.schedule_returns (work : Work s₀ none) :
    Returns (schedule s) (Kept limit life ps) := by
  obtain ⟨q, placed⟩ := midway.placed
  exact placed.schedule_returns (fun x isCurrent => (midway.holder x isCurrent).1)
    (midway.work work)

theorem Midway.tickRunning_returns (isCurrent : s.current = some p) (work : Work s₀ none)
    (unscheduled : s₀.scheduled = false) : Returns (tickRunning s p) (Kept limit life ps) := by
  obtain ⟨known, notReady, -⟩ := midway.holder p isCurrent
  unfold tickRunning
  split_ifs with isIdle isNormal usedUp above isRt usedUp'
  · exact midway.schedule_returns work
  · exact (midway.level (succ_lt_succ above) known notReady).schedule_returns work
  · exact midway.schedule_returns work
  · exact .of_some (midway.kept unscheduled)
  · exact midway.schedule_returns work
  · exact .of_some (midway.kept unscheduled)
  · exact .of_some (midway.kept unscheduled)

/-- `sched_wakeup_sleepers` keeps every process in its place. -/
theorem Midway.wakeup_returns : Returns (schedWakeupSleepers s) (Midway limit life ps s₀) :=
  midway.walk fun _ _ listed still => still.wake listed

theorem Midway.tickStart_returns : Returns (tickStart s) (Midway limit life ps s₀) := by
  have counted : Midway limit life ps s₀ { s with tickCount := (s.tickCount + 1) % wordLimit64 } :=
    midway.congr (by repeat' constructor) (fun _ => ⟨rfl, rfl, rfl, rfl⟩) rfl rfl rfl
  refine counted.wakeup_returns.bind fun woken still => ?_
  split
  · exact still.walk fun _ _ listed running => running.boost listed
  · exact .of_some still

end

/-- **`sched_tick` keeps the invariant.** -/
theorem Kept.tick_returns (kept : Kept limit life ps s) (work : Work s none)
    (unscheduled : s.scheduled = false) : Returns (schedTick s) (Kept limit life ps) := by
  refine kept.midway.tickStart_returns.bind fun started midway => ?_
  cases current : started.current with
  | none => exact midway.schedule_returns work
  | some p =>
    have accounted : Midway limit life ps s (tickAccount started p) :=
      midway.congr (by repeat' constructor) (fun _ => ⟨rfl, rfl, rfl, rfl⟩) rfl rfl rfl
    exact accounted.tickRunning_returns current work unscheduled

end FunsOS.Sched
