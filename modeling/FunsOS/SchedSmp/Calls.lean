import FunsOS.SchedSmp.Trees

/-!
# What the calls of the SMP scheduler do

For each call that changes a tree: where the trees of the CPUs are apart and the call takes no
task with two children out of one, it returns, the trees are still apart, and its result is the
state before with a task enqueued (`Admitted`), dequeued (`Retired`), or both.

`wakeup` counts a task that is already on a queue again without enqueueing it; `exit` takes a task
that is on no queue off `nr_running`. Both are cases of their own here.
-/

set_option autoImplicit false

namespace FunsOS.SchedSmp

open Foundation SchedCfs Smp
open Function (update update_of_ne update_self)

variable {s : Smp} {c lightest busiest : Cpu} {t : Task} {pid : Nat}

section

variable (trees : TreesApart s)
include trees

/-- `smp_sched_create_task` fills a free slot and enqueues it, or there is none. -/
theorem TreesApart.createTask (nice cpu : Int) :
    Returns (s.createTask nice cpu) fun result =>
      result = (none, s) ∨
      ∃ t timeSlice s', s.freeSlot = some t ∧
        result = (some t, { s' with nrTasks := s'.nrTasks + 1 }) ∧ TreesApart s' ∧
        Admitted (s.newTask t nice ((s.cpuOf cpu).getD 0) timeSlice) ((s.cpuOf cpu).getD 0) t s' := by
  cases free : s.freeSlot with
  | none => exact ⟨(none, s), by simp only [Smp.createTask, free], .inl rfl⟩
  | some t =>
    have off := trees.off_of_pid (pid_of_freeSlot free)
    have cleared : ∀ timeSlice,
        TreesApart (s.newTask t nice ((s.cpuOf cpu).getD 0) timeSlice) := fun timeSlice =>
      trees.except off (sameExcept_newTask off nice _ timeSlice)
    obtain ⟨timeSlice, computed, -⟩ := (cleared 0).calcTimeslice ((s.cpuOf cpu).getD 0)
    obtain ⟨s', admits, trees', admitted⟩ := (cleared timeSlice).enlist
      (t := t) (c := (s.cpuOf cpu).getD 0) (by simp [newTask]) (by simp [newTask])
      (by simp [newTask])
    refine ⟨_, ?_, .inr ⟨t, timeSlice, s', rfl, rfl, trees', admitted⟩⟩
    simp only [Smp.createTask, free, computed, admits, Option.bind_eq_bind, Option.bind_some]

/-- A task that is already on a queue is counted again and not enqueued. -/
theorem TreesApart.enlist_of_on (on : s.onRq t) :
    Returns (s.enlist c t) fun s' => TreesApart s' ∧ SameTasks s s' ∧ s'.onRq = s.onRq := by
  obtain ⟨tree, planted⟩ := trees
  have refused : cfsRqEnqueue (s.cfsRq c) t = some (s.cfsRq c) := if_pos on
  refine ⟨(s.setCfsRq c { s.cfsRq c with nrRunning := int32 (s.cfsRq c).nrRunning }).countIn c
      (s.weight t), by rw [Smp.enlist, enqueueOn, refused]; rfl, ⟨tree, planted.congr (fun d => ?_) rfl
    fun a isOn => ⟨rfl, fun _ => rfl, rfl, planted.live a isOn⟩⟩,
    ⟨rfl, rfl, rfl, fun d => ?_, fun d => ?_⟩, rfl⟩
  all_goals
    by_cases isCpu : d = c
    · subst isCpu
      simp [countIn, setQueue, setCfsRq, cfsRq]
    · simp [countIn, setQueue, setCfsRq, isCpu]

/-- `smp_sched_wakeup` of a task that is on a queue, or that is live and wakes on its own CPU. -/
theorem TreesApart.wakeup
    (careful : ∀ t, taskOf pid = some t → s.state t ≠ .running → s.state t ≠ .ready →
      s.onRq t ∨ (s.pid t ≠ 0 ∧ s.wakeupTarget t = s.cpu t)) :
    Returns (s.wakeup pid) fun result =>
      result.2 = s ∨
      ∃ t, taskOf pid = some t ∧ s.state t ≠ .running ∧ s.state t ≠ .ready ∧ TreesApart result.2 ∧
        ((s.onRq t ∧ SameTasks s result.2) ∨
          (s.onRq t = false ∧ Admitted s (s.cpu t) t result.2)) := by
  cases isTask : taskOf pid with
  | none => exact ⟨(-1, s), by simp only [Smp.wakeup, isTask], .inl rfl⟩
  | some t =>
    by_cases awake : s.state t = .running ∨ s.state t = .ready
    · exact ⟨(0, s), by simp only [Smp.wakeup, isTask, if_pos awake], .inl rfl⟩
    obtain ⟨notRunning, notReady⟩ := not_or.mp awake
    -- the state in which the task is enqueued
    obtain ⟨woken, isWoken⟩ : ∃ woken : Smp, woken = { s with
        state := update s.state t .ready
        vruntime := update s.vruntime t (s.queue (s.wakeupTarget t)).minVruntime } := ⟨_, rfl⟩
    have wakes : s.wakeup pid = (woken.enlist (s.wakeupTarget t) t).map fun s => (0, s) := by
      simp only [Smp.wakeup, isTask, if_neg awake, isWoken]
    have same : SameBooks s woken := by
      subst isWoken
      exact ⟨rfl, rfl, rfl, rfl, rfl, rfl, fun _ => rfl⟩
    have queues : woken.queue = s.queue := by rw [isWoken]
    have trees' := trees.congr same
    rw [wakes]
    cases queued : s.onRq t with
    | true =>
      have on : woken.onRq t := by rw [same.onRq, queued]
      refine (trees'.enlist_of_on on).map fun s' kept => .inr ⟨t, rfl, notRunning, notReady,
        kept.1, .inl ⟨queued, kept.2.1.before same queues⟩⟩
    | false =>
      obtain on | ⟨live, target⟩ := careful t isTask notRunning notReady
      · exact absurd on (by simp [queued])
      have off : woken.onRq t = false := by rw [same.onRq, queued]
      rw [target]
      refine (trees'.enlist off (by rwa [same.pid]) (by rw [same.cpu])).map fun s' kept =>
        .inr ⟨t, rfl, notRunning, notReady, kept.1, .inr ⟨queued, kept.2.before same queues⟩⟩

theorem TreesApart.sleep {wakeupTime : Nat}
    (careful : ∀ t, taskOf pid = some t → s.onRq t → AtMostOneChild s t) :
    Returns (s.sleep pid wakeupTime) fun result =>
      result.2 = s ∨
      ∃ t s' state, taskOf pid = some t ∧ s.onRq t ∧ TreesApart s' ∧
        Retired s (s.cpu t) t s' ∧ result.2 = { s' with state } := by
  cases isTask : taskOf pid with
  | none => exact ⟨(-1, s), by simp only [Smp.sleep, isTask], .inl rfl⟩
  | some t =>
    by_cases off : s.onRq t = false
    · exact ⟨(0, s), by simp only [Smp.sleep, isTask, if_pos off], .inl rfl⟩
    have on : s.onRq t := by simpa using off
    simp only [Smp.sleep, isTask, if_neg off]
    exact (trees.retire on rfl (careful t isTask on)).map fun s' kept =>
      .inr ⟨t, s', _, rfl, on, kept.1, kept.2, rfl⟩

theorem TreesApart.exit (careful : ∀ t, taskOf pid = some t → s.onRq t → AtMostOneChild s t) :
    Returns (s.exit pid) fun result =>
      result.2 = s ∨
      ∃ t s' state nrTasks, taskOf pid = some t ∧ TreesApart s' ∧
        ((s.onRq t ∧ Retired s (s.cpu t) t s') ∨
          (s.onRq t = false ∧ s' = s.countTaskOut (s.cpu t))) ∧
        result.2 = { s' with
          state, pid := update s'.pid t 0, nrTasks } := by
  cases isTask : taskOf pid with
  | none => exact ⟨(-1, s), by simp only [Smp.exit, isTask], .inl rfl⟩
  | some t =>
    simp only [Smp.exit, isTask]
    cases queued : s.onRq t with
    | true =>
      exact (trees.retire queued rfl (careful t isTask queued)).map fun s' kept =>
        .inr ⟨t, s', _, _, rfl, kept.1, .inl ⟨queued, kept.2⟩, rfl⟩
    | false =>
      obtain ⟨tree, planted⟩ := trees
      exact ⟨_, rfl, .inr ⟨t, s.countTaskOut (s.cpu t), _, _, rfl, ⟨tree,
        planted.congr (setQueue_keeps rfl) rfl fun a isOn =>
          ⟨rfl, fun _ => rfl, rfl, planted.live a isOn⟩⟩, .inr ⟨queued, rfl⟩, rfl⟩⟩

end

/-! ## Load balancing -/

theorem busiest_ne_lightest (pair : s.balancePair = some (busiest, lightest)) :
    busiest ≠ lightest := by
  unfold balancePair at pair
  split at pair
  · cases pair
  split at pair
  · split at pair
    · cases pair
    next apart =>
    split at pair
    · cases pair
    · cases pair
      exact apart
  · cases pair

/-- `smp_sched_load_balance` moves no task, or one from a CPU to another. -/
theorem loadBalance_cases : s.loadBalance = some (0, s) ∨
    ∃ busiest lightest t, s.balancePair = some (busiest, lightest) ∧
      s.balanceTask busiest lightest = some t ∧ busiest ≠ lightest ∧ s.pid t ≠ 0 ∧
      s.cpu t = busiest ∧
      s.loadBalance = (s.migrate busiest lightest t).map fun s => (1, s) := by
  rw [loadBalance]
  cases pair : s.balancePair with
  | none => exact .inl rfl
  | some found =>
    obtain ⟨busiest, lightest⟩ := found
    cases task : s.balanceTask busiest lightest with
    | none => exact .inl (by simp only [task])
    | some t =>
      have accepted := List.find?_some task
      simp only [decide_eq_true_eq] at accepted
      refine .inr ⟨busiest, lightest, t, rfl, task, ?_, accepted.1, accepted.2.1,
        by simp only [task]⟩
      exact busiest_ne_lightest pair

/-- Moving a task with at most one child: it is dequeued on the one CPU and enqueued on the
other. -/
theorem TreesApart.migrate (trees : TreesApart s) (live : s.pid t ≠ 0) (on : s.onRq t)
    (isCpu : s.cpu t = busiest) (single : AtMostOneChild s t) :
    Returns (s.migrate busiest lightest t) fun s' => TreesApart s' ∧
      ∃ first vruntime, Retired s busiest t first ∧
        Admitted { first with
          cpu := update first.cpu t lightest, vruntime } lightest t s' := by
  refine (trees.retire on isCpu single).bind fun first kept => ?_
  obtain ⟨firstTrees, retired⟩ := kept
  have off : first.onRq t = false := by rw [retired.onRq, update_self]
  have moved : ∀ vruntime, TreesApart { first with
      cpu := update first.cpu t lightest, vruntime } := fun vruntime =>
    firstTrees.except off ⟨fun _ _ => rfl, fun a isOther => update_of_ne isOther _ _,
      fun _ _ => rfl, rfl, fun _ _ _ => rfl, fun _ _ => rfl, fun _ => rfl⟩
  have stillLive : first.pid t ≠ 0 := by rwa [retired.pid]
  refine ((moved _).enlist off stillLive (update_self _ _ _)).mono fun s' result => ?_
  exact ⟨result.1, first, _, retired, result.2⟩

/-!
## What a clock tick keeps

`smp_sched_run_tick` accounts for the current task, may replace it by another, which wakes it, and
may balance the load. What it keeps follows from what a wakeup, a change of the current task and a
load balance keep: `TickRules` collects these facts about an invariant, and `TickRules.runTick`
draws the conclusion. The conditions under which a wakeup and a load balance keep the invariant
become a condition on the tick (`Ticks`).
-/

variable {s' : Smp} {delta : Nat} {current : Task}

/-! ## The condition -/

section

variable (Wakes : Smp → Nat → Prop) (Balances : Smp → Prop)

/-- When the time slice of the current task is used up and another task takes its place, the
wakeup of the current one meets its condition. -/
def Preempts (s : Smp) (c : Cpu) : Prop :=
  ∀ current ∈ (s.queue c).currentTask, s.timeSlice current = 0 →
    ∀ picked ∈ s.pickNext c, ∀ next ∈ picked, next ≠ current → Wakes s (s.pid current)

/-- The wakeup that a tick makes meets its condition, and so does the load balance, in the state
it is made in. -/
def Ticks (s : Smp) (cpu : Int) (delta : Nat) : Prop :=
  ∀ c ∈ s.cpuOf cpu, Preempts Wakes s c ∧
    ∀ s' ∈ s.tick c delta, ((s'.balanceClock c delta).queue c).lastBalance ≥ 1000000 →
      Balances ((s'.balanceClock c delta).balanceStart c)

instance [∀ s pid, Decidable (Wakes s pid)] (s : Smp) (c : Cpu) : Decidable (Preempts Wakes s c) :=
  inferInstanceAs (Decidable (∀ current ∈ (s.queue c).currentTask, _ →
    ∀ picked ∈ s.pickNext c, ∀ next ∈ picked, _))

instance [∀ s pid, Decidable (Wakes s pid)] [∀ s, Decidable (Balances s)] (s : Smp) (cpu : Int)
    (delta : Nat) : Decidable (Ticks Wakes Balances s cpu delta) :=
  inferInstanceAs (Decidable (∀ c ∈ s.cpuOf cpu, _ ∧ ∀ s' ∈ s.tick c delta, _))

end

/-! ## The rules -/

/-- Two states with the same tasks in the same places, the same counters, and the same current
and idle tasks. -/
structure Quiet (s s' : Smp) : Prop extends SameBooks s s' where
  currentTask : ∀ d, (s'.queue d).currentTask = (s.queue d).currentTask
  idleTask : ∀ d, (s'.queue d).idleTask = (s.queue d).idleTask

/-- The states look the same to a wakeup, too. -/
structure SameView (s s' : Smp) : Prop extends Quiet s s' where
  state : s'.state = s.state
  cpumask : s'.cpumask = s.cpumask
  nrCpus : s'.nrCpus = s.nrCpus
  active : ∀ d, (s'.queue d).active = (s.queue d).active

theorem SameView.wakeupTarget (same : SameView s s') : s'.wakeupTarget t = s.wakeupTarget t := by
  simp only [Smp.wakeupTarget, same.cpu, same.cpumask, same.nrCpus, same.active]

theorem quiet_setQueue {q : Queue} (books : q.books = (s.queue c).books)
    (currentTask : q.currentTask = (s.queue c).currentTask)
    (idleTask : q.idleTask = (s.queue c).idleTask) : Quiet s (s.setQueue c q) :=
  ⟨sameBooks_setQueue books, setQueue_keeps currentTask, setQueue_keeps idleTask⟩

theorem quiet_state (state : Task → TaskState) : Quiet s { s with state } :=
  ⟨sameBooks_state, fun _ => rfl, fun _ => rfl⟩

/-- Accounting for a task moves clocks and its `vruntime` only. -/
theorem sameView_account (s : Smp) (c : Cpu) (current : Task) (delta : Nat) :
    SameView s (s.setCfsRq c (cfsRqAccount (s.cfsRq c) current delta)) := by
  refine ⟨⟨⟨rfl, rfl, rfl, rfl, rfl, rfl, fun d => ?_⟩, fun d => ?_, fun d => ?_⟩, rfl, rfl, rfl,
    fun d => ?_⟩
  all_goals
    by_cases isCpu : d = c
    · subst isCpu
      simp [setCfsRq, cfsRqAccount, cfsRq, Queue.books]
    · simp [setCfsRq, isCpu]

theorem pickNext_account :
    (s.setCfsRq c (cfsRqAccount (s.cfsRq c) current delta)).pickNext c = s.pickNext c := by
  simp [Smp.pickNext, setCfsRq, cfsRq, cfsRqAccount, cfsRqPickNext]

/-- What the parts of a tick do to an invariant `P`. A task with `Pickable` can be made the
current one. -/
structure TickRules (P : Smp → Prop) (Pickable : Smp → Cpu → Task → Prop)
    (Wakes : Smp → Nat → Prop) (Balances : Smp → Prop) : Prop where
  trees : ∀ {s}, P s → TreesApart s
  quiet : ∀ {s s'}, P s → Quiet s s' → P s'
  pickable : ∀ {s c t}, P s → (s.onRq t ∧ s.cpu t = c) ∨ (s.queue c).idleTask = some t →
    Pickable s c t
  stays : ∀ {s s' c t}, Pickable s c t → s'.pid = s.pid → s'.cpu = s.cpu → Pickable s' c t
  picked : ∀ {s c t}, P s → Pickable s c t → P (s.setCurrent c t)
  wakes : ∀ {s pid}, P s → Wakes s pid → Returns (s.wakeup pid) fun result =>
    P result.2 ∧ result.2.pid = s.pid ∧ result.2.cpu = s.cpu
  same : ∀ {s s' pid}, Wakes s pid → SameView s s' → Wakes s' pid
  balances : ∀ {s}, P s → Balances s → Returns s.loadBalance fun result => P result.2

namespace TickRules

variable {P : Smp → Prop} {Pickable : Smp → Cpu → Task → Prop} {Wakes : Smp → Nat → Prop}
  {Balances : Smp → Prop}

section

variable (rules : TickRules P Pickable Wakes Balances) (holds : P s)
include rules holds

theorem preempt
    (careful : ∀ picked ∈ s.pickNext c, ∀ next ∈ picked, next ≠ current → Wakes s (s.pid current)) :
    Returns (s.preempt c current) P := by
  refine ((rules.trees holds).calcTimeslice c).bind fun timeSlice _ => ?_
  have renewed : SameView s { s with
      timeSlice := Function.update s.timeSlice current timeSlice } :=
    ⟨⟨⟨rfl, rfl, rfl, rfl, rfl, rfl, fun _ => rfl⟩, fun _ => rfl, fun _ => rfl⟩, rfl, rfl, rfl,
      fun _ => rfl⟩
  have holds' := rules.quiet holds renewed.toQuiet
  obtain ⟨picked, isPicked, fromQueue⟩ := (rules.trees holds').pickNext
  dsimp only
  rw [isPicked]
  cases picked with
  | none => exact .of_some holds'
  | some next =>
    show Returns (if next = current then _ else _) P
    split
    · exact .of_some holds'
    next isOther =>
    have wakes : Wakes s (s.pid current) := careful (some next) isPicked next rfl isOther
    have pickable := rules.pickable holds' (fromQueue next rfl)
    refine (rules.wakes holds' (rules.same wakes renewed)).bind fun result woken => ?_
    obtain ⟨kept, pid, cpu⟩ := woken
    have ready := rules.quiet kept (quiet_state (Function.update result.2.state current .ready))
    exact .of_some (rules.picked ready (rules.stays pickable pid cpu))

theorem tick (careful : Preempts Wakes s c) : Returns (s.tick c delta) P := by
  cases isCurrent : (s.queue c).currentTask with
  | none =>
    simp only [Smp.tick, isCurrent]
    refine ((rules.trees holds).pickNext).map fun picked fromQueue => ?_
    cases picked with
    | none => exact rules.quiet holds (quiet_setQueue rfl isCurrent.symm rfl)
    | some t => exact rules.picked holds (rules.pickable holds (fromQueue t rfl))
  | some current =>
    simp only [Smp.tick, isCurrent]
    have accounts := sameView_account s c current delta
    have holds' := rules.quiet holds accounts.toQuiet
    split
    · next expired =>
        refine rules.preempt holds' fun picked isPicked next isNext isOther => ?_
        rw [pickNext_account] at isPicked
        exact rules.same (careful current isCurrent expired picked isPicked next isNext isOther)
          accounts
    · exact .of_some holds'

theorem setAffinity {cpumask : UInt32} : P (s.setAffinity pid cpumask).2 := by
  cases isTask : taskOf pid with
  | none =>
    simp only [Smp.setAffinity, isTask]
    exact holds
  | some t =>
    simp only [Smp.setAffinity, isTask]
    exact rules.quiet holds
      ⟨⟨rfl, rfl, rfl, rfl, rfl, rfl, fun _ => rfl⟩, fun _ => rfl, fun _ => rfl⟩

/-- **What a tick keeps.** -/
theorem runTick {cpu : Int} (careful : Ticks Wakes Balances s cpu delta) :
    Returns (s.runTick cpu delta) fun result => P result.2 := by
  cases isCpu : s.cpuOf cpu with
  | none => exact ⟨(-1, s), by simp only [Smp.runTick, isCpu], holds⟩
  | some c =>
    simp only [Smp.runTick, isCpu]
    obtain ⟨preempts, balances⟩ := careful c isCpu
    obtain ⟨s', ticked, kept⟩ := rules.tick holds preempts
    have clocked : P (s'.balanceClock c delta) := rules.quiet kept (quiet_setQueue rfl rfl rfl)
    have balanced : Returns ((s'.balanceClock c delta).balanceIfDue c) P := by
      rw [balanceIfDue]
      split
      · next due =>
          have started : P ((s'.balanceClock c delta).balanceStart c) :=
            rules.quiet clocked (quiet_setQueue rfl rfl rfl)
          exact (rules.balances started (balances s' ticked due)).map fun _ kept => kept
      · exact .of_some clocked
    rw [ticked]
    exact balanced.bind fun last kept => .of_some kept

end

end TickRules

end FunsOS.SchedSmp
