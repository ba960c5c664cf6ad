import FunsOS.SchedSmp.Calls

/-!
# The current tasks of the CPUs

A CPU's current task is live, and it is current on no other CPU (`RunsOnce`), as long as

* no task exits, or is moved to another CPU, that is the current or the idle task of a CPU;
* a task is woken only on the CPU it belongs to, and while it is live, or while it is on a queue;
* a task with two children in its tree is not dequeued.

`runs_once_of_careful` says so for every run. The invariant is that the current task and the idle
task of a CPU belong to it (`AtHome`). A CPU picks its next task from its own tree, so it keeps to
the tasks that belong to it.
-/

set_option autoImplicit false

namespace FunsOS.SchedSmp

open Foundation Smp
open Function (update update_eq_self update_idem update_of_ne update_self)

variable {s s' : Smp} {c : Cpu} {t : Task} {pid : Nat} {nice cpu : Int}

/-! ## The property -/

/-- Every current task is live, and current on one CPU only. -/
structure RunsOnce (s : Smp) : Prop where
  live : ∀ c t, (s.queue c).currentTask = some t → s.pid t ≠ 0
  once : ∀ c d t, (s.queue c).currentTask = some t → (s.queue d).currentTask = some t → c = d

/-! ## The condition -/

def Held (s : Smp) (t : Task) : Prop :=
  ∃ c, (s.queue c).currentTask = some t ∨ (s.queue c).idleTask = some t
deriving Decidable

/-- A task that is woken is on a queue already, or is live and wakes on its own CPU. -/
def WakesAtHome (s : Smp) (pid : Nat) : Prop :=
  ∀ t ∈ taskOf pid, s.state t ≠ .running → s.state t ≠ .ready →
    s.onRq t ∨ (s.pid t ≠ 0 ∧ s.wakeupTarget t = s.cpu t)
deriving Decidable

/-- A task that is moved is on a queue, has at most one child, and no CPU holds it. -/
def MovesOther (s : Smp) : Prop :=
  ∀ pair ∈ s.balancePair, ∀ t ∈ s.balanceTask pair.1 pair.2,
    s.onRq t ∧ AtMostOneChild s t ∧ ¬ Held s t
deriving Decidable

def KeepsHome (s : Smp) : Op → Prop
  | .wakeup pid => WakesAtHome s pid
  | .sleep pid _ => ∀ t ∈ taskOf pid, s.onRq t → AtMostOneChild s t
  | .exit pid => ∀ t ∈ taskOf pid, (s.onRq t → AtMostOneChild s t) ∧ ¬ Held s t
  | .runTick cpu delta => Ticks WakesAtHome MovesOther s cpu delta
  | .loadBalance => MovesOther s
  | .createTask _ _ | .registerCpu _ | .setAffinity _ _ | .setNice _ _ => True

instance (s : Smp) : ∀ op, Decidable (KeepsHome s op)
  | .wakeup pid => inferInstanceAs (Decidable (WakesAtHome s pid))
  | .sleep pid _ => inferInstanceAs (Decidable (∀ t ∈ taskOf pid, _ → _))
  | .exit pid => inferInstanceAs (Decidable (∀ t ∈ taskOf pid, _ ∧ _))
  | .runTick cpu delta => inferInstanceAs (Decidable (Ticks WakesAtHome MovesOther s cpu delta))
  | .loadBalance => inferInstanceAs (Decidable (MovesOther s))
  | .createTask _ _ | .registerCpu _ | .setAffinity _ _ | .setNice _ _ =>
    inferInstanceAs (Decidable True)

/-! ## The invariant -/

def HomeOf (s : Smp) (c : Cpu) (t : Task) : Prop := s.pid t ≠ 0 ∧ s.cpu t = c

/-- The trees are apart, and the current and the idle task of a CPU belong to it. -/
structure AtHome (s : Smp) : Prop where
  trees : TreesApart s
  current : ∀ c t, (s.queue c).currentTask = some t → HomeOf s c t
  idle : ∀ c t, (s.queue c).idleTask = some t → HomeOf s c t

section

variable (home : AtHome s)
include home

theorem AtHome.runsOnce : RunsOnce s where
  live := fun c t isCurrent => (home.current c t isCurrent).1
  once := fun c d t here there =>
    (home.current c t here).2.symm.trans (home.current d t there).2

theorem AtHome.pid_of_held (held : Held s t) : s.pid t ≠ 0 := by
  obtain ⟨c, isCurrent | isIdle⟩ := held
  · exact (home.current c t isCurrent).1
  · exact (home.idle c t isIdle).1

theorem AtHome.keep (trees : TreesApart s')
    (currentTask : ∀ d, (s'.queue d).currentTask = (s.queue d).currentTask)
    (idleTask : ∀ d, (s'.queue d).idleTask = (s.queue d).idleTask)
    (held : ∀ a, Held s a → s'.pid a = s.pid a ∧ s'.cpu a = s.cpu a) : AtHome s' where
  trees
  current := by
    intro d a isCurrent
    rw [currentTask] at isCurrent
    obtain ⟨pid, cpu⟩ := held a ⟨d, .inl isCurrent⟩
    rw [HomeOf, pid, cpu]
    exact home.current d a isCurrent
  idle := by
    intro d a isIdle
    rw [idleTask] at isIdle
    obtain ⟨pid, cpu⟩ := held a ⟨d, .inr isIdle⟩
    rw [HomeOf, pid, cpu]
    exact home.idle d a isIdle

theorem AtHome.congr (same : Quiet s s') : AtHome s' :=
  home.keep (home.trees.congr same.toSameBooks) same.currentTask same.idleTask fun a _ =>
    ⟨congrFun same.pid a, congrFun same.cpu a⟩

theorem AtHome.tasks (trees : TreesApart s') (same : SameTasks s s') : AtHome s' :=
  home.keep trees same.currentTask same.idleTask fun a _ =>
    ⟨congrFun same.pid a, congrFun same.cpu a⟩

/-- A CPU gets tasks that belong to it. -/
theorem AtHome.newQueue {q : Queue} (books : q.books = (s.queue c).books)
    (current : ∀ a, q.currentTask = some a → HomeOf s c a)
    (idle : ∀ a, q.idleTask = some a → HomeOf s c a) : AtHome (s.setQueue c q) := by
  refine ⟨home.trees.congr (sameBooks_setQueue books), fun d a isCurrent => ?_,
    fun d a isIdle => ?_⟩
  · by_cases isCpu : d = c
    · subst isCpu
      exact current a (by simpa [setQueue] using isCurrent)
    · exact home.current d a (by simpa [setQueue, isCpu] using isCurrent)
  · by_cases isCpu : d = c
    · subst isCpu
      exact idle a (by simpa [setQueue] using isIdle)
    · exact home.idle d a (by simpa [setQueue, isCpu] using isIdle)

theorem AtHome.setCurrent (here : HomeOf s c t) : AtHome (s.setCurrent c t) :=
  (home.congr (quiet_state _)).newQueue rfl
    (fun _ isCurrent => Option.some.inj isCurrent ▸ here) (home.idle c)

end

/-! ## One call -/

section

variable (home : AtHome s)
include home

theorem AtHome.createTask : Returns (s.createTask nice cpu) fun result => AtHome result.2 ∧
      ∀ t, result.1 = some t → HomeOf result.2 ((s.cpuOf cpu).getD 0) t := by
  refine (home.trees.createTask nice cpu).mono fun result made => ?_
  obtain rfl | ⟨t, timeSlice, s', free, rfl, trees, admitted⟩ := made
  · exact ⟨home, nofun⟩
  have isFree := pid_of_freeSlot free
  have off := home.trees.off_of_pid isFree
  have same := sameExcept_newTask off nice ((s.cpuOf cpu).getD 0) timeSlice
  have cleared : AtHome (s.newTask t nice ((s.cpuOf cpu).getD 0) timeSlice) := by
    refine home.keep (home.trees.except off same) (fun _ => rfl) (fun _ => rfl) fun a held => ?_
    -- a held task is live, so the slot is not its own
    have isOther : a ≠ t := by
      rintro rfl
      exact home.pid_of_held held isFree
    exact ⟨same.pid a isOther, same.cpu a isOther⟩
  have entered := cleared.tasks trees admitted.toSameTasks
  refine ⟨entered.congr ⟨⟨rfl, rfl, rfl, rfl, rfl, rfl, fun _ => rfl⟩, fun _ => rfl,
    fun _ => rfl⟩, fun a isNew => ?_⟩
  obtain rfl := Option.some.inj isNew
  constructor
  · rw [admitted.pid]
    simp [newTask]
  · rw [admitted.cpu]
    simp [newTask]

theorem AtHome.registerCpu : Returns (s.registerCpu cpu) fun result => AtHome result.2 := by
  cases isCpu : s.cpuOf cpu with
  | none => exact ⟨(-1, s), by simp only [Smp.registerCpu, isCpu], home⟩
  | some c =>
    have active : AtHome (s.setQueue c { s.queue c with active := true }) :=
      home.congr (quiet_setQueue rfl rfl rfl)
    simp only [Smp.registerCpu, isCpu]
    split
    · exact .of_some active
    refine active.createTask.map fun result made => ?_
    obtain ⟨created, s'⟩ := result
    obtain ⟨home', isHome⟩ := made
    cases created with
    | none => exact home'
    | some t =>
      have here : HomeOf s' c t := by
        have new := isHome t rfl
        have sameCpu : (s.setQueue c { s.queue c with active := true }).cpuOf cpu = some c := isCpu
        rwa [sameCpu] at new
      exact (home'.congr (quiet_state _)).newQueue rfl (home'.current c)
        fun _ isIdle => Option.some.inj isIdle ▸ here

theorem AtHome.wakeup (careful : WakesAtHome s pid) : Returns (s.wakeup pid) fun result =>
      AtHome result.2 ∧ result.2.pid = s.pid ∧ result.2.cpu = s.cpu := by
  refine (home.trees.wakeup careful).mono fun result woken => ?_
  obtain same | ⟨t, -, -, -, trees, ⟨-, tasks⟩ | ⟨-, admitted⟩⟩ := woken
  · rw [same]
    exact ⟨home, rfl, rfl⟩
  · exact ⟨home.tasks trees tasks, tasks.pid, tasks.cpu⟩
  · exact ⟨home.tasks trees admitted.toSameTasks, admitted.pid, admitted.cpu⟩

theorem AtHome.sleep {wakeupTime : Nat}
    (careful : ∀ t, taskOf pid = some t → s.onRq t → AtMostOneChild s t) :
    Returns (s.sleep pid wakeupTime) fun result => AtHome result.2 := by
  refine (home.trees.sleep careful).mono fun result slept => ?_
  obtain same | ⟨t, s', state, -, -, trees, retired, same⟩ := slept
  · rw [same]
    exact home
  · rw [same]
    exact (home.tasks trees retired.toSameTasks).congr (quiet_state state)

/-- A task that is on no queue and that no CPU holds can exit. -/
theorem AtHome.clearPid (off : s.onRq t = false) (free : ¬ Held s t) {state : Task → TaskState}
    {nrTasks : Int} : AtHome { s with state, pid := update s.pid t 0, nrTasks } := by
  refine home.keep (home.trees.except off ⟨fun _ isOther => update_of_ne isOther _ _,
    fun _ _ => rfl, fun _ _ => rfl, rfl, fun _ _ _ => rfl, fun _ _ => rfl, fun _ => rfl⟩)
    (fun _ => rfl) (fun _ => rfl) fun a held => ⟨update_of_ne ?_ _ _, rfl⟩
  rintro rfl
  exact free held

end

theorem not_held_of_sameTasks (same : SameTasks s s') (free : ¬ Held s t) : ¬ Held s' t := by
  rintro ⟨c, holds⟩
  rw [same.currentTask, same.idleTask] at holds
  exact free ⟨c, holds⟩

theorem AtHome.exit (home : AtHome s)
    (careful : ∀ t, taskOf pid = some t → (s.onRq t → AtMostOneChild s t) ∧ ¬ Held s t) :
    Returns (s.exit pid) fun result => AtHome result.2 := by
  have exits := home.trees.exit fun t isTask => (careful t isTask).1
  refine exits.mono fun result ended => ?_
  obtain same | ⟨t, s', state, nrTasks, isTask, trees, counts, same⟩ := ended
  · rw [same]
    exact home
  have free := (careful t isTask).2
  rw [same]
  have tasks : SameTasks s s' := by
    obtain ⟨-, retired⟩ | ⟨-, rfl⟩ := counts
    · exact retired.toSameTasks
    · exact ⟨rfl, rfl, rfl, setQueue_keeps rfl, setQueue_keeps rfl⟩
  have off : s'.onRq t = false := by
    obtain ⟨-, retired⟩ | ⟨off, rfl⟩ := counts
    · rw [retired.onRq, update_self]
    · exact off
  exact (home.tasks trees tasks).clearPid off (not_held_of_sameTasks tasks free)

theorem AtHome.loadBalance (home : AtHome s) (careful : MovesOther s) :
    Returns s.loadBalance fun result => AtHome result.2 := by
  obtain stays | ⟨busiest, lightest, t, pair, task, -, live, isCpu, moves⟩ := loadBalance_cases
  · rw [stays]
    exact .of_some home
  obtain ⟨on, single, free⟩ := careful _ pair t task
  rw [moves]
  refine (home.trees.migrate live on isCpu single).map fun s' migrated => ?_
  obtain ⟨trees, first, vruntime, retired, admitted⟩ := migrated
  refine home.keep trees (fun d => (admitted.currentTask d).trans (retired.currentTask d))
    (fun d => (admitted.idleTask d).trans (retired.idleTask d)) fun a held => ?_
  -- the CPU of the moved task changes, and no CPU holds that task
  have isOther : a ≠ t := by
    rintro rfl
    exact free held
  constructor
  · rw [admitted.pid]
    exact congrFun retired.pid a
  · rw [admitted.cpu]
    exact (update_of_ne isOther _ _).trans (congrFun retired.cpu a)

theorem AtHome.setNice (home : AtHome s) : AtHome (s.setNice pid nice).2 := by
  cases isTask : taskOf pid with
  | none =>
    simp only [Smp.setNice, isTask]
    exact home
  | some t =>
    obtain ⟨tree, planted⟩ := home.trees
    have shape : ∃ weight weightSum, (s.setNice pid nice).2 =
        { s with weight }.setQueue (s.cpu t)
          { s.queue (s.cpu t) with weightSum } := by
      cases queued : s.onRq t with
      | true =>
        refine ⟨update s.weight t (cfsCalcWeight (clampNice nice)),
          ((if s.weight t ≤ (s.queue (s.cpu t)).weightSum then
            (s.queue (s.cpu t)).weightSum - s.weight t
            else (s.queue (s.cpu t)).weightSum) + cfsCalcWeight (clampNice nice)) %
            wordLimit32, ?_⟩
        simp only [Smp.setNice, isTask, queued, if_true, countWeightOut, setQueue,
          update_idem, update_self]
      | false =>
        refine ⟨update s.weight t (cfsCalcWeight (clampNice nice)),
          (s.queue (s.cpu t)).weightSum, ?_⟩
        simp only [Smp.setNice, isTask, queued, Bool.false_eq_true, if_false, setQueue,
          update_eq_self]
    obtain ⟨weight, weightSum, isState⟩ := shape
    rw [isState]
    exact home.keep ⟨tree, planted.congr (setQueue_keeps rfl) rfl fun a on =>
      ⟨rfl, fun _ => rfl, rfl, planted.live a on⟩⟩ (setQueue_keeps rfl)
      (setQueue_keeps rfl) fun _ _ => ⟨rfl, rfl⟩

/-! ## Runs -/

theorem WakesAtHome.congr (careful : WakesAtHome s pid) (same : SameView s s') :
    WakesAtHome s' pid := by
  intro t isTask notRunning notReady
  rw [same.state] at notRunning notReady
  rw [same.onRq, same.pid, same.wakeupTarget, same.cpu]
  exact careful t isTask notRunning notReady

theorem atHome_tickRules : TickRules AtHome HomeOf WakesAtHome MovesOther where
  trees := fun home => home.trees
  quiet := fun home same => home.congr same
  pickable := fun {s c t} home fromQueue => by
    obtain ⟨on, isCpu⟩ | isIdle := fromQueue
    · obtain ⟨tree, planted⟩ := home.trees
      exact ⟨planted.live t on, isCpu⟩
    · exact home.idle c t isIdle
  stays := fun {s s' c t} here pid cpu => by
    rw [HomeOf, pid, cpu]
    exact here
  picked := fun home here => home.setCurrent here
  wakes := fun home careful => home.wakeup careful
  same := fun careful same => careful.congr same
  balances := fun home careful => home.loadBalance careful

/-- A call that meets its condition returns, and keeps the held tasks at home. -/
theorem AtHome.step {op : Op} (home : AtHome s) (careful : KeepsHome s op) :
    Returns (step s op) AtHome := by
  cases op with
  | createTask nice cpu => exact home.createTask.map fun _ kept => kept.1
  | registerCpu cpu => exact home.registerCpu.map fun _ kept => kept
  | wakeup pid => exact (home.wakeup careful).map fun _ kept => kept.1
  | sleep pid wakeupTime => exact (home.sleep careful).map fun _ kept => kept
  | exit pid => exact (home.exit careful).map fun _ kept => kept
  | setAffinity pid cpumask => exact .of_some (atHome_tickRules.setAffinity home)
  | setNice pid nice => exact .of_some home.setNice
  | runTick cpu delta => exact (atHome_tickRules.runTick home careful).map fun _ kept => kept
  | loadBalance => exact (home.loadBalance careful).map fun _ kept => kept

theorem atHome_init {nrCpus : Int} : AtHome (init nrCpus) :=
  ⟨treesApart_init, by simp [init], by simp [init]⟩

/-- **No task runs twice.** A run of calls that meet their conditions returns, with every current
task live and current on one CPU only. -/
theorem runs_once_of_careful (nrCpus : Int) (ops : List Op)
    (careful : MeetsPartial step KeepsHome (init nrCpus) ops) :
    Returns (runPartial step (init nrCpus) ops) RunsOnce := by
  have kept := MeetsPartial.invariant (fun _ _ home here => home.step here) atHome_init careful
  exact kept.mono fun _ home => home.runsOnce

/-- CPU 0 runs its idle task while another task is moved from it to CPU 1. -/
def movedSpareTask : List Op :=
  [.registerCpu 0, .registerCpu 1, .createTask 0 0, .setAffinity 3 3, .runTick 0 1000,
    .loadBalance, .runTick 1 1000]

theorem movedSpareTask_runs_once :
    MeetsPartial step KeepsHome (init 2) movedSpareTask ∧
      Returns (runPartial step (init 2) movedSpareTask) RunsOnce := by
  have careful : MeetsPartial step KeepsHome (init 2) movedSpareTask := by decide +kernel
  exact ⟨careful, runs_once_of_careful 2 movedSpareTask careful⟩

/-- The task that is current on CPU 0 sleeps and wakes, is moved to CPU 1 while CPU 0 still runs
it, and is picked there. -/
theorem moved_current_task_runs_twice :
    ∃ s, runPartial step (init 2) [.createTask 0 0, .registerCpu 0, .registerCpu 1, .runTick 0 0,
        .sleep 1 0, .wakeup 1, .setAffinity 1 3, .loadBalance, .sleep 3 0, .runTick 1 0] = some s ∧
      (s.queue 0).currentTask = some 0 ∧ (s.queue 1).currentTask = some 0 ∧ ¬ RunsOnce s := by
  refine Returns.of_map (f := fun s => ((s.queue 0).currentTask, (s.queue 1).currentTask))
    (v := (some 0, some 0)) (by decide +kernel) fun s both => ?_
  obtain ⟨first, second⟩ := Prod.mk.inj both
  exact ⟨first, second, fun runsOnce => absurd (runsOnce.once 0 1 0 first second) (by decide)⟩

end FunsOS.SchedSmp
