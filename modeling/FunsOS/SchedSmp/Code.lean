import FunsOS.SchedCfs.RunQueue

/-!
# The SMP scheduler

The scheduler of `kernel/sched_smp.c`: a table of tasks, a run queue for each CPU with its CFS
tree, and the operations that create, wake, stop and end tasks, run the clock of a CPU and move
tasks between CPUs.

The scheduling entities of the tasks are in one table, so that the trees of all CPUs share their
links: `Smp.cfsRq` is the view of it that one CPU's CFS queue has, and `Smp.setCfsRq` writes that
view back. The counters of a queue exist twice, in the CFS queue and in the SMP run queue.

`none` stands for a loop that does not end or a read through NULL. Names, statistics, the
run list of a queue and the fields `on_cpu`, `last_cpu`, `wakeup_time`, `nice` and `rb_node_count`,
which are written and not read, are left out.
-/

set_option autoImplicit false

namespace FunsOS.SchedSmp

open Foundation SchedCfs Prod
open Function (update)

/-- A slot of the task table, of `SMP_MAX_TASKS`. -/
abbrev Task := Fin 1024

abbrev Cpu := Fin 32

scoped instance neZeroCpus : NeZero 32 := ⟨by decide⟩

/-- `task_state_t`. -/
inductive TaskState where
  | running
  | ready
  | blocked
  | sleeping
  | zombie
  | idle
  deriving DecidableEq

def schedNiceMin : Int := -20

def schedNiceMax : Int := 19

/-- `CFS_TARGET_LATENCY_NS`. -/
def cfsTargetLatency : Nat := 20000000

/-- `CFS_MIN_GRANULARITY_NS`. -/
def cfsMinGranularity : Nat := 1000000

/-- The number of 32-bit words. -/
def wordLimit32 : Nat := 2 ^ 32

/-- The fields of a CPU's run queue; those of its `cfs_rq` are the root and the ones that have
`cfs` in their names, `minVruntime` and `execClock`. -/
structure Queue where
  active : Bool
  root : Option Task
  minVruntime : Nat
  execClock : Nat
  cfsNrRunning : Int
  cfsWeightSum : Int
  idleTask : Option Task
  currentTask : Option Task
  nrRunning : Nat
  weightSum : Nat
  lastBalance : Nat

/-- The task table and the run queues. -/
structure Smp where
  child : Side → Task → Option Task
  parent : Task → Option Task
  rbColor : Task → Color
  vruntime : Task → Nat
  sumExecRuntime : Task → Nat
  weight : Task → Nat
  onRq : Task → Bool
  timeSlice : Task → Nat
  pid : Task → Nat
  cpu : Task → Cpu
  state : Task → TaskState
  cpumask : Task → UInt32
  queue : Cpu → Queue
  nrCpus : Nat
  nrTasks : Int

variable (s : Smp)

namespace Smp

/-! ## The CFS queue of a CPU -/

section

variable (c : Cpu)

/-- The CFS queue of a CPU, with the scheduling entities of all tasks. -/
def cfsRq : CfsRq Task where
  links := ⟨(s.queue c).root, s.child, s.parent⟩
  rbColor := s.rbColor
  vruntime := s.vruntime
  sumExecRuntime := s.sumExecRuntime
  weight := s.weight
  onRq := s.onRq
  rbNodeCount := 0
  minVruntime := (s.queue c).minVruntime
  execClock := (s.queue c).execClock
  nrRunning := (s.queue c).cfsNrRunning
  weightSum := (s.queue c).cfsWeightSum

def setQueue (queue : Queue) : Smp :=
  { s with queue := update s.queue c queue }

/-- Writes the CFS queue of a CPU and the scheduling entities back. -/
def setCfsRq (rq : CfsRq Task) : Smp :=
  { s with
    child := rq.links.child
    parent := rq.links.parent
    rbColor := rq.rbColor
    vruntime := rq.vruntime
    sumExecRuntime := rq.sumExecRuntime
    weight := rq.weight
    onRq := rq.onRq
    queue := update s.queue c { s.queue c with
      root := rq.links.root
      minVruntime := rq.minVruntime
      execClock := rq.execClock
      cfsNrRunning := rq.nrRunning
      cfsWeightSum := rq.weightSum } }

/-- `cfs_rq_enqueue` on the queue of a CPU, with `nr_running` as the 32-bit integer it is. -/
def enqueueOn (t : Task) : Option Smp :=
  (cfsRqEnqueue (s.cfsRq c) t).map fun rq =>
    s.setCfsRq c { rq with nrRunning := int32 rq.nrRunning }

/-- `cfs_rq_dequeue` on the queue of a CPU, with `nr_running` as the 32-bit integer it is. -/
def dequeueFrom (t : Task) : Option Smp :=
  (cfsRqDequeue (s.cfsRq c) t).map fun rq =>
    s.setCfsRq c { rq with nrRunning := int32 rq.nrRunning }

/-- `nr_running++` and `weight_sum += weight` of a run queue. -/
def countIn (weight : Nat) : Smp :=
  s.setQueue c { s.queue c with
    nrRunning := ((s.queue c).nrRunning + 1) % wordLimit32
    weightSum := ((s.queue c).weightSum + weight) % wordLimit32 }

/-- `nr_running--` of a run queue, unless it is 0. -/
def countTaskOut : Smp :=
  s.setQueue c { s.queue c with nrRunning := (s.queue c).nrRunning - 1 }

/-- `weight_sum -= weight` of a run queue, unless it is smaller. -/
def countWeightOut (weight : Nat) : Smp :=
  s.setQueue c { s.queue c with
    weightSum :=
      if weight ≤ (s.queue c).weightSum then (s.queue c).weightSum - weight
      else (s.queue c).weightSum }

/-- A task is enqueued and counted, as `smp_sched_create_task`, `smp_sched_wakeup` and
`smp_sched_load_balance` do. It is counted whether `cfs_rq_enqueue` takes it or not. -/
def enlist (t : Task) : Option Smp :=
  (s.enqueueOn c t).map fun s => s.countIn c (s.weight t)

/-- A task is dequeued and no longer counted, as `smp_sched_sleep`, `smp_sched_exit` and
`smp_sched_load_balance` do. -/
def retire (t : Task) : Option Smp :=
  (s.dequeueFrom c t).map fun s => (s.countWeightOut c (s.weight t)).countTaskOut c

end

/-! ## Weights and time slices -/

/-- A nice value brought into the range from `SCHED_NICE_MIN` to `SCHED_NICE_MAX`. -/
def clampNice (nice : Int) : Int :=
  let nice := if nice < schedNiceMin then schedNiceMin else nice
  if nice > schedNiceMax then schedNiceMax else nice

/-- `cfs_calc_weight`, with `NICE_TO_WEIGHT`. -/
def cfsCalcWeight (nice : Int) : Nat :=
  let nice := clampNice nice
  let w :=
    if nice ≥ 0 then 1024 / 2 ^ (min nice.toNat 19) else 1024 * 2 ^ (min (-nice).toNat 19)
  if w ≠ 0 then w else 1

/-- `cfs_calc_timeslice`, as a 32-bit word. The weight sum is a signed integer that is divided by
as an unsigned 64-bit word. -/
def cfsCalcTimeslice (c : Cpu) : Option Nat :=
  if (s.queue c).cfsWeightSum = 0 then some cfsTargetLatency
  else
    (cfsRqPickNext (s.cfsRq c)).map fun leftmost =>
      match leftmost with
      | none => cfsTargetLatency
      | some e =>
        let slice := cfsTargetLatency * s.weight e % wordLimit64 /
          ((s.queue c).cfsWeightSum % (wordLimit64 : Int)).toNat
        (if slice < cfsMinGranularity then cfsMinGranularity else slice) % wordLimit32

/-! ## Operations

Each returns the code of the C function and the state after it. -/

/-- `smp_sched_init`. -/
def init (nrCpus : Int) : Smp where
  child := fun _ _ => none
  parent := fun _ => none
  rbColor := fun _ => .red
  vruntime := fun _ => 0
  sumExecRuntime := fun _ => 0
  weight := fun _ => 0
  onRq := fun _ => false
  timeSlice := fun _ => 0
  pid := fun _ => 0
  cpu := fun _ => 0
  state := fun _ => .running
  cpumask := fun _ => 0
  queue := fun _ =>
    { active := false, root := none, minVruntime := 0, execClock := 0, cfsNrRunning := 0
      cfsWeightSum := 0, idleTask := none, currentTask := none, nrRunning := 0, weightSum := 0
      lastBalance := 0 }
  nrCpus := if nrCpus ≤ 0 ∨ nrCpus > 32 then 1 else nrCpus.toNat
  nrTasks := 0

/-- The CPU that an index stands for, if the scheduler has it. -/
def cpuOf (cpu : Int) : Option Cpu :=
  if cpu < 0 ∨ cpu ≥ s.nrCpus then none else some (Fin.ofNat 32 cpu.toNat)

def taskOf (pid : Nat) : Option Task :=
  if pid = 0 ∨ pid > 1024 then none else some (Fin.ofNat 1024 (pid - 1))

def cpuBit (c : Cpu) : UInt32 := 1 <<< UInt32.ofNat c

/-- A slot of the task table cleared and filled in by `smp_sched_create_task`. -/
def newTask (t : Task) (nice : Int) (c : Cpu) (timeSlice : Nat) : Smp :=
  { s with
    child := fun side => update (s.child side) t none
    parent := update s.parent t none
    rbColor := update s.rbColor t .red
    sumExecRuntime := update s.sumExecRuntime t 0
    onRq := update s.onRq t false
    pid := update s.pid t (t + 1)
    cpu := update s.cpu t c
    state := update s.state t .ready
    cpumask := update s.cpumask t (cpuBit c ||| 1)
    vruntime := update s.vruntime t (s.queue c).minVruntime
    weight := update s.weight t (cfsCalcWeight nice)
    timeSlice := update s.timeSlice t timeSlice }

/-- The slot that `smp_sched_create_task` takes, if the table is not full. -/
def freeSlot : Option Task :=
  if s.nrTasks ≥ 1024 then none else (List.finRange 1024).find? fun t => s.pid t = 0

/-- `smp_sched_create_task`: the new task, or `none` for `-1`. The time slice is computed after
the slot has been cleared. -/
def createTask (nice cpu : Int) : Option (Option Task × Smp) :=
  let c := (s.cpuOf cpu).getD 0
  match s.freeSlot with
  | none => some (none, s)
  | some t => do
      let timeSlice ← (s.newTask t nice c 0).cfsCalcTimeslice c
      let s ← (s.newTask t nice c timeSlice).enlist c t
      some (some t, { s with nrTasks := s.nrTasks + 1 })

/-- `smp_sched_register_cpu`. -/
def registerCpu (cpu : Int) : Option (Int × Smp) :=
  match s.cpuOf cpu with
  | none => some (-1, s)
  | some c =>
    let s := s.setQueue c { s.queue c with active := true }
    if (s.queue c).idleTask ≠ none then some (0, s)
    else
      (s.createTask 19 cpu).map fun (created, s) =>
        match created with
        | none => (0, s)
        | some t =>
          (0, { s with state := update s.state t .idle }.setQueue c
            { s.queue c with idleTask := some t })

/-- The CPU that `smp_sched_wakeup` picks for a task. -/
def wakeupTarget (t : Task) : Cpu :=
  if (s.queue (s.cpu t)).active then s.cpu t
  else
    ((List.finRange 32).find? fun c =>
      c.val < s.nrCpus ∧ (s.queue c).active ∧ s.cpumask t &&& cpuBit c ≠ 0).getD (s.cpu t)

/-- `smp_sched_wakeup`. -/
def wakeup (pid : Nat) : Option (Int × Smp) :=
  match taskOf pid with
  | none => some (-1, s)
  | some t =>
    if s.state t = .running ∨ s.state t = .ready then some (0, s)
    else
      let target := s.wakeupTarget t
      let s := { s with
        state := update s.state t .ready
        vruntime := update s.vruntime t (s.queue target).minVruntime }
      (s.enlist target t).map fun s => (0, s)

/-- `smp_sched_sleep`. -/
def sleep (pid : Nat) (wakeupTime : Nat) : Option (Int × Smp) :=
  match taskOf pid with
  | none => some (-1, s)
  | some t =>
    if s.onRq t = false then some (0, s)
    else
      (s.retire (s.cpu t) t).map fun s =>
        (0, { s with
          state := update s.state t (if wakeupTime > 0 then .sleeping else .blocked) })

/-- `smp_sched_exit`. A task that is not on a run queue is taken off `nr_running` too. -/
def exit (pid : Nat) : Option (Int × Smp) :=
  match taskOf pid with
  | none => some (-1, s)
  | some t =>
    let retired := if s.onRq t then s.retire (s.cpu t) t else some (s.countTaskOut (s.cpu t))
    retired.map fun s =>
      (0, { s with
        state := update s.state t .zombie
        pid := update s.pid t 0
        nrTasks := s.nrTasks - 1 })

/-- `smp_sched_set_affinity`. -/
def setAffinity (pid : Nat) (cpumask : UInt32) : Int × Smp :=
  match taskOf pid with
  | none => (-1, s)
  | some t =>
    (0, { s with cpumask := update s.cpumask t (if cpumask ≠ 0 then cpumask else 1) })

/-- `smp_sched_set_nice`. It does not touch the weight sum of the CFS queue. -/
def setNice (pid : Nat) (nice : Int) : Int × Smp :=
  match taskOf pid with
  | none => (-1, s)
  | some t =>
    let c := s.cpu t
    let nice := clampNice nice
    let s := if s.onRq t then s.countWeightOut c (s.weight t) else s
    let s := { s with weight := update s.weight t (cfsCalcWeight nice) }
    if s.onRq t then
      (0, s.setQueue c { s.queue c with
        weightSum := ((s.queue c).weightSum + s.weight t) % wordLimit32 })
    else (0, s)

/-- `smp_sched_pick_next`: a task, or `none` for NULL. -/
def pickNext (c : Cpu) : Option (Option Task) :=
  (cfsRqPickNext (s.cfsRq c)).map fun leftmost => leftmost.or (s.queue c).idleTask

/-! ### Load balancing -/

/-- The scan of `smp_sched_load_balance` for the CPUs with the largest and the smallest weight
sum: `busiest`, `max_w`, `lightest` and `min_w`. -/
def balanceScan : (Option Cpu × Nat) × Option Cpu × Nat :=
  ((List.finRange 32).filter fun c => c.val < s.nrCpus ∧ (s.queue c).active).foldl
    (fun best c =>
      (if (s.queue c).weightSum > best.1.2 then (some c, (s.queue c).weightSum) else best.1,
        if (s.queue c).weightSum < best.2.2 then (some c, (s.queue c).weightSum) else best.2))
    ((none, 0), none, wordLimit32 - 1)

/-- The CPUs that a task is to be moved from and to. -/
def balancePair : Option (Cpu × Cpu) :=
  if s.nrCpus < 2 then none
  else
    match s.balanceScan with
    | ((some busiest, maxW), some lightest, minW) =>
      if busiest = lightest then none
      else if maxW < minW * 2 % wordLimit32 then none
      else some (busiest, lightest)
    | _ => none

/-- The task that is moved: the first ready one of the busiest CPU that may run on the other. -/
def balanceTask (busiest lightest : Cpu) : Option Task :=
  (List.finRange 1024).find? fun t =>
    s.pid t ≠ 0 ∧ s.cpu t = busiest ∧ s.state t = .ready ∧ s.cpumask t &&& cpuBit lightest ≠ 0

def migrate (busiest lightest : Cpu) (t : Task) : Option Smp := do
  let s ← s.retire busiest t
  { s with
    cpu := update s.cpu t lightest
    vruntime := update s.vruntime t (s.queue lightest).minVruntime }.enlist lightest t

/-- `smp_sched_load_balance`. -/
def loadBalance : Option (Int × Smp) :=
  match s.balancePair with
  | none => some (0, s)
  | some (busiest, lightest) =>
    match s.balanceTask busiest lightest with
    | none => some (0, s)
    | some t => (s.migrate busiest lightest t).map fun s => (1, s)

/-! ### The clock tick -/

def setCurrent (c : Cpu) (t : Task) : Smp :=
  { s with state := update s.state t .running }.setQueue c
    { s.queue c with currentTask := some t }

/-- The current task of a CPU has used up its time slice: it gets a new one, and another task
takes its place if there is one. -/
def preempt (c : Cpu) (current : Task) : Option Smp := do
  let timeSlice ← s.cfsCalcTimeslice c
  let s := { s with timeSlice := update s.timeSlice current timeSlice }
  let next ← s.pickNext c
  match next with
  | none => some s
  | some next =>
    if next = current then some s
    else do
      let (_, s) ← s.wakeup (s.pid current)
      some ({ s with state := update s.state current .ready }.setCurrent c next)

/-- The first part of `smp_sched_run_tick`: the current task is accounted for, or one is
picked. -/
def tick (c : Cpu) (delta : Nat) : Option Smp :=
  match (s.queue c).currentTask with
  | some current =>
    let s := s.setCfsRq c (cfsRqAccount (s.cfsRq c) current delta)
    if s.timeSlice current = 0 then s.preempt c current else some s
  | none =>
    (s.pickNext c).map fun next =>
      match next with
      | none => s.setQueue c { s.queue c with currentTask := none }
      | some t => s.setCurrent c t

/-- The time since the last balancing is counted. -/
def balanceClock (c : Cpu) (delta : Nat) : Smp :=
  s.setQueue c { s.queue c with lastBalance := ((s.queue c).lastBalance + delta) % wordLimit64 }

def balanceStart (c : Cpu) : Smp := s.setQueue c { s.queue c with lastBalance := 0 }

/-- Tasks are balanced if that has not been done for a millisecond. -/
def balanceIfDue (c : Cpu) : Option Smp :=
  if (s.queue c).lastBalance ≥ 1000000 then (s.balanceStart c).loadBalance.map snd
  else some s

/-- `smp_sched_run_tick`. -/
def runTick (cpu : Int) (delta : Nat) : Option (Int × Smp) :=
  match s.cpuOf cpu with
  | none => some (-1, s)
  | some c => do
      let s ← s.tick c delta
      let s ← (s.balanceClock c delta).balanceIfDue c
      some (0, s)

end Smp

/-- A call of one of the operations. -/
inductive Op where
  | createTask (nice cpu : Int)
  | registerCpu (cpu : Int)
  | wakeup (pid : Nat)
  | sleep (pid wakeupTime : Nat)
  | exit (pid : Nat)
  | setAffinity (pid : Nat) (cpumask : UInt32)
  | setNice (pid : Nat) (nice : Int)
  | runTick (cpu : Int) (delta : Nat)
  | loadBalance

/-- One call. -/
def step : Op → Option Smp
  | .createTask nice cpu => (s.createTask nice cpu).map snd
  | .registerCpu cpu => (s.registerCpu cpu).map snd
  | .wakeup pid => (s.wakeup pid).map snd
  | .sleep pid wakeupTime => (s.sleep pid wakeupTime).map snd
  | .exit pid => (s.exit pid).map snd
  | .setAffinity pid cpumask => some (s.setAffinity pid cpumask).2
  | .setNice pid nice => some (s.setNice pid nice).2
  | .runTick cpu delta => (s.runTick cpu delta).map snd
  | .loadBalance => s.loadBalance.map snd

end FunsOS.SchedSmp
