import FunsOS.Sched.State

/-!
# The scheduler's operations

The `sched_*` functions of `kernel/sched.c` and `schedule`, and the machine that
takes one of them after another. Where a function indexes `mlfq_queues` with a
level that is out of range, or follows a list that goes round in a cycle, the
model stops (`none`).

`sched_pi_boost`, `sched_pi_unboost` and their mutex wrappers act on the state
modelled here through `sched_set_priority` only, and are not operations of their
own; nor are the statistics, groups, affinities and tunables, which act on nothing
modelled here.
-/

set_option autoImplicit false

namespace FunsOS.Sched

open Foundation
open Function (update)

universe u

variable {α : Type u} [DecidableEq α]

/-! ## Queueing and picking -/

variable (s : SchedState α)

def addToQueue (p : α) : Option (SchedState α) :=
  if (s.policy p).realTime then some (queueAdd s (.rt (rtLevel (s.priority p))) p)
  else if (s.policy p).cfs then some (enqueueEntity s p)
  else if (s.policy p).deadline then schedDlEnqueue s p
  else some (queueAdd s (mlfqClamped (s.queueLevel p)) p)

/-- The order in which `pick_next_process` looks at the queues. -/
def pickOrder : List QueueId :=
  [.rt 0, .rt 1, .mlfq 0, .mlfq 1, .mlfq 2, .mlfq 3, .mlfq 4, .mlfq 5, .mlfq 6, .mlfq 7]

/-- The loops of `pick_next_process`: pop the first process of the first queue that
has one, and otherwise return the idle task. -/
def pickFrom (s : SchedState α) : List QueueId → SchedState α × Option α
  | [] => (s, s.idleTask)
  | q :: qs =>
    match s.head q with
    | none => pickFrom s qs
    | some p => (queueRemove s q p, some p)

def pickNextProcess : SchedState α × Option α := pickFrom s pickOrder

def calculateTimeslice (priority : Nat) : Nat :=
  add32 10 (sub32 priorityMax priority * 90 % wordLimit / priorityMax)

/-- The first half of `schedule`: the running process, unless it is the idle task,
becomes ready and is queued. -/
def requeueCurrent : Option (SchedState α) :=
  match s.current with
  | none => some s
  | some p =>
    if s.state p = .running ∧ s.idleTask ≠ some p then addToQueue (s.setState p .ready) p
    else some s

/-- The second half of `schedule`: run the next process, or go on with the previous
one when there is none. -/
def switchTo (previous : Option α) : Option α → SchedState α
  | some p =>
    { s.setState p .running with
      timeSlice := update s.timeSlice p (calculateTimeslice (s.effectivePriority p))
      ticksUsed := update s.ticksUsed p 0
      current := some p
      scheduled := true }
  | none =>
    match previous with
    | none => { s with scheduled := true }
    | some p => { s.setState p .running with current := some p, scheduled := true }

def schedule : Option (SchedState α) :=
  (requeueCurrent s).map fun queued =>
    let picked := pickNextProcess queued
    switchTo picked.1 s.current picked.2

/-! ## Walks over the process list -/

/-- Apply a change to every process of the list that starts at the pointer. The
changes made here leave the list's links alone. -/
def forEachProcess (change : SchedState α → α → Option (SchedState α)) :
    Nat → Option α → SchedState α → Option (SchedState α)
  | 0, _, _ => none
  | _ + 1, none, s => some s
  | fuel + 1, some p, s => (change s p).bind fun s => forEachProcess change fuel (s.next p) s

/-- The body of `sched_wakeup_sleepers`. -/
def wakeIfDue (p : α) : Option (SchedState α) :=
  if s.state p = .blocked ∧ s.blockedReason p = .sleep ∧ s.wakeTime p ≤ s.tickCount then
    addToQueue
      { s.setState p .ready with
        blockedReason := update s.blockedReason p .none } p
  else some s

/-- The body of `sched_boost_all`. -/
def boost (p : α) : Option (SchedState α) :=
  if (s.policy p).normal ∧ s.queueLevel p ≠ 0 then
    if s.state p = .ready then
      (mlfqAt (s.queueLevel p)).map fun q =>
        let s := queueRemove s q p
        queueAdd { s with queueLevel := update s.queueLevel p 0 } (.mlfq 0) p
    else some { s with queueLevel := update s.queueLevel p 0 }
  else some s

section

variable [Fintype α]

/-- More steps than there are processes. -/
def walkLimit (α : Type u) [Fintype α] : Nat := Fintype.card α + 1

variable (s : SchedState α)

def schedWakeupSleepers : Option (SchedState α) :=
  forEachProcess wakeIfDue (walkLimit α) s.processList s

def schedBoostAll : Option (SchedState α) :=
  forEachProcess boost (walkLimit α) s.processList s

/-! ## The operations -/

def tickStart : Option (SchedState α) :=
  (schedWakeupSleepers { s with tickCount := (s.tickCount + 1) % wordLimit64 }).bind fun s =>
    if s.tickCount % boostInterval = 0 then schedBoostAll s else some s

/-- The accounting of `sched_tick` to the running process. -/
def tickAccount (p : α) : SchedState α :=
  { s with
    ticksUsed := update s.ticksUsed p (add32 (s.ticksUsed p) 1)
    cpuTime := update s.cpuTime p (add32 (s.cpuTime p) 1)
    timeSlice := update s.timeSlice p (sub32 (s.timeSlice p) 1) }

/-- The rest of `sched_tick`: the idle task is preempted at every tick, a NORMAL
process sinks a level when its slice is used up, a real-time one does not. -/
def tickRunning (p : α) : Option (SchedState α) :=
  if s.idleTask = some p then schedule s
  else if (s.policy p).normal then
    if s.timeSlice p = 0 then
      schedule
        (if s.queueLevel p < 7 then
          { s with queueLevel := update s.queueLevel p (s.queueLevel p + 1) }
        else s)
    else some s
  else if (s.policy p).realTime then
    if s.timeSlice p = 0 then schedule s else some s
  else some s

def schedTick : Option (SchedState α) :=
  (tickStart s).bind fun s =>
    match s.current with
    | none => schedule s
    | some p => tickRunning (tickAccount s p) p

end

variable (s : SchedState α)

def schedAdd (p : α) : Option (SchedState α) :=
  addToQueue
    { s.setState p .ready with
      lastRunTime := update s.lastRunTime p s.tickCount
      next := update s.next p s.processList
      prev := redirect (update s.prev p none) s.processList (some p)
      processList := some p } p

/-- The part of `sched_remove` that takes a process off the process list. The
process's own links stay as they are. -/
def unlist (p : α) : SchedState α :=
  { s with
    next := redirect s.next (s.prev p) (s.next p)
    prev := redirect s.prev (s.next p) (s.prev p)
    processList := if s.processList = some p then s.next p else s.processList }

def schedRemove (p : α) : Option (SchedState α) :=
  (removeSelected s p).map fun s => unlist s p

def schedBlock (p : α) (reason : BlockReason) : Option (SchedState α) :=
  match s.state p with
  | .running =>
    schedule
      { s.setState p .blocked with
        blockedReason := update s.blockedReason p reason }
  | .ready =>
    (removeSelected s p).map fun s =>
      { s.setState p .blocked with
        blockedReason := update s.blockedReason p reason }
  | _ => some s

def schedUnblock (p : α) : Option (SchedState α) :=
  if s.state p ≠ .blocked then some s
  else
    addToQueue
      { s.setState p .ready with
        blockedReason := update s.blockedReason p .none } p

/-- Take a ready process out of its queue by the given function, change it, and
queue it again if it is ready. -/
def requeueIfReady (take : SchedState α → Option (SchedState α))
    (change : SchedState α → SchedState α) (s : SchedState α) (p : α) : Option (SchedState α) :=
  (if s.state p = .ready then take s else some s).bind fun s =>
    let s := change s
    if s.state p = .ready then addToQueue s p else some s

def schedSetPriority (p : α) (priority : Nat) : Option (SchedState α) :=
  let priority := min priority priorityMax
  requeueIfReady (fun s => removeSelected s p)
    (fun s =>
      { s with
        priority := update s.priority p priority
        originalPriority := update s.originalPriority p priority
        effectivePriority := update s.effectivePriority p priority })
    s p

/-- The dequeueing of `sched_set_policy`, by the old policy. -/
def dequeueByPolicy (p : α) : Option (SchedState α) :=
  if (s.policy p).realTime then removeSelected s p
  else if (s.policy p).cfs then some (schedCfsDequeue s)
  else if (s.policy p).deadline then some (schedDlDequeue s)
  else removeSelected s p

def schedSetPolicy (p : α) (policy : Policy) : Option (SchedState α) :=
  requeueIfReady (fun s => dequeueByPolicy s p)
    (fun s =>
      { s with
        policy := update s.policy p policy
        queueLevel := update s.queueLevel p 0 })
    s p

def schedYield : Option (SchedState α) :=
  match s.current with
  | none => some s
  | some p =>
    schedule
      (if (s.policy p).normal ∧ 0 < s.queueLevel p ∧ s.ticksUsed p < s.timeSlice p / 2 then
        { s with queueLevel := update s.queueLevel p (s.queueLevel p - 1) }
      else s)

def schedSleep (milliseconds : Nat) : Option (SchedState α) :=
  match s.current with
  | none => some s
  | some p =>
    schedBlock
      { s with
        wakeTime := update s.wakeTime p ((s.tickCount + add32 milliseconds 9 / 10) % wordLimit64) }
      p .sleep

def schedSetCurrent (p : Option α) : SchedState α :=
  match p with
  | none => { s with current := none }
  | some p => { (queueRemove s (s.selected p) p).setState p .running with current := some p }

/-- `sched_create_idle_task`, for a process that `process_create_kernel` has set up. -/
def schedCreateIdleTask (p : α) : SchedState α :=
  { s.setState p .ready with
    policy := update s.policy p .idleOnly
    priority := update s.priority p priorityMax
    effectivePriority := update s.effectivePriority p priorityMax
    idleTask := some p }

/-! ## CFS, deadline and batch -/

def schedSlice : Nat := max (latency / (s.cfsNrRunning + 1)) minGranularity

/-- The weight `sched_calc_vruntime` derives from a priority. -/
def vruntimeWeight (priority : Nat) : Nat :=
  if defaultPriority < priority then 1024 + (priority - defaultPriority) * 10 % wordLimit
  else max (1024 - (defaultPriority - priority) * 5) 100

/-- `task_tick_fair`; the tick granularity is one. -/
def taskTickFair (p : α) : SchedState α :=
  let advanced := (s.vruntime p + 1024 / vruntimeWeight (s.effectivePriority p)) % wordLimit64
  let elapsed := (s.tickCount + (wordLimit64 - s.execStart p % wordLimit64)) % wordLimit64
  { s with
    vruntime := update s.vruntime p advanced
    needResched :=
      if schedSlice s ≤ elapsed then update s.needResched p true else s.needResched }

def schedCfsTick (p : α) : Option (SchedState α) :=
  let s := taskTickFair s p
  if s.needResched p ∧ s.state p = .running then
    schedule
      (enqueueEntity
        { s.setState p .ready with needResched := update s.needResched p false } p)
  else some s

/-- The dequeueing of `sched_set_policy_cfs`. A process without any of the flags it
tests stays where it is. -/
def dequeueForCfs (p : α) : Option (SchedState α) :=
  if (s.policy p).realTime then removeSelected s p
  else if (s.policy p).normal ∨ (s.policy p).batch ∨ (s.policy p).idlePrio then removeSelected s p
  else if (s.policy p).deadline then some (schedDlDequeue s)
  else some s

def schedSetPolicyCfs (p : α) : Option (SchedState α) :=
  (if s.state p = .ready then dequeueForCfs s p else some s).map fun s =>
    let s := { s with
      policy := update s.policy p .cfsOnly
      vruntime := update s.vruntime p s.cfsMinVruntime
      needResched := update s.needResched p false
      execStart := update s.execStart p s.tickCount }
    if s.state p = .ready then enqueueEntity s p
    else if s.state p = .running then { s with cfsCurr := some p }
    else s

/-- The dequeueing of `sched_set_policy_deadline`. -/
def dequeueForDeadline (p : α) : Option (SchedState α) :=
  if (s.policy p).realTime then removeSelected s p
  else if (s.policy p).cfs then some (schedCfsDequeue s)
  else removeSelected s p

def dlAllocNode : Option (Fin 64) :=
  (List.finRange 64).find? fun n => (s.dlNode n).isNone

/-- The admission of `sched_set_policy_deadline`: a node, and the bandwidth. A
refusal leaves the process with the new policy. -/
def dlAdmit (p : α) (runtime deadline period : Nat) : Option (SchedState α) :=
  match dlAllocNode s with
  | none => some s
  | some n =>
    let total := (s.dlRunningBw + runtime * 1000 % wordLimit64 / period % wordLimit) % wordLimit
    if total < s.dlRunningBw ∨ 1000 < total then some s
    else
      let s := { s with
        dlNode := update s.dlNode n (some
          { proc := p, runtime, deadline, period
            remainingRuntime := runtime, active := true
            currentDeadline := (s.tickCount + deadline) % wordLimit64 })
        dlRunningBw := total }
      if s.state p = .ready then schedDlEnqueue s p else some s

def schedSetPolicyDeadline (p : α) (runtime deadline period : Nat) : Option (SchedState α) :=
  if runtime = 0 ∨ deadline = 0 ∨ period = 0 ∨ period < deadline ∨ deadline < runtime then some s
  else
    (if s.state p = .ready then dequeueForDeadline s p else some s).bind fun s =>
      dlAdmit { s with policy := update s.policy p .deadlineOnly } p runtime deadline period

/-- `sched_batch_add` for a process it finds, with a free job entry. -/
def schedBatchAdd (p : α) (priority : Nat) : Option (SchedState α) :=
  let s := { s with policy := update s.policy p { s.policy p with batch := true } }
  if priority < priorityMax then schedSetPriority s p priority else some s

/-- What `process_exit`, `thread_exit` and `kernel_thread_exit` do to the current process
before they call `sched_remove` and `schedule`. -/
def markZombie : SchedState α :=
  match s.current with
  | none => s
  | some p => s.setState p .zombie

/-! ## The machine -/

/-- One operation. -/
inductive Op (α : Type u) where
  | add (p : α)
  | remove (p : α)
  | tick
  | schedule
  | block (p : α) (reason : BlockReason)
  | unblock (p : α)
  | setPriority (p : α) (priority : Nat)
  | yield
  | sleep (milliseconds : Nat)
  | wakeupSleepers
  | setPolicy (p : α) (policy : Policy)
  | setCurrent (p : Option α)
  | createIdleTask (p : α)
  | cfsEnqueue (p : α)
  | cfsDequeue
  | cfsTick (p : α)
  | setPolicyCfs (p : α)
  | setPolicyDeadline (p : α) (runtime deadline period : Nat)
  | dlEnqueue (p : α)
  | dlDequeue
  | dlTick (p : α)
  | batchAdd (p : α) (priority : Nat)
  | exiting

/-- What has become of a process: no operation has been given it, it is in the process
list, or it is not and will not be added. -/
inductive Life where
  | new
  | listed
  | unlisted
  deriving DecidableEq, Repr

/-- The scheduler's state, and what has become of the processes. -/
structure Machine (α : Type u) where
  sched : SchedState α
  life : α → Life

/-- The process an operation is given. -/
def Op.subject : Op α → Option α
  | .add p | .remove p | .block p _ | .unblock p | .setPriority p _ | .setPolicy p _
  | .createIdleTask p | .cfsEnqueue p | .cfsTick p | .setPolicyCfs p
  | .setPolicyDeadline p _ _ _ | .dlEnqueue p | .dlTick p | .batchAdd p _ => some p
  | .setCurrent p => p
  | .tick | .schedule | .yield | .sleep _ | .wakeupSleepers | .cfsDequeue | .dlDequeue
  | .exiting => none

/-- A process that an operation is given is not new any more. -/
def touch (life : α → Life) (subject : Option α) : α → Life := fun p =>
  if subject = some p ∧ life p = .new then .unlisted else life p

/-- What becomes of the processes at an operation. -/
def track (life : α → Life) (op : Op α) : α → Life :=
  match op with
  | .add p => update life p .listed
  | .remove p => update life p .unlisted
  | op => touch life op.subject

/-- What an operation does to the scheduler. -/
def run [Fintype α] (s : SchedState α) : Op α → Option (SchedState α)
  | .add p => schedAdd s p
  | .remove p => schedRemove s p
  | .tick => schedTick s
  | .schedule => Sched.schedule s
  | .block p reason => schedBlock s p reason
  | .unblock p => schedUnblock s p
  | .setPriority p priority => schedSetPriority s p priority
  | .yield => schedYield s
  | .sleep milliseconds => schedSleep s milliseconds
  | .wakeupSleepers => schedWakeupSleepers s
  | .setPolicy p policy => schedSetPolicy s p policy
  | .setCurrent p => some (schedSetCurrent s p)
  | .createIdleTask p => some (schedCreateIdleTask s p)
  | .cfsEnqueue p => some (enqueueEntity s p)
  | .cfsDequeue => some (schedCfsDequeue s)
  | .cfsTick p => schedCfsTick s p
  | .setPolicyCfs p => schedSetPolicyCfs s p
  | .setPolicyDeadline p runtime deadline period =>
    schedSetPolicyDeadline s p runtime deadline period
  | .dlEnqueue p => schedDlEnqueue s p
  | .dlDequeue => some (schedDlDequeue s)
  | .dlTick p => schedDlTick s p
  | .batchAdd p priority => schedBatchAdd s p priority
  | .exiting => some (markZombie s)

def step [Fintype α] (m : Machine α) (op : Op α) : Option (Machine α) :=
  (run { m.sched with scheduled := false } op).map fun s => ⟨s, track m.life op⟩

end FunsOS.Sched
