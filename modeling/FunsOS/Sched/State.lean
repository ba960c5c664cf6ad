import Mathlib.Data.Fintype.Card
import FunsOS.Foundation.LinkedList
import FunsOS.Foundation.Word32

/-!
# The scheduler's state and its run queues

The state of `kernel/sched.c`: the scheduling fields of the processes, the two
real-time and eight MLFQ queues, the process list, the CFS queue and the deadline
queue. Processes are the elements of a type, and each field of `pcb_t` is a
function of the process; `queueNext` and `queuePrev` link a process into an RT or
MLFQ queue, `next` and `prev` into the process list.

`sched_policy` is a word of flag bits, of which the code only ever tests single
bits; a policy is here one truth value per bit. The CFS queue is a sorted list of
nodes from a pool of 256. Its nodes are in use exactly while they are linked, so
the queue is modelled as the list of its (process, key) pairs, and the pool as the
bound on its length. The deadline nodes are in use without being linked, and are
modelled with their links.

Not modelled: the lock, `in_schedule`, and what `schedule` does to the machine (FPU
state, CR3, TSS, stacks), none of which the queues depend on in one thread of
calls, and the hook `g_aio_tick_fn`, which belongs to the I/O layer.
-/

set_option autoImplicit false

namespace FunsOS.Sched

open Foundation
open Function (update)

universe u

/-! ## Processes -/

/-- `pcb_t.state`. -/
inductive ProcState where
  | unused
  | ready
  | running
  | blocked
  | zombie
  deriving DecidableEq, Repr

/-- The flag bits of `sched_policy`. -/
structure Policy where
  realTime : Bool
  normal : Bool
  idle : Bool
  cfs : Bool
  deadline : Bool
  batch : Bool
  idlePrio : Bool
  deriving DecidableEq, Repr

/-- A policy word without any flag. -/
def Policy.none : Policy := ⟨false, false, false, false, false, false, false⟩

/-- `PROCESS_REAL_TIME`. -/
def Policy.realTimeOnly : Policy := { Policy.none with realTime := true }

/-- `PROCESS_NORMAL`. -/
def Policy.normalOnly : Policy := { Policy.none with normal := true }

/-- `PROCESS_IDLE`. -/
def Policy.idleOnly : Policy := { Policy.none with idle := true }

/-- `PROCESS_CFS`. -/
def Policy.cfsOnly : Policy := { Policy.none with cfs := true }

/-- `PROCESS_DEADLINE`. -/
def Policy.deadlineOnly : Policy := { Policy.none with deadline := true }

/-- Why a process is blocked; only sleeping is told apart. -/
inductive BlockReason where
  | none
  | sleep
  | other (reason : Nat)
  deriving DecidableEq, Repr

/-- `SCHED_PRIORITY_MAX`. -/
def priorityMax : Nat := 100

/-- `SCHED_DEFAULT_PRIORITY`. -/
def defaultPriority : Nat := 50

/-- `SCHED_BOOST_INTERVAL`. -/
def boostInterval : Nat := 500

def cfsMaxProcs : Nat := 256

/-- `sched_min_granularity`, `sched_latency` and `sched_wakeup_granularity`. -/
def minGranularity : Nat := 10

@[inherit_doc minGranularity]
def latency : Nat := 20

@[inherit_doc minGranularity]
def wakeupGranularity : Nat := 4

/-- The number of 64-bit words. -/
def wordLimit64 : Nat := 2 ^ 64

/-- There are two RT queues. -/
scoped instance neZeroTwo : NeZero 2 := ⟨by decide⟩

/-- There are eight MLFQ queues. -/
scoped instance neZeroEight : NeZero 8 := ⟨by decide⟩

/-- One of the RT or MLFQ queues. -/
inductive QueueId where
  | rt (level : Fin 2)
  | mlfq (level : Fin 8)
  deriving DecidableEq, Repr

/-- `deadline_params_t`, and the process of the node. -/
structure DlNode (α : Type u) where
  proc : α
  runtime : Nat
  deadline : Nat
  period : Nat
  remainingRuntime : Nat
  currentDeadline : Nat
  active : Bool

/-- The scheduler's state. -/
structure SchedState (α : Type u) where
  -- the processes
  state : α → ProcState
  policy : α → Policy
  priority : α → Nat
  originalPriority : α → Nat
  effectivePriority : α → Nat
  queueLevel : α → Nat
  timeSlice : α → Nat
  ticksUsed : α → Nat
  cpuTime : α → Nat
  lastRunTime : α → Nat
  wakeTime : α → Nat
  blockedReason : α → BlockReason
  vruntime : α → Nat
  execStart : α → Nat
  needResched : α → Bool
  queueNext : α → Option α
  queuePrev : α → Option α
  next : α → Option α
  prev : α → Option α
  -- the queues
  head : QueueId → Option α
  tail : QueueId → Option α
  count : QueueId → Nat
  processList : Option α
  current : Option α
  idleTask : Option α
  tickCount : Nat
  -- the CFS queue
  cfsNodes : List (α × Nat)
  cfsCurr : Option α
  cfsMinVruntime : Nat
  cfsNrRunning : Nat
  -- the deadline queue
  dlNode : Fin 64 → Option (DlNode α)
  dlNext : Fin 64 → Option (Fin 64)
  dlPrev : Fin 64 → Option (Fin 64)
  dlHead : Option (Fin 64)
  dlTail : Option (Fin 64)
  dlNrRunning : Nat
  dlRunningBw : Nat
  -- whether the operation has gone through `schedule`; the code has no such field
  scheduled : Bool

/-- `sched_init`, `sched_cfs_init` and `sched_dl_init`, over processes as they are.
The process list is empty. -/
def schedInit {α : Type u} (pcbs : SchedState α) : SchedState α :=
  { pcbs with
    head := fun _ => none, tail := fun _ => none, count := fun _ => 0
    processList := none, current := none, idleTask := none, tickCount := 0
    cfsNodes := [], cfsCurr := none, cfsMinVruntime := 0, cfsNrRunning := 0
    dlNode := fun _ => none, dlNext := fun _ => none, dlPrev := fun _ => none
    dlHead := none, dlTail := none, dlNrRunning := 0, dlRunningBw := 0
    scheduled := false }

variable {α : Type u} [DecidableEq α] (s : SchedState α)

def SchedState.setState (p : α) (state : ProcState) : SchedState α :=
  { s with state := update s.state p state }

/-! ## RT and MLFQ queues -/

def queueAdd (q : QueueId) (p : α) : SchedState α :=
  { s with
    queuePrev := update s.queuePrev p (s.tail q)
    queueNext := redirect (update s.queueNext p none) (s.tail q) (some p)
    head := update s.head q (restart (s.head q) (s.tail q) (some p))
    tail := update s.tail q (some p)
    count := update s.count q (s.count q + 1) }

/-- `queue_remove`, with its membership guard. -/
def queueRemove (q : QueueId) (p : α) : SchedState α :=
  if s.head q ≠ some p ∧ s.queuePrev p = none ∧ s.queueNext p = none then s
  else
    { s with
      queueNext := update (redirect s.queueNext (s.queuePrev p) (s.queueNext p)) p none
      queuePrev := update (redirect s.queuePrev (s.queueNext p) (s.queuePrev p)) p none
      head := update s.head q (restart (s.head q) (s.queuePrev p) (s.queueNext p))
      tail := update s.tail q (restart (s.tail q) (s.queueNext p) (s.queuePrev p))
      count := update s.count q (s.count q - 1) }

/-- `int rt_level = proc->priority / 50`, at most the last queue. -/
def rtLevel (priority : Nat) : Fin 2 := if priority / 50 = 0 then 0 else 1

/-- The MLFQ queue of a level, where the index is brought into range first. -/
def mlfqClamped (level : Nat) : QueueId := .mlfq ⟨min level 7, by omega⟩

/-- The MLFQ queue of a level, where the code indexes the array with it. -/
def mlfqAt (level : Nat) : Option QueueId :=
  if inRange : level < 8 then some (.mlfq ⟨level, inRange⟩) else none

/-- The queue `add_to_queue` uses for a process that is not CFS or DEADLINE. -/
def SchedState.selected (p : α) : QueueId :=
  if (s.policy p).realTime then .rt (rtLevel (s.priority p)) else mlfqClamped (s.queueLevel p)

/-- Take a process out of the RT queue of its priority or the MLFQ queue of its
level, as `sched_remove`, `sched_block`, `sched_set_priority` and others do. An
index out of range stops the model. -/
def removeSelected (p : α) : Option (SchedState α) :=
  if (s.policy p).realTime then some (queueRemove s (.rt (rtLevel (s.priority p))) p)
  else (mlfqAt (s.queueLevel p)).map fun q => queueRemove s q p

/-! ## The CFS queue -/

/-- The walk of `enqueue_entity` to the place of a key, and the insertion there. -/
def cfsInsert (node : α × Nat) : List (α × Nat) → List (α × Nat)
  | [] => [node]
  | curr :: rest => if curr.2 < node.2 then curr :: cfsInsert node rest else node :: curr :: rest

/-- The key `enqueue_entity` gives a process. -/
def cfsKey (p : α) : Nat :=
  if s.cfsMinVruntime < s.vruntime p then s.vruntime p else s.cfsMinVruntime

/-- The `need_resched` updates of `enqueue_entity`: by `wakeup_preempt`, or by the
node's key. -/
def cfsPreempt (p : α) : SchedState α :=
  match s.cfsCurr with
  | none => s
  | some c =>
    if c ≠ p ∧ ((s.vruntime p + wakeupGranularity) % wordLimit64 < s.vruntime c ∨
        (cfsKey s p + wakeupGranularity) % wordLimit64 < s.vruntime c) then
      { s with needResched := update s.needResched c true }
    else s

/-- `enqueue_entity`. Without a free node it does nothing. -/
def enqueueEntity (p : α) : SchedState α :=
  if s.cfsNodes.length = cfsMaxProcs then s
  else
    cfsPreempt
      { s with
        cfsNodes := cfsInsert (p, cfsKey s p) s.cfsNodes
        execStart := update s.execStart p s.tickCount
        cfsNrRunning := s.cfsNrRunning + 1 } p

/-- `sched_cfs_dequeue`: the first node goes. `pick_next_entity` returns its process
in all cases, and `cfs_find_node` finds the first node of that process, which is
this one. -/
def schedCfsDequeue : SchedState α :=
  match s.cfsNodes with
  | [] => s
  | node :: rest =>
    if s.cfsNrRunning = 0 then s
    else
      { s with
        cfsNodes := rest
        cfsMinVruntime := if s.cfsMinVruntime < node.2 then node.2 else s.cfsMinVruntime
        cfsNrRunning := s.cfsNrRunning - 1 }

/-! ## The deadline queue -/

/-- `dl_find_node`: the walk over the linked nodes. -/
def dlFindNode (s : SchedState α) (p : α) : Nat → Option (Fin 64) → Option (Option (Fin 64))
  | 0, _ => none
  | _ + 1, none => some none
  | fuel + 1, some n =>
    if (s.dlNode n).map DlNode.proc = some p then some (some n)
    else dlFindNode s p fuel (s.dlNext n)

/-- The walk of `dl_insert_sorted` to the place of a deadline. -/
def dlPlace (s : SchedState α) (deadline : Nat) :
    Nat → Option (Fin 64) → Option (Fin 64) → Option (Option (Fin 64) × Option (Fin 64))
  | 0, _, _ => none
  | _ + 1, prev, none => some (prev, none)
  | fuel + 1, prev, some n =>
    if ((s.dlNode n).map DlNode.currentDeadline).getD 0 ≤ deadline then
      dlPlace s deadline fuel (some n) (s.dlNext n)
    else some (prev, some n)

def dlInsertSorted (n : Fin 64) : Option (SchedState α) :=
  (dlPlace s (((s.dlNode n).map DlNode.currentDeadline).getD 0) 65 none s.dlHead).map
    fun (prev, curr) =>
      { s with
        dlPrev := redirect (update s.dlPrev n prev) curr (some n)
        dlNext := redirect (update s.dlNext n curr) prev (some n)
        dlHead := restart s.dlHead prev (some n)
        dlTail := restart s.dlTail curr (some n) }

def DlNode.refresh (node : DlNode α) (tickCount : Nat) : DlNode α :=
  if node.remainingRuntime = 0 then
    { node with
      remainingRuntime := node.runtime, active := true
      currentDeadline := (tickCount + node.deadline) % wordLimit64 }
  else { node with active := true }

def schedDlEnqueue (p : α) : Option (SchedState α) :=
  (dlFindNode s p 65 s.dlHead).bind fun
    | none => some s
    | some n =>
      (dlInsertSorted { s with
        dlNode := update s.dlNode n ((s.dlNode n).map (·.refresh s.tickCount)) } n).map
        fun s => { s with dlNrRunning := s.dlNrRunning + 1 }

def schedDlDequeue : SchedState α :=
  match s.dlHead with
  | none => s
  | some n =>
    { s with
      dlHead := s.dlNext n
      dlTail := if s.dlNext n = none then none else s.dlTail
      dlPrev := update (redirect s.dlPrev (s.dlNext n) none) n none
      dlNext := update s.dlNext n none
      dlNrRunning := s.dlNrRunning - 1 }

def schedDlTick (p : α) : Option (SchedState α) :=
  (dlFindNode s p 65 s.dlHead).map fun
    | none => s
    | some n =>
      match s.dlNode n with
      | none => s
      | some node =>
        let remaining := (node.remainingRuntime + (wordLimit64 - 1)) % wordLimit64
        let node := { node with remainingRuntime := remaining }
        if remaining = 0 then
          { s with
            dlNode := update s.dlNode n (some { node with active := false })
            needResched := update s.needResched p true }
        else { s with dlNode := update s.dlNode n (some node) }

end FunsOS.Sched
