import FunsOS.Sched.Steps

/-!
# Careful runs of the scheduler

`Careful limit m op` is a condition on an operation and the state it starts from, and
`step_keeps` says that a careful step returns and keeps the invariant. The condition
asks most of the operations on processes of the CFS policy, and of calls of `schedule`
while such a process may have to run. Of RT and MLFQ processes it only asks that a
process is added before another operation is given it, and removed while it is in the
list.
-/

set_option autoImplicit false

namespace FunsOS.Sched

open Foundation

universe u

variable {α : Type u} [DecidableEq α] [Fintype α] {limit : Nat}

/-- The operation is one that the code carries out rightly. -/
def Handled (limit : Nat) (m : Machine α) : Op α → Prop
  | .add p => m.life p = .new
  | .remove p => m.life p = .listed
  | .tick | .schedule | .yield => Work m.sched none
  | .sleep _ => Work m.sched m.sched.current
  | .block p _ => ¬ m.sched.inCfs p ∧ (m.sched.state p = .running → Work m.sched (some p))
  | .setPriority p _ => ¬ m.sched.inCfs p
  | .setPolicy p policy =>
    policy.Clean ∧ policy.route ≠ .deadline ∧
      (m.sched.inCfs p → m.sched.cfsNodes.head?.map Prod.fst = some p) ∧
      (policy.route = .cfs → ((cfsProcs m.sched).erase p).card < limit)
  | .setCurrent (some p) => ¬ m.sched.inCfs p
  | .createIdleTask p => m.life p = .new ∧ m.sched.idleTask = none
  | .cfsEnqueue _ => m.sched.cfsNodes.length = cfsMaxProcs
  | .cfsDequeue => m.sched.cfsNodes = []
  | .cfsTick p => (m.sched.policy p).route = .cfs ∧ Work m.sched none
  | .setPolicyCfs p =>
    (m.sched.state p = .ready → (m.sched.policy p).route = .queue ∧
      ((m.sched.policy p).realTime ∨ (m.sched.policy p).normal ∨
        (m.sched.policy p).batch ∨ (m.sched.policy p).idlePrio)) ∧
      ((cfsProcs m.sched).erase p).card < limit
  | .setPolicyDeadline _ runtime deadline period =>
    runtime = 0 ∨ deadline = 0 ∨ period = 0 ∨ period < deadline ∨ deadline < runtime
  | .batchAdd p priority => priority < priorityMax → ¬ m.sched.inCfs p
  | .unblock _ | .setCurrent none | .wakeupSleepers | .dlEnqueue _ | .dlDequeue | .dlTick _
  | .exiting => True

instance (limit : Nat) (m : Machine α) (op : Op α) : Decidable (Handled limit m op) := by
  cases op with
  | setCurrent p => cases p <;> unfold Handled <;> infer_instance
  | _ => unfold Handled; infer_instance

/-- A condition on an operation and the state it starts from. Only
`sched_create_idle_task` is given the idle task. -/
def Careful (limit : Nat) (m : Machine α) (op : Op α) : Prop :=
  (∀ p, m.sched.idleTask = some p → op.subject ≠ some p) ∧ Handled limit m op
deriving Decidable

def Orderly (limit : Nat) (m : Machine α) : Prop := ∃ ps, Kept limit m.life ps m.sched

/-- **A careful step returns and keeps the invariant.** -/
theorem step_keeps {m : Machine α} {op : Op α} (orderly : Orderly limit m)
    (careful : Careful limit m op) : Returns (step m op) (Orderly limit) := by
  obtain ⟨ps, kept⟩ := orderly
  obtain ⟨idle, handled⟩ := careful
  let s : SchedState α := { m.sched with scheduled := false }
  have start : Kept limit m.life ps s := by
    obtain ⟨q, placed⟩ := kept.1
    refine ⟨⟨q, placed.congr (by repeat' constructor) fun _ => ⟨rfl, rfl, rfl, rfl⟩⟩, kept.2.1, ?_⟩
    rintro ⟨⟩
  have given := start.given op.subject
  have known : ∀ p, op.subject = some p → touch m.life op.subject p ≠ .new := by
    rintro p isSubject
    rw [isSubject]
    exact touch_ne_new m.life p
  have notIdle : ∀ p, op.subject = some p → s.idleTask ≠ some p := fun p isSubject isIdle =>
    idle p isIdle isSubject
  have finish : ∀ {ps'}, Returns (run s op) (Kept limit (track m.life op) ps') →
      Returns (step m op) (Orderly limit) := fun returns => returns.map fun _ final => ⟨_, final⟩
  have stays : Kept limit (track m.life op) ps s → run s op = some s → Returns (step m op) (Orderly limit) :=
    fun final same => finish (same ▸ Returns.of_some final)
  cases op with
  | add p => exact finish (start.add_returns rfl handled)
  | remove p => exact finish (start.remove_returns rfl handled)
  | tick => exact finish (given.tick_returns handled rfl)
  | schedule =>
    obtain ⟨⟨q, placed⟩, holder, -⟩ := given
    exact finish (placed.schedule_returns (fun x isCurrent => (holder x isCurrent).1) handled)
  | block p reason =>
    exact finish (given.block_returns rfl (known p rfl) handled.1 handled.2)
  | unblock p => exact finish (given.unblock_returns rfl (known p rfl) (notIdle p rfl))
  | setPriority p priority =>
    exact finish (given.setPriority_returns rfl (known p rfl) (notIdle p rfl) handled)
  | yield => exact finish (given.yield_returns handled)
  | sleep milliseconds => exact finish (given.sleep_returns rfl handled)
  | wakeupSleepers =>
    exact finish (given.midway.wakeup_returns.mono fun _ midway => midway.kept rfl)
  | setPolicy p policy =>
    obtain ⟨clean, notDeadline, first, room⟩ := handled
    exact finish (given.setPolicy_returns rfl (known p rfl) (notIdle p rfl) clean notDeadline
      first room)
  | setCurrent p =>
    cases p with
    | none => exact finish (Returns.of_some (given.setCurrent_none_keeps rfl))
    | some p => exact finish (Returns.of_some (given.setCurrent_keeps rfl (known p rfl) handled))
  | createIdleTask p =>
    exact finish (Returns.of_some (start.createIdleTask_keeps rfl handled.1 handled.2))
  | cfsEnqueue p => exact stays given (congrArg some (if_pos handled))
  | cfsDequeue =>
    refine stays given (congrArg some ?_)
    have empty : s.cfsNodes = [] := handled
    rw [schedCfsDequeue, empty]
  | cfsTick p =>
    exact finish (given.cfsTick_returns rfl (known p rfl) (notIdle p rfl) handled.1 handled.2)
  | setPolicyCfs p =>
    exact finish (given.setPolicyCfs_returns rfl (known p rfl) (notIdle p rfl) handled.1 handled.2)
  | setPolicyDeadline p runtime deadline period => exact stays given (if_pos handled)
  | dlDequeue =>
    obtain ⟨q, placed⟩ := given.1
    refine stays given (congrArg some ?_)
    rw [schedDlDequeue, placed.queues.dlEmpty]
  | dlEnqueue p | dlTick p =>
    obtain ⟨q, placed⟩ := given.1
    refine stays given ?_
    simp only [run, schedDlEnqueue, schedDlTick, placed.queues.dlEmpty]
    rfl
  | batchAdd p priority =>
    exact finish (given.batchAdd_returns rfl (known p rfl) (notIdle p rfl) handled)
  | exiting => exact finish (Returns.of_some (given.markZombie_keeps rfl))

/-! ## The start -/

/-- The processes before `sched_init`: not linked, with a level in range, and of a policy
that selects an RT or MLFQ queue. -/
structure Created (pcbs : SchedState α) : Prop where
  unlinked : ∀ p, pcbs.queueNext p = none ∧ pcbs.queuePrev p = none
  level : ∀ p, pcbs.queueLevel p < 8
  clean : ∀ p, (pcbs.policy p).Clean
  route : ∀ p, (pcbs.policy p).route = .queue

/-- The processes as `create_process_common` leaves them; `kcalloc` has cleared the other
fields. -/
def createProcessCommon (α : Type u) : SchedState α :=
  { state := fun _ => .ready, policy := fun _ => .normalOnly
    priority := fun _ => defaultPriority, originalPriority := fun _ => defaultPriority
    effectivePriority := fun _ => defaultPriority, queueLevel := fun _ => 0
    timeSlice := fun _ => 10 + defaultPriority * 10 / priorityMax
    ticksUsed := fun _ => 0, cpuTime := fun _ => 0, lastRunTime := fun _ => 0
    wakeTime := fun _ => 0, blockedReason := fun _ => .none, vruntime := fun _ => 0
    execStart := fun _ => 0, needResched := fun _ => false
    queueNext := fun _ => none, queuePrev := fun _ => none
    next := fun _ => none, prev := fun _ => none
    head := fun _ => none, tail := fun _ => none, count := fun _ => 0
    processList := none, current := none, idleTask := none, tickCount := 0
    cfsNodes := [], cfsCurr := none, cfsMinVruntime := 0, cfsNrRunning := 0
    dlNode := fun _ => none, dlNext := fun _ => none, dlPrev := fun _ => none
    dlHead := none, dlTail := none, dlNrRunning := 0, dlRunningBw := 0
    scheduled := false }

/-- The machine after `sched_init`. -/
def start (pcbs : SchedState α) : Machine α := ⟨schedInit pcbs, fun _ => .new⟩

theorem orderly_start {pcbs : SchedState α} (created : Created pcbs) (bound : limit ≤ cfsMaxProcs) :
    Orderly limit (start pcbs) := by
  have notWaiting : ∀ p, ¬ (schedInit pcbs).inCfs p := fun p waiting => by
    have route : (pcbs.policy p).route = .cfs := waiting.2
    simp [created.route p] at route
  have noCfs : cfsProcs (schedInit pcbs) = ∅ := by
    refine Finset.filter_eq_empty_iff.mpr fun p _ isCfs => ?_
    have route : (pcbs.policy p).route = .cfs := isCfs
    simp [created.route p] at route
  have placed : Placed limit (fun _ => .new) (schedInit pcbs) (fun _ => []) [] none := by
    constructor
    case queues =>
      exact ⟨fun _ => dll_nil, fun _ => rfl, by simp, fun p _ => created.unlinked p,
        created.level, created.clean, rfl⟩
    case cfs =>
      refine ⟨fun p => ?_, rfl, bound, by simp [noCfs], fun p isDeadline => ?_⟩
      · simp only [notWaiting p, and_false, if_false]
        rfl
      · have route : (pcbs.policy p).route = .deadline := isDeadline
        simp [created.route p] at route
    case covered => simp
    case apart => simp
    case fresh => exact fun p _ => ⟨by simp, notWaiting p⟩
    case idle =>
      intro p isIdle
      cases isIdle
    case list => exact dll_nil
    case listed => simp
  refine ⟨[], ⟨_, placed⟩, ?_, ?_⟩
  · intro p isCurrent
    cases isCurrent
  · intro scheduled
    cases scheduled

end FunsOS.Sched
