import FunsOS.Sched.Careful

/-!
# The ready queues

For processes of the NORMAL and REAL_TIME policies the scheduler keeps its queues in
order (`ready_queues`): in every state the RT and MLFQ queues are doubly linked lists
with the right counts, a READY process of the process list is linked once, in the queue
that its policy, priority and level select, and a running or blocked process is linked
nowhere.

The operations are those of `sched.h` for these policies, with the creation of the idle
task and the adoption of a process as the current one. A process is given to
`sched_add` once and before other operations, and to `sched_remove` once, while it is
not running. With no process of the CFS policy about, such operations are careful.
`sched_remove` leaves the links of the process as they are, so that a second call puts a
neighbour back that was removed in between (`removed_process_comes_back`).
-/

set_option autoImplicit false

namespace FunsOS.Sched

open Foundation

universe u

variable {α : Type u} [DecidableEq α] [Fintype α] {m : Machine α}

/-- Every queue is a doubly linked list with its count; a READY process of the process
list is linked once, in the queue it selects; a running or blocked process is linked
nowhere. -/
def ReadyQueues (s : SchedState α) : Prop :=
  ∃ (q : QueueId → List α) (ps : List α),
    (∀ i, Dll s.queueNext s.queuePrev (s.head i) (s.tail i) (q i) ∧ s.count i = (q i).length) ∧
    Seg s.next s.processList ps none ∧
    (∀ p ∈ ps, s.state p = .ready → ∀ i, (q i).count p = if i = s.selected p then 1 else 0) ∧
    ∀ p, s.state p = .running ∨ s.state p = .blocked → ∀ i, p ∉ q i

/-- The operations for processes of the NORMAL and REAL_TIME policies. -/
def NormalOrRealTime (m : Machine α) (op : Op α) : Prop :=
  (∀ p, m.sched.idleTask = some p → op.subject ≠ some p) ∧
    match op with
    | .add p => m.life p = .new
    | .remove p => m.life p = .listed ∧ m.sched.state p ≠ .running
    | .setPolicy _ policy => policy = .normalOnly ∨ policy = .realTimeOnly
    | .createIdleTask p => m.life p = .new ∧ m.sched.idleTask = none
    | .tick | .schedule | .block _ _ | .unblock _ | .setPriority _ _ | .yield | .sleep _
    | .wakeupSleepers | .setCurrent _ | .exiting => True
    | _ => False

instance (m : Machine α) : ∀ op : Op α, Decidable (NormalOrRealTime m op)
  | .add _ | .remove _ | .setPolicy _ _ | .createIdleTask _ =>
    inferInstanceAs (Decidable (_ ∧ _))
  | .tick | .schedule | .block _ _ | .unblock _ | .setPriority _ _ | .yield | .sleep _
  | .wakeupSleepers | .setCurrent _ | .exiting => inferInstanceAs (Decidable (_ ∧ True))
  | .cfsEnqueue _ | .cfsDequeue | .cfsTick _ | .setPolicyCfs _ | .setPolicyDeadline _ _ _ _
  | .dlEnqueue _ | .dlDequeue | .dlTick _ | .batchAdd _ _ => inferInstanceAs (Decidable (_ ∧ False))

/-- If no process has the CFS policy, all select an RT or MLFQ queue. -/
theorem CfsOk.route_of_zero {s : SchedState α} {out : Option α} (ok : CfsOk 0 s out) {p : α} :
    (s.policy p).route = .queue := by
  cases route : (s.policy p).route with
  | queue => rfl
  | cfs =>
    have empty := Finset.card_eq_zero.mp (Nat.le_zero.mp ok.room)
    have member : p ∈ cfsProcs s := by simp [cfsProcs, route]
    simp [empty] at member
  | deadline => exact absurd route (ok.noDeadline p)

/-- With no process of the CFS policy, the operations are careful. -/
theorem NormalOrRealTime.careful {op : Op α} (orderly : Orderly 0 m)
    (allowed : NormalOrRealTime m op) : Careful 0 m op := by
  obtain ⟨ps, ⟨q, placed⟩, -⟩ := orderly
  obtain ⟨notIdle, allowed⟩ := allowed
  have noCfs : ∀ p, (m.sched.policy p).route ≠ .cfs := fun p => by
    rw [placed.cfs.route_of_zero]
    decide
  have notWaiting : ∀ p, ¬ m.sched.inCfs p := fun p waiting => noCfs p waiting.2
  have work : ∀ leaving, Work m.sched leaving := fun _ =>
    .inl fun p isCfs => absurd isCfs (noCfs p)
  refine ⟨notIdle, ?_⟩
  cases op with
  | add | createIdleTask => exact allowed
  | remove p => exact allowed.1
  | tick | schedule | yield => exact work none
  | block p reason => exact ⟨notWaiting p, fun _ => work _⟩
  | unblock | wakeupSleepers | exiting => exact trivial
  | setPriority p priority => exact notWaiting p
  | sleep milliseconds => exact work _
  | setPolicy p policy =>
    rcases allowed with rfl | rfl
    all_goals exact ⟨by decide, by decide, fun waiting => absurd waiting (notWaiting p), nofun⟩
  | setCurrent p =>
    cases p with
    | none => exact trivial
    | some p => exact notWaiting p
  | _ => exact absurd allowed id

/-- The invariant of the machine says that the ready queues are in order. -/
theorem Orderly.readyQueues (orderly : Orderly 0 m) : ReadyQueues m.sched := by
  obtain ⟨ps, ⟨q, placed⟩, -⟩ := orderly
  refine ⟨q, ps, fun i => ⟨placed.queues.lists i, placed.queues.count i⟩, placed.list.forward,
    fun p listed ready i => ?_, fun p notReady i member => ?_⟩
  · have member := placed.covered p listed (by simp) ready placed.cfs.route_of_zero
    split
    case isTrue here =>
      subst here
      exact List.count_eq_one_of_mem (placed.queues.lists _).nodup member
    case isFalse elsewhere =>
      refine List.count_eq_zero_of_not_mem fun other => elsewhere ?_
      exact (placed.queues.home i p other).2.2
  · have ready := (placed.queues.home i p member).1
    rcases notReady with running | blocked
    · simp [ready] at running
    · simp [ready] at blocked

/-- **The ready queues are in order in every state** that the operations for NORMAL and
REAL_TIME processes reach, and no operation gets stuck. -/
theorem ready_queues {pcbs : SchedState α}
    (links : ∀ p, pcbs.queueNext p = none ∧ pcbs.queuePrev p = none)
    (level : ∀ p, pcbs.queueLevel p < 8)
    (policy : ∀ p, pcbs.policy p = .normalOnly ∨ pcbs.policy p = .realTimeOnly)
    {ops : List (Op α)} (meets : MeetsPartial step NormalOrRealTime (start pcbs) ops) :
    Returns (runPartial step (start pcbs) ops) fun m => ReadyQueues m.sched := by
  have created : Created pcbs := by
    have usual : ∀ p, (pcbs.policy p).Clean ∧ (pcbs.policy p).route = .queue := by
      intro p
      rcases policy p with same | same <;> rw [same] <;> decide
    exact ⟨links, level, fun p => (usual p).1, fun p => (usual p).2⟩
  have reached := meets.invariant (P := Orderly 0)
    (fun m op orderly allowed => step_keeps orderly (allowed.careful orderly))
    (orderly_start created (Nat.zero_le _))
  exact reached.mono fun m orderly => orderly.readyQueues

/-- Two processes next to the idle task: one becomes real-time, preempts the other at a
tick, sleeps, and the other exits. -/
theorem ready_queues_two_processes :
    Returns (runPartial step (start (createProcessCommon (Fin 3)))
      [.createIdleTask 0, .add 1, .setCurrent (some 1), .add 2, .setPolicy 2 .realTimeOnly,
        .yield, .setPriority 1 30, .sleep 10, .exiting, .remove 1, .schedule, .tick])
      fun m => ReadyQueues m.sched :=
  ready_queues (fun _ => ⟨rfl, rfl⟩) (fun _ => Nat.zero_lt_succ 7) (fun _ => .inl rfl) (by decide)

/-- Process 1 is removed from between the others and then once more, after process 0: 0 is
READY in the process list again, and in no queue. -/
theorem removed_process_comes_back :
    ∃ m, runPartial step (start (createProcessCommon (Fin 3)))
        [.add 0, .add 1, .add 2, .remove 1, .remove 0, .remove 1] = some m ∧
      ¬ ReadyQueues m.sched := by
  have last : (runPartial step (start (createProcessCommon (Fin 3)))
      [.add 0, .add 1, .add 2, .remove 1, .remove 0, .remove 1]).map (fun m =>
        ((m.sched.processList, m.sched.next 2, m.sched.next 0),
          (m.sched.state 0, m.sched.selected 0),
          (m.sched.head (.mlfq 0), m.sched.queueNext 2))) =
      some ((some 2, some 0, none), (.ready, .mlfq 0), (some 2, none)) := by decide
  obtain ⟨m, ran, facts⟩ := Option.map_eq_some_iff.mp last
  simp only [Prod.mk.injEq] at facts
  obtain ⟨⟨list, next, end_⟩, ⟨ready, selected⟩, head, alone⟩ := facts
  refine ⟨m, ran, ?_⟩
  rintro ⟨q, ps, queues, seg, linked, -⟩
  have isList : ps = [2, 0] := seg.unique_of_none ⟨list, next, end_⟩
  have isQueue : q (.mlfq 0) = [2] := (queues _).1.forward.unique_of_none ⟨head, alone⟩
  have once := linked 0 (by simp [isList]) ready (.mlfq 0)
  rw [isQueue, selected] at once
  exact absurd once (by decide)

/-!
## Work conservation

A READY process of the CFS or DEADLINE policy should be in its policy's run queue
exactly once, and `schedule` should make the idle task current only when no process of
the process list is READY.

The scheduler does not keep this: `pick_next_process` looks at the RT and MLFQ queues
only, so `schedule` idles while a CFS process waits (`idles_while_cfs_waits`). Operations
that take a process out of a queue lose it or queue it twice when it has the CFS policy,
and `sched_dl_enqueue` searches for the process's node among the nodes that are already
linked, so that no process ever gets into the deadline queue. In runs that are careful
of all this (`Careful`), work is conserved (`work_conserving`).
-/

/-- READY processes of the CFS and DEADLINE policies are in their run queue once, and if
the operation went through `schedule` and the idle task is current, no process of the
process list is READY. -/
structure WorkConserving (s : SchedState α) : Prop where
  cfs : ∀ p, s.state p = .ready → (s.policy p).route = .cfs → (s.cfsNodes.map Prod.fst).count p = 1
  deadline : ∀ p, s.state p = .ready → (s.policy p).route = .deadline →
    ∃ nodes, Seg s.dlNext s.dlHead nodes none ∧
      (nodes.filterMap fun n => (s.dlNode n).map DlNode.proc).count p = 1
  idle : s.scheduled → ∀ task, s.current = some task → s.idleTask = some task →
    ∀ ps, Seg s.next s.processList ps none → ∀ p ∈ ps, s.state p ≠ .ready

/-- A process of the CFS policy waits, and the tick makes the idle task current. -/
theorem idles_while_cfs_waits :
    ∃ m, runPartial step (start (createProcessCommon (Fin 2)))
        [.createIdleTask 0, .add 1, .setPolicyCfs 1, .tick] = some m ∧
      ¬ WorkConserving m.sched := by
  refine ⟨_, rfl, fun conserving => ?_⟩
  exact conserving.idle rfl 0 rfl rfl [1] ⟨rfl, rfl⟩ 1 (List.mem_singleton_self 1) rfl

theorem Orderly.workConserving {limit : Nat} (orderly : Orderly limit m) :
    WorkConserving m.sched := by
  obtain ⟨ps, ⟨q, placed⟩, -, justified⟩ := orderly
  constructor
  case cfs =>
    intro p ready route
    rw [placed.cfs.once p, if_pos ⟨by simp, ready, route⟩]
  case deadline => exact fun p _ route => absurd route (placed.cfs.noDeadline p)
  case idle =>
    intro scheduled task isCurrent isIdle listed seg p member
    have same : listed = ps := seg.unique_of_none placed.list.forward
    exact justified scheduled task isCurrent isIdle p (same ▸ member)

/-- **Careful runs conserve work.** -/
theorem work_conserving {pcbs : SchedState α} (created : Created pcbs) {ops : List (Op α)}
    (meets : MeetsPartial step (Careful cfsMaxProcs) (start pcbs) ops) :
    Returns (runPartial step (start pcbs) ops) fun m => WorkConserving m.sched := by
  have reached := meets.invariant (P := Orderly cfsMaxProcs)
    (fun m op orderly careful => step_keeps orderly careful)
    (orderly_start created (Nat.le_refl _))
  exact reached.mono fun m orderly => orderly.workConserving

/-- A CFS process waits, and goes back to the NORMAL policy before the other one blocks. -/
theorem work_conserving_with_cfs :
    Returns (runPartial step (start (createProcessCommon (Fin 3)))
      [.createIdleTask 0, .add 1, .add 2, .setPolicyCfs 1, .tick, .yield, .setPriority 2 20,
        .setPolicyDeadline 1 5 3 10, .setPolicy 1 .normalOnly, .block 2 .none, .tick])
      fun m => WorkConserving m.sched :=
  work_conserving
    ⟨fun _ => ⟨rfl, rfl⟩, fun _ => Nat.zero_lt_succ 7, fun _ _ => ⟨rfl, rfl, rfl⟩, fun _ => rfl⟩
    (by decide)

end FunsOS.Sched
