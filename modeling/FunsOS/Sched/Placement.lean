import FunsOS.Foundation.Runs
import FunsOS.Sched.Queues

/-!
# Every process in its place

`Placed limit life s q ps out` is the invariant of the scheduler: the RT and MLFQ queues
hold the lists `q`, the process list holds `ps`, the CFS queue holds the READY
processes of the CFS policy, and every READY process of the process list whose policy
selects an RT or MLFQ queue is in the queue it selects. One process `out` may be
exempt, while an operation has it in its hands; it is then in no queue.

An operation of the scheduler takes a process out (`Placed.take`, `Placed.exclude`),
changes its fields (`Placed.change`), and puts it back (`Placed.addToQueue`) or leaves
it outside when it need not be queued (`Placed.settle`).
-/

set_option autoImplicit false

namespace FunsOS.Sched

open Foundation Function SchedState

universe u

variable {α : Type u} {s s' : SchedState α}
  {q : QueueId → List α} {ps : List α} {p : α} {out : Option α} {life life' : α → Life}
  {limit : Nat}

/-- Some RT or MLFQ queue holds a process. -/
def SchedState.busy (s : SchedState α) : Prop :=
  (∃ level, s.head (.rt level) ≠ none) ∨ ∃ level, s.head (.mlfq level) ≠ none
deriving Decidable

theorem QueuesOk.busy_iff (ok : QueuesOk s q) : s.busy ↔ ∃ i, q i ≠ [] := by
  have heads : ∀ i, s.head i ≠ none ↔ q i ≠ [] := fun i => by
    rw [(ok.lists i).head_eq, ne_eq, List.head?_eq_none_iff]
  constructor
  · rintro (⟨level, held⟩ | ⟨level, held⟩)
    · exact ⟨_, (heads _).mp held⟩
    · exact ⟨_, (heads _).mp held⟩
  · rintro ⟨level | level, held⟩
    · exact .inl ⟨level, (heads _).mpr held⟩
    · exact .inr ⟨level, (heads _).mpr held⟩

theorem SameQueues.busy_iff (same : SameQueues s s') : s'.busy ↔ s.busy := by
  rw [busy, busy, same.head]

/-- The two states agree on all queues, the process list and the idle task. -/
structure Keeps (s s' : SchedState α) : Prop extends SameQueues s s' where
  next : s'.next = s.next
  prev : s'.prev = s.prev
  processList : s'.processList = s.processList
  idleTask : s'.idleTask = s.idleTask
  cfsNodes : s'.cfsNodes = s.cfsNodes
  cfsNrRunning : s'.cfsNrRunning = s.cfsNrRunning

variable [DecidableEq α]

theorem addToQueue_of_cfs (route : (s.policy p).route = .cfs) :
    addToQueue s p = some (enqueueEntity s p) := by
  unfold Policy.route at route
  unfold addToQueue
  split_ifs at route ⊢
  rfl

variable [Fintype α] {out' : Option α}

/-- Every process is in its place, except `out`. -/
structure Placed (limit : Nat) (life : α → Life) (s : SchedState α) (q : QueueId → List α) (ps : List α)
    (out : Option α) : Prop where
  queues : QueuesOk s q
  cfs : CfsOk limit s out
  covered : ∀ p ∈ ps, out ≠ some p → s.state p = .ready → (s.policy p).route = .queue →
    p ∈ q (s.selected p)
  apart : ∀ p, out = some p → ∀ i, p ∉ q i
  fresh : ∀ p, life p = .new → (∀ i, p ∉ q i) ∧ ¬ s.inCfs p
  idle : ∀ p, s.idleTask = some p → life p = .unlisted ∧ (s.policy p).route = .queue ∧ ∀ i, p ∉ q i
  list : Dll s.next s.prev s.processList ps.getLast? ps
  listed : ∀ p, p ∈ ps ↔ life p = .listed

/-- What the new fields of a process have to meet. -/
structure Admits (limit : Nat) (s s' : SchedState α) (p : α) : Prop where
  level : s'.queueLevel p < 8
  clean : (s'.policy p).Clean
  notDeadline : (s'.policy p).route ≠ .deadline
  room : (s'.policy p).route = .cfs → ((cfsProcs s).erase p).card < limit
  idle : s.idleTask = some p → (s'.policy p).route = .queue

/-- What selects the place of a process, apart from its state, is the same in both
states. -/
structure SameFields (s s' : SchedState α) : Prop where
  policy : s'.policy = s.policy
  priority : s'.priority = s.priority
  queueLevel : s'.queueLevel = s.queueLevel

/-! ## Changing fields -/

section

variable (placed : Placed limit life s q ps out)
include placed

/-- The queues change, the places of the processes and the process list do not. -/
theorem Placed.requeue {q' : QueueId → List α} (same : ∀ x, SamePlace s s' x)
    (list : s'.next = s.next ∧ s'.prev = s.prev ∧ s'.processList = s.processList)
    (idleTask : s'.idleTask = s.idleTask) (queues : QueuesOk s' q') (cfs : CfsOk limit s' out')
    (covered : ∀ x ∈ ps, out' ≠ some x → s.state x = .ready → (s.policy x).route = .queue →
      x ∈ q' (s.selected x)) (apart : ∀ x, out' = some x → ∀ i, x ∉ q' i)
    (absent : ∀ x, life x = .new ∨ s.idleTask = some x → (∀ i, x ∉ q i) → ∀ i, x ∉ q' i) :
    Placed limit life s' q' ps out' := by
  constructor
  case queues => exact queues
  case cfs => exact cfs
  case covered =>
    intro x listed
    rw [(same x).state, (same x).route, (same x).selected]
    exact covered x listed
  case apart => exact apart
  case fresh =>
    intro x isNew
    obtain ⟨outside, idle⟩ := placed.fresh x isNew
    rw [inCfs, (same x).state, (same x).route]
    exact ⟨absent x (.inl isNew) outside, idle⟩
  case idle =>
    intro x isIdle
    rw [idleTask] at isIdle
    obtain ⟨unlisted, route, outside⟩ := placed.idle x isIdle
    rw [(same x).route]
    exact ⟨unlisted, route, absent x (.inr isIdle) outside⟩
  case list =>
    rw [list.1, list.2.1, list.2.2]
    exact placed.list
  case listed => exact placed.listed

/-- Processes may change so long as they stay in their places. -/
theorem Placed.reselect (keeps : Keeps s s') (same : ∀ x, SamePlace s s' x)
    (level : ∀ x, s'.queueLevel x < 8) (clean : ∀ x, (s'.policy x).Clean) :
    Placed limit life s' q ps out :=
  placed.requeue same ⟨keeps.next, keeps.prev, keeps.processList⟩ keeps.idleTask
    (placed.queues.change keeps.toSameQueues (fun _ x _ => same x) level clean)
    (placed.cfs.congr keeps.cfsNodes keeps.cfsNrRunning same) placed.covered placed.apart
    fun _ _ outside => outside

/-- Fields that select no place may change. -/
theorem Placed.congr (keeps : Keeps s s') (same : ∀ x, SameProcess s s' x) :
    Placed limit life s' q ps out :=
  placed.reselect keeps (fun x => (same x).place)
    (fun x => (same x).queueLevel ▸ placed.queues.level x)
    fun x => (same x).policy ▸ placed.queues.clean x

theorem Placed.admits (level : s'.queueLevel p < 8) (policy : s'.policy p = s.policy p) :
    Admits limit s s' p where
  level
  clean := policy ▸ placed.queues.clean p
  notDeadline := policy ▸ placed.cfs.noDeadline p
  room := by
    intro isCfs
    have member : p ∈ cfsProcs s := by simp [cfsProcs, ← policy, isCfs]
    exact (Finset.card_erase_lt_of_mem member).trans_le placed.cfs.room
  idle := fun isIdle => policy ▸ (placed.idle p isIdle).2.1

/-- What has become of the processes may be recorded. -/
theorem Placed.relabel (new : ∀ x, life' x = .new → life x = .new)
    (listed : ∀ x, life' x = .listed ↔ life x = .listed)
    (unlisted : ∀ x, life x = .unlisted → life' x = .unlisted) : Placed limit life' s q ps out :=
  { placed with
    fresh := fun x isNew => placed.fresh x (new x isNew)
    idle := fun x isIdle =>
      let ⟨gone, rest⟩ := placed.idle x isIdle
      ⟨unlisted x gone, rest⟩
    listed := fun x => (placed.listed x).trans (listed x).symm }

/-- The CFS queue changes, the processes and the RT and MLFQ queues do not. -/
theorem Placed.ofCfs (frame : Frame s s') (queues : SameQueues s s') (cfs : CfsOk limit s' out')
    (covered : ∀ x ∈ ps, out' ≠ some x → s.state x = .ready → (s.policy x).route = .queue →
      x ∈ q (s.selected x)) (apart : ∀ x, out' = some x → ∀ i, x ∉ q i) :
    Placed limit life s' q ps out' := by
  have place := fun x => (frame.process x).place
  refine placed.requeue place frame.list frame.idleTask ?_ cfs covered apart fun _ _ outside =>
    outside
  exact placed.queues.change queues (fun _ x _ => place x)
    (fun x => (frame.process x).queueLevel ▸ placed.queues.level x)
    fun x => (frame.process x).policy ▸ placed.queues.clean x

/-- A process of the list, or one that no operation has been given, is not the idle task. -/
theorem Placed.notIdle (other : life p ≠ .unlisted) : s.idleTask ≠ some p := fun isIdle =>
  other (placed.idle p isIdle).1

/-- `queue_remove` where the index is not brought into range first. -/
theorem Placed.removeSelected_eq : removeSelected s p = some (queueRemove s (s.selected p) p) := by
  unfold removeSelected selected
  split_ifs
  · rfl
  · rw [mlfqAt_of_lt (placed.queues.level p)]
    rfl

end

/-! ## Taking a process out and putting it back -/

section

variable (placed : Placed limit life s q ps none)
include placed

/-- A process that is in no queue may be taken as exempt. -/
theorem Placed.exclude (absent : ∀ i, p ∉ q i) (notWaiting : ¬ s.inCfs p) :
    Placed limit life s q ps (some p) :=
  { placed with
    cfs := placed.cfs.shift notWaiting fun x other => by simp [Ne.symm other]
    covered := fun x member _ => placed.covered x member (by simp)
    apart := by
      rintro x same
      cases same
      exact absent }

theorem Placed.exclude_of_not_ready (notReady : s.state p ≠ .ready) :
    Placed limit life s q ps (some p) :=
  placed.exclude (fun i member => notReady (placed.queues.home i p member).1)
    fun waiting => notReady waiting.1

theorem Placed.take (notWaiting : ¬ s.inCfs p) :
    Placed limit life (queueRemove s (s.selected p) p) (leave q (s.selected p) p) ps (some p) := by
  have frame := frame_queueRemove s (s.selected p) p
  have member : ∀ {i x}, x ∈ leave q (s.selected p) p i ↔
      x ∈ q i ∧ ¬ (i = s.selected p ∧ x = p) := mem_leave (placed.queues.lists _).nodup
  have nodes : (queueRemove s (s.selected p) p).cfsNodes = s.cfsNodes ∧
      (queueRemove s (s.selected p) p).cfsNrRunning = s.cfsNrRunning := by
    unfold queueRemove
    split <;> exact ⟨rfl, rfl⟩
  have place := fun x => (frame.process x).place
  refine placed.requeue place frame.list frame.idleTask (queueRemove_ok placed.queues) ?_ ?_ ?_
    fun x _ outside i inside => outside i (member.mp inside).1
  · refine (placed.cfs.shift notWaiting fun x other => ?_).congr nodes.1 nodes.2 place
    simp [Ne.symm other]
  · intro x listed other ready route
    refine member.mpr ⟨placed.covered x listed (by simp) ready route, ?_⟩
    exact fun both => other (by rw [both.2])
  · rintro x same i inside
    cases same
    obtain ⟨old, elsewhere⟩ := member.mp inside
    exact elsewhere ⟨(placed.queues.home i p old).2.2, rfl⟩

/-- `sched_cfs_dequeue` takes a process out that is the first in the CFS queue. -/
theorem Placed.dequeue (waiting : s.inCfs p) (first : s.cfsNodes.head?.map Prod.fst = some p) :
    Placed limit life (schedCfsDequeue s) q ps (some p) := by
  refine placed.ofCfs (schedCfsDequeue_frame s).1 (schedCfsDequeue_frame s).2
    (placed.cfs.dequeue waiting first) (fun x listed _ => placed.covered x listed (by simp)) ?_
  intro x same i member
  cases same
  have route := (placed.queues.home i p member).2.1
  simp [waiting.2] at route

end

section

variable (placed : Placed limit life s q ps (some p))
include placed

/-- A process that need not be queued is no longer exempt. -/
theorem Placed.settle (notWaiting : ¬ s.inCfs p) (notReady : p ∈ ps → s.state p ≠ .ready) :
    Placed limit life s q ps none :=
  { placed with
    cfs := placed.cfs.shift notWaiting fun x other => by simp [Ne.symm other]
    covered := by
      intro x member _ ready route
      refine placed.covered x member ?_ ready route
      rintro same
      cases same
      exact notReady member ready
    apart := by simp }

theorem Placed.settle_of_not_ready (notReady : s.state p ≠ .ready) :
    Placed limit life s q ps none :=
  placed.settle (fun waiting => notReady waiting.1) fun _ => notReady

/-- `enqueue_entity` puts a process of the CFS policy back. -/
theorem Placed.enqueue (waiting : s.inCfs p) : Placed limit life (enqueueEntity s p) q ps none := by
  refine placed.ofCfs (enqueueEntity_frame s p).1 (enqueueEntity_frame s p).2
    (placed.cfs.enqueue waiting) ?_ (by simp)
  intro x listed _ ready route
  refine placed.covered x listed ?_ ready route
  rintro same
  cases same
  simp [waiting.2] at route

variable (known : life p ≠ .new)
include known

section

variable (notIdle : s.idleTask ≠ some p) (ready : s.state p = .ready)
include notIdle ready

theorem Placed.put (route : (s.policy p).route = .queue) :
    Placed limit life (queueAdd s (s.selected p) p) (enter q (s.selected p) p) ps none := by
  have frame := frame_queueAdd s (s.selected p) p
  have place := fun x => (frame.process x).place
  refine placed.requeue place frame.list frame.idleTask
    (queueAdd_ok placed.queues (placed.apart p rfl) ready route) ?_ ?_ (by simp) ?_
  · have notWaiting : ¬ s.inCfs p := fun waiting => by simp [waiting.2] at route
    refine (placed.cfs.shift notWaiting fun x other => ?_).congr rfl rfl place
    simp [Ne.symm other]
  · intro x listed _ isReady isQueue
    by_cases here : x = p
    · subst here
      exact mem_enter.mpr (.inr ⟨rfl, rfl⟩)
    · exact mem_enter.mpr (.inl (placed.covered x listed (by simp [Ne.symm here]) isReady isQueue))
  · intro x special outside i inside
    rcases mem_enter.mp inside with old | ⟨-, rfl⟩
    · exact outside i old
    · exact special.elim known notIdle

/-- **`add_to_queue` puts a READY process back.** -/
theorem Placed.addToQueue_returns :
    Returns (addToQueue s p) fun s' =>
      Frame s s' ∧ (s.busy ∨ (s.policy p).route = .queue → s'.busy) ∧
        ∃ q', Placed limit life s' q' ps none := by
  cases route : (s.policy p).route with
  | queue =>
    have adds : addToQueue s p = some (queueAdd s (s.selected p) p) := by
      unfold Policy.route at route
      unfold addToQueue selected
      split_ifs at route ⊢ <;> rfl
    have put := placed.put known notIdle ready route
    rw [adds]
    refine .of_some ⟨frame_queueAdd s _ p, fun _ => put.queues.busy_iff.mpr ?_, _, put⟩
    exact ⟨s.selected p, List.ne_nil_of_mem (mem_enter.mpr (.inr ⟨rfl, rfl⟩))⟩
  | cfs =>
    rw [addToQueue_of_cfs route]
    refine .of_some ⟨(enqueueEntity_frame s p).1, ?_, q, placed.enqueue ⟨ready, route⟩⟩
    simp [(enqueueEntity_frame s p).2.busy_iff]
  | deadline => exact absurd route (placed.cfs.noDeadline p)

end

/-- The exempt process may change. -/
theorem Placed.change (keeps : Keeps s s') (others : ∀ x ≠ p, SameProcess s s' x)
    (admits : Admits limit s s' p) : Placed limit life s' q ps (some p) := by
  constructor
  case queues =>
    exact placed.queues.changeOne (placed.apart p rfl) keeps.toSameQueues others admits.level
      admits.clean
  case cfs =>
    exact placed.cfs.change keeps.cfsNodes keeps.cfsNrRunning
      (fun x other => (others x other).place) admits.notDeadline admits.room
  case covered =>
    intro x member notOut
    have same := (others x fun here => notOut (by rw [here])).place
    rw [same.state, same.route, same.selected]
    exact placed.covered x member notOut
  case apart => exact placed.apart
  case fresh =>
    intro x isNew
    have same := (others x fun here => known (here ▸ isNew)).place
    rw [inCfs, same.state, same.route]
    exact placed.fresh x isNew
  case idle =>
    intro x isIdle
    rw [keeps.idleTask] at isIdle
    obtain ⟨unlisted, route, absent⟩ := placed.idle x isIdle
    refine ⟨unlisted, ?_, absent⟩
    by_cases here : x = p
    · subst here
      exact admits.idle isIdle
    · rw [(others x here).place.route, route]
  case list =>
    rw [keeps.next, keeps.prev, keeps.processList]
    exact placed.list
  case listed => exact placed.listed

variable {state : ProcState}

/-- The state of the exempt process may change. -/
theorem Placed.changeState (keeps : Keeps s s') (fields : SameFields s s')
    (sets : s'.state = update s.state p state) : Placed limit life s' q ps (some p) := by
  have level : s'.queueLevel p < 8 := fields.queueLevel ▸ placed.queues.level p
  refine placed.change known keeps (fun x other => ?_)
    (placed.admits level (congrFun fields.policy p))
  exact ⟨by rw [sets, update_of_ne other], congrFun fields.policy x,
    congrFun fields.priority x, congrFun fields.queueLevel x⟩

/-- A process outside the queues that is not READY any more stays outside. -/
theorem Placed.leaves (keeps : Keeps s s') (fields : SameFields s s')
    (sets : s'.state = update s.state p state) (notReady : state ≠ .ready) :
    Placed limit life s' q ps none := by
  refine (placed.changeState known keeps fields sets).settle_of_not_ready ?_
  rwa [sets, update_self]

end

theorem Placed.ready_returns (placed : Placed limit life s q ps none) (known : life p ≠ .new)
    (notIdle : s.idleTask ≠ some p) (notReady : s.state p ≠ .ready)
    (keeps : Keeps s s') (fields : SameFields s s') (sets : s'.state = update s.state p .ready) :
    Returns (addToQueue s' p) fun queued =>
      Frame s' queued ∧ (s.busy ∨ (s.policy p).route = .queue → queued.busy) ∧
        ∃ q', Placed limit life queued q' ps none := by
  have outside := (placed.exclude_of_not_ready notReady).changeState known keeps fields sets
  have returns := outside.addToQueue_returns known (keeps.idleTask ▸ notIdle)
    (by rw [sets, update_self])
  rwa [keeps.busy_iff, fields.policy] at returns

end FunsOS.Sched
