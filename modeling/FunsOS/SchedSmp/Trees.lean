import FunsOS.SchedCfs.Frame
import FunsOS.SchedSmp.Code

/-!
# The trees of the CPUs

The trees of all CPUs have their links in one task table. `Planted s tree` says that the links
spell out a tree for each CPU, and that a task is in the tree of a CPU exactly if it is on a run
queue and the CPU is its own; so no two trees have a task in common.

`TreesApart.enlist` and `TreesApart.retire` say what it is to enqueue a task that is on no queue,
and to dequeue one with at most one child: one tree changes, and the counters of its CPU.
`SameBooks` relates states that differ in neither.
-/

set_option autoImplicit false

namespace FunsOS.SchedSmp

open Foundation SchedCfs Smp
open Function (update update_eq_self update_of_ne update_self)

variable {s s' first : Smp} {tree : Cpu → BinaryTree Task} {c : Cpu} {t : Task} {q : Queue}

/-- Each CPU has a tree, of the tasks on a run queue that it has. -/
structure Planted (s : Smp) (tree : Cpu → BinaryTree Task) : Prop where
  represents : ∀ c, (s.cfsRq c).links.Represents (tree c)
  member : ∀ c t, t ∈ inorder (tree c) ↔ s.onRq t ∧ s.cpu t = c
  live : ∀ t, s.onRq t → s.pid t ≠ 0

/-- The links spell out the trees of the CPUs. -/
def TreesApart (s : Smp) : Prop := ∃ tree, Planted s tree

/-- A task that `rb_erase` takes out of its tree without replacing it by another. -/
def AtMostOneChild (s : Smp) (t : Task) : Prop := s.child .left t = none ∨ s.child .right t = none
deriving Decidable

/-- The trees depend on the queued tasks only. -/
theorem Planted.congr (planted : Planted s tree)
    (root : ∀ c, (s'.queue c).root = (s.queue c).root) (onRq : s'.onRq = s.onRq)
    (same : ∀ a, s.onRq a → s'.parent a = s.parent a ∧
      (∀ side, s'.child side a = s.child side a) ∧ s'.cpu a = s.cpu a ∧ s'.pid a ≠ 0) :
    Planted s' tree where
  represents := by
    intro c
    refine (planted.represents c).congr (root c) fun a member => ?_
    obtain ⟨parent, child, -⟩ := same a ((planted.member c a).mp member).1
    exact ⟨parent, child⟩
  member := by
    intro c a
    rw [planted.member c a, onRq]
    exact and_congr_right fun on => by rw [(same a on).2.2.1]
  live := by
    intro a on
    rw [onRq] at on
    exact (same a on).2.2.2

theorem Planted.requeue {rq : CfsRq Task} {new : BinaryTree Task} {on : Bool}
    (planted : Planted s tree) (here : s.cpu t = c) (live : s.pid t ≠ 0)
    (represents : rq.links.Represents new)
    (listed : ∀ a, a ∈ inorder new ↔ if a = t then on = true else a ∈ inorder (tree c))
    (outside : ∀ a ∉ inorder (tree c), a ≠ t → rq.links.parent a = s.parent a ∧
      ∀ side, rq.links.child side a = s.child side a)
    (onRq : rq.onRq = update s.onRq t on) :
    Planted (s.setCfsRq c rq) (update tree c new) where
  represents := by
    intro d
    by_cases isCpu : d = c
    · subst isCpu
      rw [update_self]
      have same : ((s.setCfsRq d rq).cfsRq d).links = rq.links := by simp [cfsRq, setCfsRq]
      rw [same]
      exact represents
    · rw [update_of_ne isCpu]
      refine (planted.represents d).congr ?_ fun a inTree => ?_
      · simp [cfsRq, setCfsRq, isCpu]
      · have at_d := ((planted.member d a).mp inTree).2
        refine outside a (fun inOther => ?_) ?_
        · exact isCpu (at_d.symm.trans ((planted.member c a).mp inOther).2)
        · rintro rfl
          exact isCpu (at_d.symm.trans here)
  member := by
    intro d a
    show a ∈ inorder (update tree c new d) ↔ rq.onRq a ∧ s.cpu a = d
    rw [onRq]
    by_cases isCpu : d = c
    · subst isCpu
      rw [update_self, listed a]
      by_cases isTask : a = t
      · simp [isTask, here]
      · simp [isTask, planted.member d a]
    · rw [update_of_ne isCpu, planted.member d a]
      refine and_congr_left fun at_d => ?_
      have isOther : a ≠ t := by
        rintro rfl
        exact isCpu (at_d.symm.trans here)
      rw [update_of_ne isOther]
  live := by
    intro a isOn
    by_cases isTask : a = t
    · exact isTask ▸ live
    · exact planted.live a (by simpa [setCfsRq, onRq, isTask] using isOn)

/-! ## States with the same trees and counters -/

/-- The part of a queue that says which tasks it has: the root of its tree and the counters. -/
def Queue.books (q : Queue) : Option Task × Nat × Nat × Int × Int :=
  (q.root, q.nrRunning, q.weightSum, q.cfsNrRunning, q.cfsWeightSum)

/-- Two states with the same tasks in the same places, and the same counters. -/
structure SameBooks (s s' : Smp) : Prop where
  pid : s'.pid = s.pid
  cpu : s'.cpu = s.cpu
  weight : s'.weight = s.weight
  onRq : s'.onRq = s.onRq
  child : s'.child = s.child
  parent : s'.parent = s.parent
  books : ∀ d, (s'.queue d).books = (s.queue d).books

theorem SameBooks.trans {s'' : Smp} (first : SameBooks s s') (second : SameBooks s' s'') :
    SameBooks s s'' where
  pid := second.pid.trans first.pid
  cpu := second.cpu.trans first.cpu
  weight := second.weight.trans first.weight
  onRq := second.onRq.trans first.onRq
  child := second.child.trans first.child
  parent := second.parent.trans first.parent
  books := fun d => (second.books d).trans (first.books d)

/-- What a change of one queue leaves alone is the same in every queue. -/
theorem setQueue_keeps {α : Type} {part : Queue → α} (same : part q = part (s.queue c)) (d : Cpu) :
    part ((s.setQueue c q).queue d) = part (s.queue d) := by
  by_cases here : d = c
  · subst here
    simpa [setQueue] using same
  · simp [setQueue, here]

theorem sameBooks_setQueue (same : q.books = (s.queue c).books) : SameBooks s (s.setQueue c q) :=
  ⟨rfl, rfl, rfl, rfl, rfl, rfl, setQueue_keeps same⟩

theorem sameBooks_state {state : Task → TaskState} : SameBooks s { s with state } :=
  ⟨rfl, rfl, rfl, rfl, rfl, rfl, fun _ => rfl⟩

theorem TreesApart.congr (trees : TreesApart s) (same : SameBooks s s') : TreesApart s' := by
  obtain ⟨tree, planted⟩ := trees
  refine ⟨tree, planted.congr (fun d => congrArg Prod.fst (same.books d)) same.onRq fun a on => ?_⟩
  rw [same.parent, same.child, same.cpu, same.pid]
  exact ⟨rfl, fun _ => rfl, rfl, planted.live a on⟩

/-- Two states that differ in the fields of one task, and not in which tasks are queued. -/
structure SameExcept (s : Smp) (t : Task) (s' : Smp) : Prop where
  pid : ∀ a ≠ t, s'.pid a = s.pid a
  cpu : ∀ a ≠ t, s'.cpu a = s.cpu a
  weight : ∀ a ≠ t, s'.weight a = s.weight a
  onRq : s'.onRq = s.onRq
  child : ∀ a ≠ t, ∀ side, s'.child side a = s.child side a
  parent : ∀ a ≠ t, s'.parent a = s.parent a
  books : ∀ d, (s'.queue d).books = (s.queue d).books

theorem ne_of_on_of_off {a : Task} (on : s.onRq a) (off : s.onRq t = false) : a ≠ t := by
  rintro rfl
  rw [off] at on
  exact Bool.noConfusion on

/-- The fields of a task that is on no queue do not matter to the trees. -/
theorem TreesApart.except (trees : TreesApart s) (off : s.onRq t = false)
    (same : SameExcept s t s') : TreesApart s' := by
  obtain ⟨tree, planted⟩ := trees
  refine ⟨tree, planted.congr (fun d => congrArg Prod.fst (same.books d)) same.onRq fun a on => ?_⟩
  have isOther := ne_of_on_of_off on off
  rw [same.parent a isOther, same.cpu a isOther, same.pid a isOther]
  exact ⟨rfl, same.child a isOther, rfl, planted.live a on⟩

/-! ## Enqueueing and dequeueing -/

/-- The fields that enqueueing and dequeueing leave alone. -/
structure SameTasks (s s' : Smp) : Prop where
  pid : s'.pid = s.pid
  cpu : s'.cpu = s.cpu
  weight : s'.weight = s.weight
  currentTask : ∀ d, (s'.queue d).currentTask = (s.queue d).currentTask
  idleTask : ∀ d, (s'.queue d).idleTask = (s.queue d).idleTask

/-- A task has been enqueued and counted. -/
structure Admitted (s : Smp) (c : Cpu) (t : Task) (s' : Smp) : Prop extends SameTasks s s' where
  onRq : s'.onRq = Function.update s.onRq t true
  nrRunning : ∀ d, (s'.queue d).nrRunning =
    if d = c then ((s.queue d).nrRunning + 1) % wordLimit32 else (s.queue d).nrRunning
  weightSum : ∀ d, (s'.queue d).weightSum =
    if d = c then ((s.queue d).weightSum + s.weight t) % wordLimit32 else (s.queue d).weightSum
  cfsNrRunning : ∀ d, (s'.queue d).cfsNrRunning =
    if d = c then int32 ((s.queue d).cfsNrRunning + 1) else (s.queue d).cfsNrRunning
  cfsWeightSum : ∀ d, (s'.queue d).cfsWeightSum =
    if d = c then int32 ((s.queue d).cfsWeightSum + int32 (s.weight t))
    else (s.queue d).cfsWeightSum

/-- A task has been dequeued and is no longer counted. -/
structure Retired (s : Smp) (c : Cpu) (t : Task) (s' : Smp) : Prop extends SameTasks s s' where
  onRq : s'.onRq = Function.update s.onRq t false
  nrRunning : ∀ d, (s'.queue d).nrRunning =
    if d = c then (s.queue d).nrRunning - 1 else (s.queue d).nrRunning
  weightSum : ∀ d, (s'.queue d).weightSum =
    if d = c then
      if s.weight t ≤ (s.queue d).weightSum then (s.queue d).weightSum - s.weight t
      else (s.queue d).weightSum
    else (s.queue d).weightSum
  cfsNrRunning : ∀ d, (s'.queue d).cfsNrRunning =
    if d = c then int32 ((s.queue d).cfsNrRunning - 1) else (s.queue d).cfsNrRunning
  cfsWeightSum : ∀ d, (s'.queue d).cfsWeightSum =
    if d = c then
      if s.weight t ≠ 0 ∧ int32 (s.weight t) ≤ (s.queue d).cfsWeightSum then
        int32 ((s.queue d).cfsWeightSum - int32 (s.weight t))
      else (s.queue d).cfsWeightSum
    else (s.queue d).cfsWeightSum

/-- A change before the call that touches neither tasks nor queues does not matter. -/
theorem SameTasks.before (tasks : SameTasks first s') (same : SameBooks s first)
    (queue : first.queue = s.queue) : SameTasks s s' where
  pid := tasks.pid.trans same.pid
  cpu := tasks.cpu.trans same.cpu
  weight := tasks.weight.trans same.weight
  currentTask := queue ▸ tasks.currentTask
  idleTask := queue ▸ tasks.idleTask

@[inherit_doc SameTasks.before]
theorem Admitted.before (admitted : Admitted first c t s') (same : SameBooks s first)
    (queue : first.queue = s.queue) : Admitted s c t s' where
  toSameTasks := admitted.toSameTasks.before same queue
  onRq := same.onRq ▸ admitted.onRq
  nrRunning := queue ▸ admitted.nrRunning
  weightSum := queue ▸ same.weight ▸ admitted.weightSum
  cfsNrRunning := queue ▸ admitted.cfsNrRunning
  cfsWeightSum := queue ▸ same.weight ▸ admitted.cfsWeightSum

section

variable (trees : TreesApart s)
include trees

/-- **Enqueueing a task that is on no queue, on its own CPU.** -/
theorem TreesApart.enlist (off : s.onRq t = false) (live : s.pid t ≠ 0) (here : s.cpu t = c) :
    Returns (s.enlist c t) fun s' => TreesApart s' ∧ Admitted s c t s' := by
  obtain ⟨tree, planted⟩ := trees
  have fresh : t ∉ inorder (tree c) := fun inTree => by
    rw [((planted.member c t).mp inTree).1] at off
    exact Bool.noConfusion off
  obtain ⟨rq, new, enqueued, represents, listed, outside, (weight : rq.weight = s.weight),
    (onRq : rq.onRq = update s.onRq t true), nrRunning, weightSum⟩ :=
    cfsRqEnqueue_frame (planted.represents c) fresh off
  have grown : Planted (s.setCfsRq c { rq with nrRunning := int32 rq.nrRunning })
      (update tree c new) := by
    refine planted.requeue here live represents (fun a => ?_) outside onRq
    rw [listed a]
    by_cases isTask : a = t <;> simp [isTask]
  refine ⟨(s.setCfsRq c { rq with nrRunning := int32 rq.nrRunning }).countIn c (rq.weight t),
    by rw [Smp.enlist, enqueueOn, enqueued]; rfl, ⟨_, grown.congr (fun d => ?_) rfl
      fun a on => ⟨rfl, fun _ => rfl, rfl, grown.live a on⟩⟩,
    ⟨⟨rfl, rfl, weight, fun d => ?_, fun d => ?_⟩, onRq, fun d => ?_, fun d => ?_,
      fun d => ?_, fun d => ?_⟩⟩
  all_goals
    by_cases isCpu : d = c
    · subst isCpu
      simp [countIn, setQueue, setCfsRq, cfsRq, nrRunning, weightSum, weight]
    · simp [countIn, setQueue, setCfsRq, isCpu]

/-- **Dequeueing a task with at most one child from its own CPU.** -/
theorem TreesApart.retire (on : s.onRq t) (here : s.cpu t = c) (single : AtMostOneChild s t) :
    Returns (s.retire c t) fun s' => TreesApart s' ∧ Retired s c t s' := by
  obtain ⟨tree, planted⟩ := trees
  have inTree : t ∈ inorder (tree c) := (planted.member c t).mpr ⟨on, here⟩
  obtain ⟨rq, new, dequeued, represents, listed, outside, (weight : rq.weight = s.weight),
    (onRq : rq.onRq = update s.onRq t false), nrRunning, weightSum⟩ :=
    cfsRqDequeue_frame (planted.represents c) inTree on single
  have weightSum_eq : rq.weightSum =
      if s.weight t ≠ 0 ∧ int32 (s.weight t) ≤ (s.queue c).cfsWeightSum then
        int32 ((s.queue c).cfsWeightSum - int32 (s.weight t))
      else (s.queue c).cfsWeightSum := weightSum
  have shrunk : Planted (s.setCfsRq c { rq with nrRunning := int32 rq.nrRunning })
      (update tree c new) := by
    refine planted.requeue here (planted.live t on) represents (fun a => ?_)
      (fun a notIn _ => outside a notIn) onRq
    rw [listed a]
    by_cases isTask : a = t <;> simp [isTask]
  refine ⟨((s.setCfsRq c { rq with nrRunning := int32 rq.nrRunning }).countWeightOut c
      (rq.weight t)).countTaskOut c,
    by rw [Smp.retire, dequeueFrom, dequeued]; rfl, ⟨_, shrunk.congr (fun d => ?_) rfl
      fun a on => ⟨rfl, fun _ => rfl, rfl, shrunk.live a on⟩⟩,
    ⟨⟨rfl, rfl, weight, fun d => ?_, fun d => ?_⟩, onRq, fun d => ?_, fun d => ?_,
      fun d => ?_, fun d => ?_⟩⟩
  all_goals
    by_cases isCpu : d = c
    · subst isCpu
      simp [countTaskOut, countWeightOut, setQueue, setCfsRq, cfsRq, nrRunning, weightSum_eq,
        weight]
    · simp [countTaskOut, countWeightOut, setQueue, setCfsRq, isCpu]

/-! ## Picking a task -/

/-- The leftmost task of a CPU is on its queue. -/
theorem TreesApart.leftmost : Returns (cfsRqPickNext (s.cfsRq c)) fun picked =>
      ∀ t, picked = some t → s.onRq t ∧ s.cpu t = c := by
  obtain ⟨tree, planted⟩ := trees
  refine ⟨_, cfsRqPickNext_head (planted.represents c), fun t isHead => ?_⟩
  exact (planted.member c t).mp (List.mem_of_mem_head? isHead)

theorem TreesApart.calcTimeslice (c : Cpu) : Returns (s.cfsCalcTimeslice c) fun _ => True := by
  rw [cfsCalcTimeslice]
  split
  · exact .of_some trivial
  · exact trees.leftmost.map fun _ _ => trivial

theorem TreesApart.pickNext : Returns (s.pickNext c) fun picked => ∀ t, picked = some t →
      (s.onRq t ∧ s.cpu t = c) ∨ (s.queue c).idleTask = some t := by
  refine trees.leftmost.map fun leftmost isQueued t isPicked => ?_
  cases leftmost with
  | none => exact .inr isPicked
  | some first => exact .inl (isQueued t isPicked)

end

/-! ## A new task -/

theorem pid_of_freeSlot (free : s.freeSlot = some t) : s.pid t = 0 := by
  rw [freeSlot] at free
  split at free
  · cases free
  · simpa using List.find?_some free

/-- A free slot is on no queue. -/
theorem TreesApart.off_of_pid (trees : TreesApart s) (free : s.pid t = 0) : s.onRq t = false := by
  obtain ⟨tree, planted⟩ := trees
  rw [Bool.eq_false_iff]
  exact fun on => planted.live t on free

/-- Clearing a slot that is on no queue changes that task only. -/
theorem sameExcept_newTask (off : s.onRq t = false) (nice : Int) (c : Cpu) (timeSlice : Nat) :
    SameExcept s t (s.newTask t nice c timeSlice) where
  pid := fun a isOther => by simp [newTask, isOther]
  cpu := fun a isOther => by simp [newTask, isOther]
  weight := fun a isOther => by simp [newTask, isOther]
  onRq := by
    show update s.onRq t false = s.onRq
    rw [← off, update_eq_self]
  child := fun a isOther side => by simp [newTask, isOther]
  parent := fun a isOther => by simp [newTask, isOther]
  books := fun _ => rfl

theorem treesApart_init {nrCpus : Int} : TreesApart (init nrCpus) :=
  ⟨fun _ => .nil, fun _ => ⟨rfl, List.nodup_nil⟩, by simp [init], by simp [init]⟩

end FunsOS.SchedSmp
