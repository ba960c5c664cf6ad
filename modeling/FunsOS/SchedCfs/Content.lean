import FunsOS.Foundation.Runs
import FunsOS.SchedCfs.RunQueue

/-!
# What the run queue contains

The entities in the tree are those with `on_rq` set, and both counters are their
number (`Queued`). `cfsRqEnqueue_spec` and `cfsRqDequeue_spec` say how the two
calls change the order of the entities in the tree, from which both this module
and the fairness of picking follow.

`run_queue_content` proves that every run keeps the content right as long as it
dequeues only entities that have at most one child in the tree.
`dequeue_inner_node_loses_entities` is a run that does not: `rb_erase` of an
entity with two children unlinks its successor and then clears the entity's own
links, so that the entity stays and its subtrees are lost.
-/

set_option autoImplicit false

namespace FunsOS.SchedCfs

open Foundation List Option
open Function (update update_eq_self update_of_ne update_self)

universe u

variable {α : Type u} [DecidableEq α] [Fintype α] {rq : CfsRq α} {t : BinaryTree α}

/-- The tree holds exactly the entities with `on_rq` set, and the counters are
their number. -/
structure Queued (rq : CfsRq α) (t : BinaryTree α) : Prop where
  tree : rq.links.Represents t
  listed : ∀ a, a ∈ inorder t ↔ rq.onRq a
  count : rq.rbNodeCount = (inorder t).length
  running : rq.nrRunning = (inorder t).length

/-! ## One call -/

/-- The `vruntime` an entity is enqueued with. -/
def clamped (rq : CfsRq α) (se : α) : Nat :=
  if rq.vruntime se < rq.minVruntime then rq.minVruntime else rq.vruntime se

variable {se : α}

/-- `cfs_rq_enqueue` of an entity that is not queued. -/
theorem cfsRqEnqueue_of_off {rq' : CfsRq α} (off : rq.onRq se = false)
    (inserted : rbInsert { rq with
      vruntime := update rq.vruntime se (clamped rq se) } se = some rq') :
    cfsRqEnqueue rq se = some { rq' with
      onRq := update rq'.onRq se true
      nrRunning := rq'.nrRunning + 1
      weightSum := int32 (rq'.weightSum + int32 (rq'.weight se)) } := by
  have adjusted : (if rq.vruntime se < rq.minVruntime then
      { rq with vruntime := update rq.vruntime se rq.minVruntime } else rq) =
      { rq with vruntime := update rq.vruntime se (clamped rq se) } := by
    rw [clamped]
    split
    · rfl
    · rw [update_eq_self]
  rw [cfsRqEnqueue, off, if_neg Bool.false_ne_true]
  simp only [adjusted, inserted, map_some]

/-- `cfs_rq_dequeue` of a queued entity with at most one child. -/
theorem cfsRqDequeue_of_single (on : rq.onRq se)
    (single : rq.links.child .left se = none ∨ rq.links.child .right se = none) :
    cfsRqDequeue rq se = some { rq with
      links := clearLinks (rq.links.unlink se) se
      rbNodeCount := rq.rbNodeCount - 1
      onRq := update rq.onRq se false
      nrRunning := rq.nrRunning - 1
      weightSum :=
        if rq.weight se ≠ 0 ∧ int32 (rq.weight se) ≤ rq.weightSum then
          int32 (rq.weightSum - int32 (rq.weight se))
        else rq.weightSum } := by
  rw [cfsRqDequeue, on, if_neg (by decide), rbErase_of_single single, map_some]

/-- Inserting an entity that is not queued into the order. -/
theorem cfsRqEnqueue_spec (queued : Queued rq t) (off : rq.onRq se = false) :
    ∃ rq' t' before after, cfsRqEnqueue rq se = some rq' ∧ Queued rq' t' ∧
      inorder t = before ++ after ∧ inorder t' = before ++ se :: after ∧
      rq'.vruntime = update rq.vruntime se (clamped rq se) ∧
      ((inorder t).Pairwise (fun a b => rq.vruntime a ≤ rq.vruntime b) →
        (∀ b ∈ before, rq.vruntime b ≤ clamped rq se) ∧
          ∀ b ∈ after, clamped rq se < rq.vruntime b) := by
  have fresh : se ∉ inorder t := fun member => by
    rw [(queued.listed se).mp member] at off
    exact Bool.noConfusion off
  have rep : ({ rq with vruntime := update rq.vruntime se (clamped rq se) } :
      CfsRq α).links.Represents t := queued.tree
  obtain ⟨rq', t', before, after, inserted, represents, old, new, sorted, same, -, count⟩ :=
    rbInsert_spec rep fresh
  have others : ∀ b ∈ inorder t, update rq.vruntime se (clamped rq se) b = rq.vruntime b := by
    intro b member
    refine update_of_ne ?_ _ _
    rintro rfl
    exact fresh member
  refine ⟨_, t', before, after, cfsRqEnqueue_of_off off inserted,
    ⟨represents, fun a => ?_, ?_, ?_⟩, old, new, same.vruntime, fun order => ?_⟩
  · show a ∈ inorder t' ↔ update rq'.onRq se true a
    rw [new, same.onRq]
    by_cases here : a = se
    · simp [here]
    · rw [update_of_ne here, ← queued.listed a, old]
      simp [here]
  · rw [count, new]
    rw [queued.count, old]
    simp [Nat.add_assoc]
  · rw [same.nrRunning, new]
    rw [queued.running, old]
    simp [Int.add_assoc]
  · have sorted' : (inorder t).Pairwise fun a b =>
        update rq.vruntime se (clamped rq se) a ≤ update rq.vruntime se (clamped rq se) b := by
      refine order.imp_of_mem fun {a b} memberA memberB le => ?_
      rw [others a memberA, others b memberB]
      exact le
    obtain ⟨lower, upper⟩ := sorted sorted'
    constructor
    · intro b member
      have bound := lower b member
      simp only [update_self, others b (by rw [old]; simp [member])] at bound
      exact bound
    · intro b member
      have bound := upper b member
      simp only [update_self, others b (by rw [old]; simp [member])] at bound
      exact bound

/-- Taking a queued entity with at most one child out of the order changes no `vruntime`. -/
theorem cfsRqDequeue_spec (queued : Queued rq t) (on : rq.onRq se)
    (single : rq.links.child .left se = none ∨ rq.links.child .right se = none) :
    ∃ rq' t' before after, cfsRqDequeue rq se = some rq' ∧ Queued rq' t' ∧
      inorder t = before ++ se :: after ∧ inorder t' = before ++ after ∧
      se ∉ before ++ after ∧ rq'.vruntime = rq.vruntime := by
  obtain ⟨t', before, after, represents, old, new, fresh⟩ :=
    unlink_spec queued.tree ((queued.listed se).mpr on) single
  refine ⟨_, t', before, after, cfsRqDequeue_of_single on single,
    ⟨represents, fun a => ?_, ?_, ?_⟩, old, new, fresh, rfl⟩
  · show a ∈ inorder t' ↔ update rq.onRq se false a
    rw [new]
    by_cases here : a = se
    · subst here
      simpa using fresh
    · rw [update_of_ne here, ← queued.listed a, old]
      simp [here]
  · rw [new, queued.count, old]
    simp
  · rw [new, queued.running, old]
    simp only [length_append, length_cons]
    omega

omit [DecidableEq α] in
/-- `cfs_rq_pick_next` returns the first entity in order. -/
theorem cfsRqPickNext_spec (queued : Queued rq t) : cfsRqPickNext rq = some (inorder t).head? :=
  cfsRqPickNext_head queued.tree

omit [Fintype α] in
theorem Queued.account {deltaExec : Nat} (queued : Queued rq t) :
    Queued (cfsRqAccount rq se deltaExec) t :=
  ⟨queued.tree, queued.listed, queued.count, queued.running⟩

/-! ## Runs -/

/-- A queued entity is dequeued only when it has at most one child. -/
def SingleChild (rq : CfsRq α) : Op α → Prop
  | .dequeue se =>
    rq.onRq se → rq.links.child .left se = none ∨ rq.links.child .right se = none
  | _ => True

instance (rq : CfsRq α) : (op : Op α) → Decidable (SingleChild rq op)
  | .dequeue se => inferInstanceAs (Decidable (rq.onRq se → _))
  | .enqueue _ | .pickNext | .account _ _ => inferInstanceAs (Decidable True)

/-- One call keeps the content right. -/
theorem Queued.step {op : Op α} (queued : Queued rq t) (single : SingleChild rq op) :
    ∃ rq', SchedCfs.step rq op = some rq' ∧ ∃ t', Queued rq' t' := by
  cases op with
  | enqueue se =>
    cases on : rq.onRq se with
    | true => exact ⟨rq, by simp [SchedCfs.step, cfsRqEnqueue, on], t, queued⟩
    | false =>
      obtain ⟨rq', t', _, _, enqueued, queued', -⟩ := cfsRqEnqueue_spec queued on
      exact ⟨rq', enqueued, t', queued'⟩
  | dequeue se =>
    cases on : rq.onRq se with
    | false => exact ⟨rq, by simp [SchedCfs.step, cfsRqDequeue, on], t, queued⟩
    | true =>
      obtain ⟨rq', t', _, _, dequeued, queued', -⟩ := cfsRqDequeue_spec queued on (single on)
      exact ⟨rq', dequeued, t', queued'⟩
  | pickNext => exact ⟨rq, by rw [SchedCfs.step, cfsRqPickNext_spec queued]; rfl, t, queued⟩
  | account se deltaExec => exact ⟨_, rfl, t, queued.account⟩

omit [DecidableEq α] [Fintype α] in
/-- A new queue, over entities that are not queued, is empty. -/
theorem cfsRqInit_queued {entities : CfsRq α} (idle : ∀ a, entities.onRq a = false) :
    Queued (cfsRqInit entities) .nil :=
  ⟨⟨rfl, nodup_nil⟩, fun a => by simp [cfsRqInit, idle a], rfl, rfl⟩

/-- The entities that can be reached from the root are those with `on_rq` set, and
both counters are their number. -/
def Content (rq : CfsRq α) : Prop :=
  (∀ a, rq.links.Reach a ↔ rq.onRq a) ∧
    rq.rbNodeCount = (Finset.univ.filter fun a => rq.onRq a).card ∧
    rq.nrRunning = rq.rbNodeCount

/-- Dequeuing takes out this entity and no other, and changes no other entity's
`vruntime`. -/
def DequeuesOnly (rq : CfsRq α) (se : α) (rq' : CfsRq α) : Prop :=
  (∀ b, rq'.links.Reach b ↔ rq.links.Reach b ∧ b ≠ se) ∧
    ∀ b ≠ se, rq'.vruntime b = rq.vruntime b

theorem Queued.content (queued : Queued rq t) : Content rq := by
  refine ⟨fun a => queued.tree.reach_iff.trans (queued.listed a), ?_, ?_⟩
  · have same : (Finset.univ.filter fun a => rq.onRq a) = (inorder t).toFinset := by
      ext a
      simp [queued.listed a]
    rw [same, toFinset_card_of_nodup queued.tree.nodup, queued.count]
  · rw [queued.running, queued.count]

theorem Queued.dequeuesOnly (queued : Queued rq t) (on : rq.onRq se)
    (single : SingleChild rq (.dequeue se)) :
    ∃ rq', SchedCfs.step rq (.dequeue se) = some rq' ∧ DequeuesOnly rq se rq' := by
  obtain ⟨rq', t', before, after, dequeued, queued', old, new, fresh, vruntime⟩ :=
    cfsRqDequeue_spec queued on (single on)
  refine ⟨rq', dequeued, fun b => ?_, fun b _ => by rw [vruntime]⟩
  rw [queued'.tree.reach_iff, queued.tree.reach_iff, new, old]
  constructor
  · intro member
    refine ⟨?_, ?_⟩
    · rcases mem_append.mp member with early | late
      · exact mem_append_left _ early
      · exact mem_append_right _ (mem_cons_of_mem _ late)
    · rintro rfl
      exact fresh member
  · rintro ⟨member, other⟩
    simpa [other] using member

/-- **Run queue content.** In every run from `cfs_rq_init` that dequeues only
entities with at most one child, the entities in the tree are those with `on_rq`
set, the counters are their number, and a dequeue takes out its entity only. -/
theorem run_queue_content {entities : CfsRq α} (idle : ∀ a, entities.onRq a = false)
    {ops : List (Op α)} (meets : MeetsPartial SchedCfs.step SingleChild (cfsRqInit entities) ops) :
    ∃ rq, runPartial SchedCfs.step (cfsRqInit entities) ops = some rq ∧ Content rq ∧
      ∀ se, rq.onRq se → SingleChild rq (.dequeue se) →
        ∃ rq', SchedCfs.step rq (.dequeue se) = some rq' ∧ DequeuesOnly rq se rq' := by
  obtain ⟨rq, ran, t, queued⟩ := MeetsPartial.invariant (P := fun rq => ∃ t, Queued rq t)
    (fun rq op kept single => by
      obtain ⟨t, queued⟩ := kept
      exact queued.step single)
    ⟨.nil, cfsRqInit_queued idle⟩ meets
  exact ⟨rq, ran, queued.content, fun se on single => queued.dequeuesOnly on single⟩

/-! ## Three entities -/

/-- Three new entities, as `sched_smp` sets them up: not queued, with `vruntime` 0. -/
def threeEntities : CfsRq (Fin 3) where
  links := ⟨none, fun _ _ => none, fun _ => none⟩
  rbColor := fun _ => .black
  vruntime := fun _ => 0
  sumExecRuntime := fun _ => 0
  weight := fun _ => 1024
  onRq := fun _ => false
  rbNodeCount := 0
  minVruntime := 0
  execClock := 0
  nrRunning := 0
  weightSum := 0

/-- **Dequeuing an entity with two children loses entities.** With three entities
queued, dequeuing the middle one leaves it at the root alone, without `on_rq`,
while the other two have `on_rq` and cannot be reached. -/
theorem dequeue_inner_node_loses_entities :
    (∀ a, threeEntities.onRq a = false) ∧
      ∃ rq, runPartial SchedCfs.step (cfsRqInit threeEntities)
        [.enqueue 0, .enqueue 1, .enqueue 2, .dequeue 1] = some rq ∧ ¬ Content rq := by
  refine ⟨fun _ => rfl, Returns.of_map (f := fun rq => (rq.links.root, rq.onRq 1))
    (v := (some 1, false)) (by decide) fun rq after content => ?_⟩
  obtain ⟨root, off⟩ := Prod.mk.inj after
  have on := (content.1 1).mp (.root root)
  rw [off] at on
  exact Bool.noConfusion on

/-- Enqueuing the three and dequeuing a leaf keeps the content right. -/
theorem run_queue_content_of_leaf :
    ∃ rq, runPartial SchedCfs.step (cfsRqInit threeEntities)
        [.enqueue 0, .enqueue 1, .enqueue 2, .dequeue 2, .pickNext] = some rq ∧ Content rq ∧
      ∀ se, rq.onRq se → SingleChild rq (.dequeue se) →
        ∃ rq', SchedCfs.step rq (.dequeue se) = some rq' ∧ DequeuesOnly rq se rq' :=
  run_queue_content (fun _ => rfl) (by decide)

end FunsOS.SchedCfs
