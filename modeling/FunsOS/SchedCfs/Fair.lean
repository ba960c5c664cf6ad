import FunsOS.SchedCfs.Content

/-!
# Picking the entity with the least `vruntime`

The tree is searched by `vruntime`, and `cfs_rq_pick_next` returns the first
entity in order. It has the least `vruntime` when the order is by `vruntime`
(`Ordered`), which inserting and erasing keep. `cfs_rq_account` changes the key of
an entity in place: for an entity that is queued, the order survives only when
the new key is not above the keys of the entities after it.

`pick_next_is_fairest` proves that picking is fair in every run whose accounting
meets this. `accounting_breaks_order` is a run that does not: accounting the
running task, which stays queued, moves its key past that of the next one.
-/

set_option autoImplicit false

namespace FunsOS.SchedCfs

open Foundation List Nat
open Function (update update_of_ne update_self)

universe u

variable {α : Type u} [DecidableEq α] [Fintype α] {rq : CfsRq α} {t : BinaryTree α}

variable (rq)

/-- The entities in the tree are in the order of their `vruntime`. -/
def Ordered (t : BinaryTree α) : Prop :=
  (inorder t).Pairwise fun a b => rq.vruntime a ≤ rq.vruntime b

/-- The `vruntime` of an entity after accounting. -/
def accounted (se : α) (deltaExec : Nat) : Nat :=
  rq.vruntime se + vruntimeDelta rq se deltaExec

/-- No 64-bit `vruntime` wraps. -/
def NoWrap : Op α → Prop
  | .account se deltaExec => accounted rq se deltaExec < wordLimit64
  | _ => True

def entitiesAfter (se : α) : List α :=
  ((rq.links.list (walkLimit α) rq.links.root).dropWhile (· ≠ se)).tail

/-- Accounting a queued entity does not move its key past that of an entity after
it in the tree. -/
def StaysInPlace : Op α → Prop
  | .account se deltaExec =>
    rq.onRq se → ∀ b ∈ entitiesAfter rq se, accounted rq se deltaExec ≤ rq.vruntime b
  | _ => True

variable {rq} {se : α}

instance (rq : CfsRq α) : (op : Op α) → Decidable (NoWrap rq op)
  | .account _ _ => inferInstanceAs (Decidable (_ < _))
  | .enqueue _ | .dequeue _ | .pickNext => inferInstanceAs (Decidable True)

instance (rq : CfsRq α) : (op : Op α) → Decidable (StaysInPlace rq op)
  | .account se _ => inferInstanceAs (Decidable (_ → ∀ b ∈ entitiesAfter rq se, _))
  | .enqueue _ | .dequeue _ | .pickNext => inferInstanceAs (Decidable True)

/-- The invariant of a fair run. -/
def FairState (rq : CfsRq α) : Prop := ∃ t, Queued rq t ∧ Ordered rq t

/-! ## One call -/

omit [DecidableEq α] [Fintype α] in
/-- An entity between those not above it and those not below it. -/
theorem sorted_insert {key : α → Nat} {before after : List α}
    (rest : (before ++ after).Pairwise fun a b => key a ≤ key b)
    (lower : ∀ b ∈ before, key b ≤ key se) (upper : ∀ b ∈ after, key se ≤ key b) :
    (before ++ se :: after).Pairwise fun a b => key a ≤ key b := by
  obtain ⟨left, right, cross⟩ := pairwise_append.mp rest
  refine pairwise_append.mpr ⟨left, pairwise_cons.mpr ⟨upper, right⟩, ?_⟩
  intro a memberA b memberB
  rcases mem_cons.mp memberB with rfl | later
  · exact lower a memberA
  · exact cross a memberA b later

section

variable (queued : Queued rq t) (ordered : Ordered rq t)
include queued ordered

theorem Ordered.enqueue (off : rq.onRq se = false) :
    ∃ rq', cfsRqEnqueue rq se = some rq' ∧ FairState rq' := by
  obtain ⟨rq', t', before, after, enqueued, queued', old, new, vruntime, sorted⟩ :=
    cfsRqEnqueue_spec queued off
  obtain ⟨lower, upper⟩ := sorted ordered
  have fresh : ∀ b ∈ inorder t, b ≠ se := by
    rintro b member rfl
    rw [(queued.listed b).mp member] at off
    exact Bool.noConfusion off
  have others : ∀ b ∈ inorder t, rq'.vruntime b = rq.vruntime b := fun b member => by
    rw [vruntime, update_of_ne (fresh b member)]
  have self : rq'.vruntime se = clamped rq se := by rw [vruntime, update_self]
  have kept : (inorder t).Pairwise fun a b => rq'.vruntime a ≤ rq'.vruntime b :=
    ordered.imp_of_mem fun {a b} memberA memberB le => by
      rw [others a memberA, others b memberB]
      exact le
  refine ⟨rq', enqueued, t', queued', ?_⟩
  rw [old] at kept
  rw [Ordered, new]
  refine sorted_insert kept (fun b member => ?_) fun b member => ?_
  · rw [self, others b (by rw [old]; simp [member])]
    exact lower b member
  · rw [self, others b (by rw [old]; simp [member])]
    exact le_of_lt (upper b member)

theorem Ordered.dequeue (on : rq.onRq se) (single : SingleChild rq (.dequeue se)) :
    ∃ rq', cfsRqDequeue rq se = some rq' ∧ FairState rq' := by
  obtain ⟨rq', t', before, after, dequeued, queued', old, new, -, vruntime⟩ :=
    cfsRqDequeue_spec queued on (single on)
  refine ⟨rq', dequeued, t', queued', ?_⟩
  rw [Ordered, old] at ordered
  rw [Ordered, new, vruntime]
  exact ordered.sublist (List.Sublist.append_left (sublist_cons_self se after) before)

theorem Ordered.account {deltaExec : Nat} (fits : NoWrap rq (.account se deltaExec))
    (stays : StaysInPlace rq (.account se deltaExec)) :
    Ordered (cfsRqAccount rq se deltaExec) t := by
  have new : (cfsRqAccount rq se deltaExec).vruntime =
      update rq.vruntime se (accounted rq se deltaExec) := by
    have small : (rq.vruntime se + vruntimeDelta rq se deltaExec) % wordLimit64 =
        accounted rq se deltaExec := mod_eq_of_lt fits
    simp only [cfsRqAccount, small]
  rw [Ordered, new]
  cases on : rq.onRq se with
  | false =>
    have fresh : ∀ b ∈ inorder t, b ≠ se := by
      rintro b member rfl
      rw [(queued.listed b).mp member] at on
      exact Bool.noConfusion on
    refine List.Pairwise.imp_of_mem (fun {a b} memberA memberB le => ?_) ordered
    rw [update_of_ne (fresh a memberA), update_of_ne (fresh b memberB)]
    exact le
  | true =>
    obtain ⟨before, after, split⟩ := append_of_mem ((queued.listed se).mpr on)
    have nodup := queued.tree.nodup
    rw [split] at nodup
    have fresh := (nodup_cons.mp (nodup_middle.mp nodup)).1
    have apart : ∀ b ∈ before ++ after, b ≠ se := by
      rintro b member rfl
      exact fresh member
    have follows : entitiesAfter rq se = after := by
      rw [entitiesAfter, queued.tree.holds.list (length_lt_walkLimit queued.tree.nodup), split,
        dropWhile_append_of_pos, dropWhile_cons_of_neg (by simp), tail_cons]
      exact fun b member => by simp [apart b (mem_append_left _ member)]
    have grows : rq.vruntime se ≤ accounted rq se deltaExec := le_add_right _ _
    have bound := stays on
    rw [follows] at bound
    rw [Ordered, split] at ordered
    rw [split]
    have others : ∀ b ∈ before ++ after,
        update rq.vruntime se (accounted rq se deltaExec) b = rq.vruntime b :=
      fun b member => update_of_ne (apart b member) _ _
    obtain ⟨-, right, cross⟩ := pairwise_append.mp ordered
    have rest : (before ++ after).Pairwise fun a b => rq.vruntime a ≤ rq.vruntime b :=
      ordered.sublist (List.Sublist.append_left (sublist_cons_self se after) before)
    refine sorted_insert (rest.imp_of_mem fun {a b} memberA memberB le => ?_)
      (fun b member => ?_) fun b member => ?_
    · rw [others a memberA, others b memberB]
      exact le
    · rw [others b (mem_append_left _ member), update_self]
      exact le_trans (cross b member se mem_cons_self) grows
    · rw [others b (mem_append_right _ member), update_self]
      exact bound b member

end

/-- One call keeps the order. -/
theorem FairState.step {op : Op α} (fair : FairState rq) (fits : NoWrap rq op)
    (single : SingleChild rq op) (stays : StaysInPlace rq op) :
    ∃ rq', SchedCfs.step rq op = some rq' ∧ FairState rq' := by
  obtain ⟨t, queued, ordered⟩ := fair
  cases op with
  | enqueue se =>
    cases on : rq.onRq se with
    | true => exact ⟨rq, by simp [SchedCfs.step, cfsRqEnqueue, on], t, queued, ordered⟩
    | false => exact ordered.enqueue queued on
  | dequeue se =>
    cases on : rq.onRq se with
    | false => exact ⟨rq, by simp [SchedCfs.step, cfsRqDequeue, on], t, queued, ordered⟩
    | true => exact ordered.dequeue queued on single
  | pickNext =>
    exact ⟨rq, by rw [SchedCfs.step, cfsRqPickNext_spec queued]; rfl, t, queued, ordered⟩
  | account se deltaExec =>
    exact ⟨_, rfl, t, queued.account, ordered.account queued fits stays⟩

/-! ## Runs -/

/-- What `cfs_rq_pick_next` should return: NULL for an empty queue, and otherwise a
queued entity with the least `vruntime`. -/
def Fairest (rq : CfsRq α) : Option α → Prop
  | none => ∀ b, rq.onRq b = false
  | some se => rq.onRq se ∧ ∀ b, rq.onRq b → rq.vruntime se ≤ rq.vruntime b

omit [DecidableEq α] in
theorem FairState.fairest (fair : FairState rq) :
    ∃ next, cfsRqPickNext rq = some next ∧ Fairest rq next := by
  obtain ⟨t, queued, ordered⟩ := fair
  refine ⟨_, cfsRqPickNext_spec queued, ?_⟩
  rw [Ordered] at ordered
  have listed := queued.listed
  cases order : inorder t with
  | nil =>
    intro b
    have absent := (listed b).not.mp (by rw [order]; exact not_mem_nil)
    exact Bool.eq_false_iff.mpr absent
  | cons first rest =>
    rw [order] at ordered listed
    refine ⟨(listed first).mp mem_cons_self, fun b on => ?_⟩
    rcases mem_cons.mp ((listed b).mpr on) with rfl | later
    · exact le_refl _
    · exact (pairwise_cons.mp ordered).1 b later

/-- **Fair picking.** In every run from `cfs_rq_init` in which no `vruntime` wraps
and accounting a queued entity keeps its key below those after it,
`cfs_rq_pick_next` returns a queued entity with the least `vruntime`. -/
theorem pick_next_is_fairest {entities : CfsRq α} (idle : ∀ a, entities.onRq a = false)
    {ops : List (Op α)}
    (meets : MeetsPartial SchedCfs.step
      (fun rq op => NoWrap rq op ∧ SingleChild rq op ∧ StaysInPlace rq op)
      (cfsRqInit entities) ops) :
    ∃ rq, runPartial SchedCfs.step (cfsRqInit entities) ops = some rq ∧
      ∃ next, cfsRqPickNext rq = some next ∧ Fairest rq next := by
  obtain ⟨rq, ran, fair⟩ := MeetsPartial.invariant (P := FairState)
    (fun rq op fair condition => fair.step condition.1 condition.2.1 condition.2.2)
    ⟨.nil, cfsRqInit_queued idle, List.Pairwise.nil⟩ meets
  exact ⟨rq, ran, fair.fairest⟩

/-- **Accounting the running task breaks the order.** Two tasks are queued with
`vruntime` 0; after a tick is accounted to the first, which stays queued, it is
still picked, although the other one has the smaller `vruntime`. -/
theorem accounting_breaks_order :
    (∀ a, threeEntities.onRq a = false) ∧
      MeetsPartial SchedCfs.step NoWrap (cfsRqInit threeEntities)
        [.enqueue 0, .enqueue 1, .account 0 1000000] ∧
      ∃ rq, runPartial SchedCfs.step (cfsRqInit threeEntities)
        [.enqueue 0, .enqueue 1, .account 0 1000000] = some rq ∧
        ¬ ∃ next, cfsRqPickNext rq = some next ∧ Fairest rq next := by
  refine ⟨fun _ => rfl, by decide, Returns.of_map
    (f := fun rq => (cfsRqPickNext rq, rq.onRq 1, decide (rq.vruntime 0 ≤ rq.vruntime 1)))
    (v := (some (some 0), true, false)) (by decide) fun rq after => ?_⟩
  simp only [Prod.mk.injEq, decide_eq_false_iff_not] at after
  obtain ⟨picked, on, larger⟩ := after
  rintro ⟨next, found, fairest⟩
  rw [picked] at found
  cases found
  exact larger (fairest.2 1 on)

/-- A run with accounting before and after queueing that keeps the order. -/
theorem pick_next_is_fairest_in_order :
    ∃ rq, runPartial SchedCfs.step (cfsRqInit threeEntities)
        [.enqueue 0, .account 1 1000000, .enqueue 1, .account 0 500000] = some rq ∧
      ∃ next, cfsRqPickNext rq = some next ∧ Fairest rq next :=
  pick_next_is_fairest (fun _ => rfl) (by decide)

end FunsOS.SchedCfs
