import FunsOS.Foundation.LinkFrame
import FunsOS.SchedCfs.Content

/-!
# What a run queue's updates leave alone

The entities of all run queues have their links in one memory. `rb_insert` and `rb_erase` of one
queue follow links from the queue's own entities only, so they change no link of an entity that
is neither in the queue's tree nor the one inserted (`rbInsert_outside`, `unlink_outside`).
`cfsRqEnqueue_frame` and `cfsRqDequeue_frame` say the same of the queue's calls, with what they do
to the tree and to the counters.
-/

set_option autoImplicit false

namespace FunsOS.SchedCfs

open Foundation Links Option
open Function (update)

universe u

variable {α : Type u} [DecidableEq α] {rq rq' : CfsRq α} {S : Set α} {side : Side}

theorem rbRotate_inside {x : α} (within : rq.links.Within S) (member : x ∈ S)
    (rotated : rbRotate side rq x = some rq') : Inside S rq.links rq'.links := by
  obtain ⟨links, turned, rfl⟩ := map_eq_some_iff.mp rotated
  exact within.rotate member turned

variable {se : α} {t : BinaryTree α}

/-- The rotations of one round stay inside, and end at an entity of the set. -/
theorem rebalanceRotate_inside {se' p g : α} (within : rq.links.Within S) (se_member : se ∈ S)
    (p_member : p ∈ S) (g_member : g ∈ S)
    (rotated : rebalanceRotate side rq se p g = some (rq', se')) :
    Inside S rq.links rq'.links ∧ se' ∈ S := by
  obtain ⟨⟨first, inner⟩, turned, last⟩ := bind_eq_some_iff.mp rotated
  have start : Inside S rq.links first.links ∧ inner ∈ S := by
    split at turned
    · obtain ⟨middle, toInner, same⟩ := map_eq_some_iff.mp turned
      obtain ⟨rfl, rfl⟩ := Prod.mk.inj same
      exact ⟨rbRotate_inside within p_member toInner, p_member⟩
    · obtain ⟨rfl, rfl⟩ := Prod.mk.inj (some.inj turned)
      exact ⟨Inside.refl within, se_member⟩
  dsimp only at last
  split at last
  · cases last
  · next parent _ =>
      obtain ⟨final, outer, same⟩ := map_eq_some_iff.mp last
      obtain ⟨rfl, rfl⟩ := Prod.mk.inj same
      have colored : ((first.setColor parent .black).setColor g .red).links.Within S :=
        start.1.within
      have turned := rbRotate_inside colored g_member outer
      exact ⟨start.1.trans turned, start.2⟩

theorem rebalance_inside {fuel : Nat} (within : rq.links.Within S) (member : se ∈ S)
    (balanced : rebalance fuel rq se = some rq') : Inside S rq.links rq'.links := by
  induction fuel generalizing rq se with
  | zero => cases balanced
  | succ fuel ih =>
    rw [rebalance] at balanced
    split at balanced
    · cases balanced
      exact Inside.refl within
    next p up =>
    split at balanced
    · cases balanced
      exact Inside.refl within
    split at balanced
    · cases balanced
      exact Inside.refl within
    next g higher =>
    have p_member := within.parent member up
    have g_member := within.parent p_member higher
    dsimp only at balanced
    split at balanced
    · next u _ =>
        have colored : (((rq.setColor p .black).setColor u .black).setColor g .red).links.Within S :=
          within
        have later := ih colored g_member balanced
        exact later
    · obtain ⟨⟨next, se'⟩, rotated, later⟩ := bind_eq_some_iff.mp balanced
      obtain ⟨inside, se'_member⟩ := rebalanceRotate_inside within member p_member g_member rotated
      exact inside.trans (ih inside.within se'_member later)

/-- Unlinking an entity changes no link outside the tree. -/
theorem unlink_outside {links : Links α} (rep : links.Represents t) (member : se ∈ inorder t) :
    ∀ a ∉ inorder t, (clearLinks (links.unlink se) se).parent a = links.parent a ∧
      ∀ s, (clearLinks (links.unlink se) se).child s a = links.child s a := by
  have nowhere : ∀ b, (none : Option α) = some b → b ∈ {a | a ∈ inorder t} := fun b => nofun
  exact ((((rep.within.unlink member).setChild nowhere member).setChild nowhere
    member).setParent nowhere member).outside

variable [Fintype α]

/-- `rb_insert` changes no link outside the tree and the new entity. -/
theorem rbInsert_outside (rep : rq.links.Represents t) (fresh : se ∉ inorder t)
    (inserted : rbInsert rq se = some rq') :
    ∀ a ∉ inorder t, a ≠ se →
      rq'.links.parent a = rq.links.parent a ∧ ∀ s, rq'.links.child s a = rq.links.child s a := by
  obtain ⟨place, walked, rest⟩ := bind_eq_some_iff.mp inserted
  obtain ⟨balanced, rebalanced, last⟩ := bind_eq_some_iff.mp rest
  have within := rep.within
  have at_member := within.walk (fun b leads => within.root leads) (by simp) walked
  have attached := within.attach at_member fresh
  have colored : ({ rq with links := rq.links.attach place se }.setColor se .red).links.Within
      (insert se {a | a ∈ inorder t}) := attached.within
  have inside := attached.trans (rebalance_inside colored (.inl rfl) rebalanced)
  have same : rq'.links = balanced.links := by
    split at last
    · cases last
    · cases last
      rfl
  intro a outside other
  rw [same]
  refine inside.outside a ?_
  rintro (rfl | member)
  · exact other rfl
  · exact outside member

/-! ## The calls -/

/-- `cfs_rq_enqueue` of an entity that is not queued: it is added to the tree and counted, and
no link outside changes. -/
theorem cfsRqEnqueue_frame (rep : rq.links.Represents t) (fresh : se ∉ inorder t)
    (off : rq.onRq se = false) :
    ∃ rq' t', cfsRqEnqueue rq se = some rq' ∧ rq'.links.Represents t' ∧
      (∀ a, a ∈ inorder t' ↔ a = se ∨ a ∈ inorder t) ∧
      (∀ a ∉ inorder t, a ≠ se → rq'.links.parent a = rq.links.parent a ∧
        ∀ s, rq'.links.child s a = rq.links.child s a) ∧
      rq'.weight = rq.weight ∧ rq'.onRq = update rq.onRq se true ∧
      rq'.nrRunning = rq.nrRunning + 1 ∧
      rq'.weightSum = int32 (rq.weightSum + int32 (rq.weight se)) := by
  have moved : ({ rq with vruntime := update rq.vruntime se (clamped rq se) } :
      CfsRq α).links.Represents t := rep
  obtain ⟨rq', t', before, after, inserted, represents, old, new, -, same, weightSum, -⟩ :=
    rbInsert_spec moved fresh
  have outside := rbInsert_outside moved fresh inserted
  refine ⟨_, t', cfsRqEnqueue_of_off off inserted, represents, fun a => ?_, outside, same.weight,
    ?_, ?_, ?_⟩
  · rw [new, old]
    simp only [List.mem_append, List.mem_cons]
    exact or_left_comm
  · exact congrArg (fun onRq => update onRq se true) same.onRq
  · exact congrArg (· + 1) same.nrRunning
  · rw [weightSum, same.weight]

/-- `cfs_rq_dequeue` of a queued entity with at most one child: it is taken out of the tree and
off the counters, and no link outside changes. -/
theorem cfsRqDequeue_frame (rep : rq.links.Represents t) (member : se ∈ inorder t) (on : rq.onRq se)
    (single : rq.links.child .left se = none ∨ rq.links.child .right se = none) :
    ∃ rq' t', cfsRqDequeue rq se = some rq' ∧ rq'.links.Represents t' ∧
      (∀ a, a ∈ inorder t' ↔ a ≠ se ∧ a ∈ inorder t) ∧
      (∀ a ∉ inorder t, rq'.links.parent a = rq.links.parent a ∧
        ∀ s, rq'.links.child s a = rq.links.child s a) ∧
      rq'.weight = rq.weight ∧ rq'.onRq = update rq.onRq se false ∧
      rq'.nrRunning = rq.nrRunning - 1 ∧
      rq'.weightSum =
        if rq.weight se ≠ 0 ∧ int32 (rq.weight se) ≤ rq.weightSum then
          int32 (rq.weightSum - int32 (rq.weight se))
        else rq.weightSum := by
  obtain ⟨t', before, after, represents, old, new, gone⟩ := unlink_spec rep member single
  refine ⟨_, t', cfsRqDequeue_of_single on single, represents, fun a => ?_,
    unlink_outside rep member, rfl, rfl, rfl, rfl⟩
  rw [new, old]
  by_cases here : a = se
  · subst here
    simpa using gone
  · simp [here]

end FunsOS.SchedCfs
