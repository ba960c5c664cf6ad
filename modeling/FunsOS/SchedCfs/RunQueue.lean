import Mathlib.Data.Fintype.Card
import Mathlib.Tactic.NormNum
import FunsOS.Foundation.PointerTree

/-!
# The CFS run queue

The run queue of `kernel/sched_cfs.c`: entities in a red-black tree keyed by
`vruntime`, with insertion and its rebalancing loop, the simplified erase,
picking the leftmost entity, and the accounting of run time.

The entities are the elements of a finite type, so that one state holds the
fields of all entities, queued or not, and of the queue. `rb_left`, `rb_right`
and `rb_parent` of the entities and `rq->root` are the `links`. The two rotations
and the two halves of the rebalancing loop mirror each other in the source; they
are one definition each, with a side.

A loop runs with more fuel than there are entities: one that uses it up goes
round in a cycle. `none` stands for that, and for a read through NULL. The
element counts stay below the number of entities in memory, so they are not
reduced modulo `2 ^ 32`; `nr_running` is signed, and is below 0 when entities are
dequeued that another queue holds. `vruntime` and `min_vruntime` are 64-bit words.
-/

set_option autoImplicit false

namespace FunsOS.SchedCfs

open Foundation
open Function (update)

universe u

/-- `RB_RED` and `RB_BLACK`. -/
inductive Color where
  | red
  | black
  deriving DecidableEq, Repr

def nice0Load : Nat := 1024

/-- The number of 64-bit words. -/
def wordLimit64 : Nat := 2 ^ 64

/-- The value of a 32-bit signed integer. -/
def int32 (x : Int) : Int := Int.bmod x (2 ^ 32)

/-- The fields of the entities and of the queue. -/
structure CfsRq (α : Type u) where
  links : Links α
  rbColor : α → Color
  vruntime : α → Nat
  sumExecRuntime : α → Nat
  weight : α → Nat
  onRq : α → Bool
  rbNodeCount : Nat
  minVruntime : Nat
  execClock : Nat
  nrRunning : Int
  weightSum : Int

variable {α : Type u}

/-- `cfs_rq_init`: the queue's fields are cleared; the entities are as they are. -/
def cfsRqInit (entities : CfsRq α) : CfsRq α :=
  { entities with
    links := { entities.links with root := none }
    rbNodeCount := 0, minVruntime := 0, execClock := 0, nrRunning := 0, weightSum := 0 }

variable [DecidableEq α] (rq : CfsRq α)

/-- `rb_set_color`. -/
def CfsRq.setColor (a : α) (color : Color) : CfsRq α :=
  { rq with rbColor := update rq.rbColor a color }

/-- A rotation; `rb_rotate_left` is the one towards the left. -/
def rbRotate (side : Side) (rq : CfsRq α) (x : α) : Option (CfsRq α) :=
  (rq.links.rotate side x).map fun links => { rq with links }

def rbRotateLeft (x : α) : Option (CfsRq α) := rbRotate .left rq x

def rbRotateRight (x : α) : Option (CfsRq α) := rbRotate .right rq x

/-! ## Insertion -/

def redUncle : Option α → Option α
  | none => none
  | some u => if rq.rbColor u = .red then some u else none

/-- The rotations of one round of rebalancing, for a parent `p` on the given side
of the grandparent `g`: first at the parent when the entity is its inner child,
then at the grandparent. -/
def rebalanceRotate (side : Side) (rq : CfsRq α) (se p g : α) : Option (CfsRq α × α) :=
  let inner :=
    if rq.links.child side.flip p = some se then (rbRotate side rq p).map fun rq => (rq, p)
    else some (rq, se)
  inner.bind fun (rq, se) =>
    match rq.links.parent se with
    | none => none
    | some parent =>
      (rbRotate side.flip ((rq.setColor parent .black).setColor g .red) g).map fun rq => (rq, se)

/-- The rebalancing loop of `rb_insert`. -/
def rebalance : Nat → CfsRq α → α → Option (CfsRq α)
  | 0, _, _ => none
  | fuel + 1, rq, se =>
    match rq.links.parent se with
    | none => some rq
    | some p =>
      if rq.rbColor p ≠ .red then some rq
      else
        match rq.links.parent p with
        | none => some rq
        | some g =>
          let side : Side := if rq.links.child .left g = some p then .left else .right
          match redUncle rq (rq.links.child side.flip g) with
          | some u =>
            rebalance fuel (((rq.setColor p .black).setColor u .black).setColor g .red) g
          | none =>
            (rebalanceRotate side rq se p g).bind fun (rq, se) => rebalance fuel rq se

section

variable [Fintype α]

/-- More steps than there are entities. -/
def walkLimit (α : Type u) [Fintype α] : Nat := Fintype.card α + 1

variable (rq : CfsRq α)

def rbInsert (se : α) : Option (CfsRq α) :=
  (rq.links.walk (fun b => decide (rq.vruntime se < rq.vruntime b)) (walkLimit α)
      rq.links.root none).bind fun place =>
    let rq := { rq with links := rq.links.attach place se }
    (rebalance (walkLimit α) (rq.setColor se .red) se).bind fun rq =>
      match rq.links.root with
      | none => none
      | some root =>
        some { rq.setColor root .black with rbNodeCount := rq.rbNodeCount + 1 }

/-! ## Erasing -/

/-- Clear the three tree links of an entity. -/
def clearLinks (links : Links α) (a : α) : Links α :=
  ((links.setChild .left a none).setChild .right a none).setParent a none

/-- The node `rb_erase` takes out: the entity, or its successor when it has two
children, whose `vruntime` the entity then gets. -/
def eraseTarget (se : α) : Option (CfsRq α × α) :=
  match rq.links.child .left se, rq.links.child .right se with
  | some _, some r =>
    (rq.links.minimum (walkLimit α) r).map fun succ =>
      ({ rq with vruntime := update rq.vruntime se (rq.vruntime succ) }, succ)
  | _, _ => some (rq, se)

def rbErase (se : α) : Option (CfsRq α) :=
  (eraseTarget rq se).map fun (rq, target) =>
    { rq with
      links := clearLinks (rq.links.unlink target) se
      rbNodeCount := rq.rbNodeCount - 1 }

/-! ## The queue's calls -/

def cfsRqEnqueue (se : α) : Option (CfsRq α) :=
  if rq.onRq se then some rq
  else
    let rq :=
      if rq.vruntime se < rq.minVruntime then
        { rq with vruntime := update rq.vruntime se rq.minVruntime }
      else rq
    (rbInsert rq se).map fun rq =>
      { rq with
        onRq := update rq.onRq se true
        nrRunning := rq.nrRunning + 1
        weightSum := int32 (rq.weightSum + int32 (rq.weight se)) }

def cfsRqDequeue (se : α) : Option (CfsRq α) :=
  if rq.onRq se = false then some rq
  else
    (rbErase rq se).map fun rq =>
      { rq with
        onRq := update rq.onRq se false
        nrRunning := rq.nrRunning - 1
        weightSum :=
          if rq.weight se ≠ 0 ∧ int32 (rq.weight se) ≤ rq.weightSum then
            int32 (rq.weightSum - int32 (rq.weight se))
          else rq.weightSum }

/-- `cfs_rq_pick_next`, which is `rb_leftmost`. -/
def cfsRqPickNext : Option (Option α) :=
  match rq.links.root with
  | none => some none
  | some root => (rq.links.minimum (walkLimit α) root).map some

/-- How far `cfs_rq_account` moves an entity's `vruntime`. -/
def vruntimeDelta (se : α) (deltaExec : Nat) : Nat :=
  deltaExec * nice0Load % wordLimit64 / (if rq.weight se = 0 then 1 else rq.weight se)

def cfsRqAccount (se : α) (deltaExec : Nat) : CfsRq α :=
  let vruntime := (rq.vruntime se + vruntimeDelta rq se deltaExec) % wordLimit64
  { rq with
    vruntime := update rq.vruntime se vruntime
    sumExecRuntime := update rq.sumExecRuntime se ((rq.sumExecRuntime se + deltaExec) % wordLimit64)
    minVruntime := if rq.minVruntime < vruntime then vruntime else rq.minVruntime
    execClock := (rq.execClock + deltaExec) % wordLimit64 }

/-- A call on the run queue. -/
inductive Op (α : Type u) where
  | enqueue (se : α)
  | dequeue (se : α)
  | pickNext
  | account (se : α) (deltaExec : Nat)

/-- One call. -/
def step : Op α → Option (CfsRq α)
  | .enqueue se => cfsRqEnqueue rq se
  | .dequeue se => cfsRqDequeue rq se
  | .pickNext => (cfsRqPickNext rq).map fun _ => rq
  | .account se deltaExec => some (cfsRqAccount rq se deltaExec)

end

/-!
## What the tree operations do to the run queue's tree

`rb_insert`, its rebalancing loop and `rb_erase` of an entity with at most one
child, described by what they do to the tree the links represent. The
rebalancing loop ends and keeps the order of the entities, for any colours
(`rebalance_spec`); `rb_insert` puts the new entity behind those that do not have
a larger `vruntime`, where the order is by `vruntime` (`rbInsert_spec`);
`rb_erase` takes the entity out (`unlink_spec`).
-/

open Links Option Nat

variable {α : Type u} {rq : CfsRq α}

/-- `rq'` differs from `rq` in the links and the colours only. -/
def SameBut (rq rq' : CfsRq α) : Prop :=
  rq' = { rq with links := rq'.links, rbColor := rq'.rbColor }

theorem SameBut.refl : SameBut rq rq := rfl

variable {rq' : CfsRq α} {side : Side} {p g : α} {inner outer : BinaryTree α}

theorem SameBut.trans {rq'' : CfsRq α} (first : SameBut rq rq') (second : SameBut rq' rq'') :
    SameBut rq rq'' := by
  rw [SameBut] at first second ⊢
  rw [second, first]

variable [DecidableEq α] {color : Color} {a : α}

theorem sameBut_setColor : SameBut rq (rq.setColor a color) := rfl

theorem SameBut.setColor (same : SameBut rq rq') :
    SameBut rq (rq'.setColor a color) := same.trans sameBut_setColor

/-! ## Rebalancing -/

variable {fs : List (Frame α)} {near far : BinaryTree α} {s : Side} {se : α}

/-- The last rotation of a round: with the entity on the outer side of its
parent, the parent goes over the grandparent. -/
theorem outerRotate_spec (rep : rq.links.Represents
      (plug (⟨side, p, inner⟩ :: ⟨side, g, outer⟩ :: fs) (branch s se near far))) :
    ∃ rq' t', rbRotate side.flip ((rq.setColor p .black).setColor g .red) g = some rq' ∧
      SameBut rq rq' ∧ rq'.links.Represents t' ∧
      inorder t' = inorder (plug (⟨side, p, inner⟩ :: ⟨side, g, outer⟩ :: fs)
        (branch s se near far)) ∧
      rq'.links.parent se = some p ∧ rq'.rbColor p = .black := by
  have apart : p ≠ g := by
    have parentRep : rq.links.Represents (plug (⟨side, g, outer⟩ :: fs)
        (branch side p (branch s se near far) inner)) := rep
    rintro rfl
    exact parentRep.notMem_ctx (by simp [ctxNodes])
  obtain ⟨links, rotated, represents⟩ := rep.rotate_outer
  have lifted : links.Represents (plug (⟨side, p, branch side g inner outer⟩ :: fs)
      (branch s se near far)) := represents
  refine ⟨{ (rq.setColor p .black).setColor g .red with links }, _, ?_, rfl, represents,
    ?_, lifted.parent, ?_⟩
  · simp [rbRotate, CfsRq.setColor, rotated]
  · rw [plug, plug, inorder_plug, inorder_plug]
    cases side <;> simp [branch]
  · simp [CfsRq.setColor, apart]

/-- The rotations of one round: they keep the order, and leave the entity they
end at under a black parent. -/
theorem rebalanceRotate_spec {inside : Side} (rep : rq.links.Represents
      (plug (⟨inside, p, inner⟩ :: ⟨side, g, outer⟩ :: fs) (branch s se near far))) :
    ∃ rq' se' parent t', rebalanceRotate side rq se p g = some (rq', se') ∧ SameBut rq rq' ∧
      rq'.links.Represents t' ∧
      inorder t' = inorder (plug (⟨inside, p, inner⟩ :: ⟨side, g, outer⟩ :: fs)
        (branch s se near far)) ∧
      rq'.links.parent se' = some parent ∧ rq'.rbColor parent = .black := by
  rcases Side.eq_or_eq_flip side inside with rfl | rfl
  · -- the entity is the outer child
    have notInner : rq.links.child inside.flip p ≠ some se := rep.child_flip_ne
    obtain ⟨rq', t', rotated, same, represents, order, parent, color⟩ := outerRotate_spec rep
    refine ⟨rq', se, p, t', ?_, same, represents, order, parent, color⟩
    have up : rq.links.parent se = some p := rep.parent
    simp only [rebalanceRotate, if_neg notInner, bind_some, up, rotated, map_some]
  · -- the entity is the inner child: it first goes over its parent
    have isInner : rq.links.child side.flip p = some se := rep.slot
    obtain ⟨links, near', far', rotated, represents, turned, -⟩ := rep.rotate_inner
    have outerRep : ({ rq with links } : CfsRq α).links.Represents
        (plug (⟨side, se, far'⟩ :: ⟨side, g, outer⟩ :: fs) (branch side p inner near')) := represents
    have up : links.parent p = some se := outerRep.parent
    obtain ⟨rq', t', last, sameLast, final, order, parent, color⟩ := outerRotate_spec outerRep
    refine ⟨rq', p, se, t', ?_, sameLast, final, order.trans turned, parent, color⟩
    simp only [rebalanceRotate, if_pos isInner, rbRotate, rotated, map_some, bind_some, up]
    rw [rbRotate] at last
    simp only [last, map_some]

/-- **Rebalancing ends, and keeps the order**, from any entity of the tree and for
any colours. -/
theorem rebalance_spec {fuel : Nat} (rep : rq.links.Represents (plug fs (branch s se near far)))
    (enough : fs.length < fuel) :
    ∃ rq' t', rebalance fuel rq se = some rq' ∧ SameBut rq rq' ∧ rq'.links.Represents t' ∧
      inorder t' = inorder (plug fs (branch s se near far)) := by
  -- a recoloured round goes on two nodes further up; a rotated one is the last
  induction fuel generalizing rq fs s se near far with
  | zero => exact absurd enough (not_lt_zero _)
  | succ fuel ih =>
    have stay : ∃ rq' t', some rq = some rq' ∧ SameBut rq rq' ∧ rq'.links.Represents t' ∧
        inorder t' = inorder (plug fs (branch s se near far)) :=
      ⟨rq, _, rfl, SameBut.refl, rep, rfl⟩
    have up := rep.parent
    match fs, rep, enough, stay, up with
    | [], rep, _, stay, up => simpa only [rebalance, up, above] using stay
    | [f], rep, _, stay, up =>
      have top : rq.links.parent f.node = none := by
        have parentRep : rq.links.Represents (plug []
            (branch f.side f.node (branch s se near far) f.sibling)) := rep
        exact parentRep.parent
      by_cases red : rq.rbColor f.node = .red
      · simpa only [rebalance, up, above, red, ne_eq, not_true_eq_false, if_false, top] using stay
      · simpa only [rebalance, up, above, red, ne_eq, not_false_eq_true, if_true] using stay
    | ⟨inside, p, inner⟩ :: ⟨side, g, outer⟩ :: fs, rep, enough, stay, up =>
      by_cases red : rq.rbColor p = .red
      swap
      · simpa only [rebalance, up, above, red, ne_eq, not_false_eq_true, if_true] using stay
      have parentRep : rq.links.Represents (plug (⟨side, g, outer⟩ :: fs)
          (branch inside p (branch s se near far) inner)) := rep
      have grandRep : rq.links.Represents (plug fs
          (branch side g (branch inside p (branch s se near far) inner) outer)) := rep
      have upper : rq.links.parent p = some g := parentRep.parent
      have here : (if rq.links.child .left g = some p then Side.left else Side.right) =
          side := parentRep.side_eq
      simp only [rebalance, up, above, red, ne_eq, not_true_eq_false, if_false, upper, here]
      simp only [List.length_cons] at enough
      cases uncle : redUncle rq (rq.links.child side.flip g) with
      | some u =>
        have colored : (((rq.setColor p .black).setColor u .black).setColor g
            .red).links.Represents (plug fs (branch side g
              (branch inside p (branch s se near far) inner) outer)) := grandRep
        obtain ⟨rq', t', ended, same, represents, order⟩ := ih colored (by omega)
        refine ⟨rq', t', ended, ?_, represents, order⟩
        exact ((sameBut_setColor.setColor).setColor).trans same
      | none =>
        obtain ⟨rq', se', parent, t', rotated, same, represents, order, higher, black⟩ :=
          rebalanceRotate_spec rep
        obtain ⟨fuel, rfl⟩ := exists_eq_succ_of_ne_zero (n := fuel) (by omega)
        refine ⟨rq', t', ?_, same, represents, order⟩
        simp only [rotated, bind_some]
        simp [rebalance, higher, black]

/-! ## Insertion and erasing -/

omit [DecidableEq α] in
theorem length_lt_walkLimit [Fintype α] {t : BinaryTree α} (nodup : (inorder t).Nodup) :
    (inorder t).length < walkLimit α :=
  lt_succ_of_le nodup.length_le_card

section

variable [Fintype α]

/-- The fields that inserting or erasing an entity leaves alone. -/
structure SameFields (rq rq' : CfsRq α) : Prop where
  vruntime : rq'.vruntime = rq.vruntime
  weight : rq'.weight = rq.weight
  onRq : rq'.onRq = rq.onRq
  nrRunning : rq'.nrRunning = rq.nrRunning

variable {t : BinaryTree α}

/-- `rb_insert` of a new entity puts it into the order: behind entities that do
not have a larger `vruntime` and before those that do, when the order is by
`vruntime`. -/
theorem rbInsert_spec (rep : rq.links.Represents t) (fresh : se ∉ inorder t) :
    ∃ rq' t' before after, rbInsert rq se = some rq' ∧ rq'.links.Represents t' ∧
      inorder t = before ++ after ∧ inorder t' = before ++ se :: after ∧
      ((inorder t).Pairwise (fun a b => rq.vruntime a ≤ rq.vruntime b) →
        (∀ b ∈ before, rq.vruntime b ≤ rq.vruntime se) ∧
          ∀ b ∈ after, rq.vruntime se < rq.vruntime b) ∧
      SameFields rq rq' ∧ rq'.weightSum = rq.weightSum ∧
      rq'.rbNodeCount = rq.rbNodeCount + 1 := by
  obtain ⟨fs, walked, rfl, shallow, leaf, split⟩ := rep.walk
    (fun b => decide (rq.vruntime se < rq.vruntime b)) (length_lt_walkLimit rep.nodup)
  have attached : ({ rq with links := rq.links.attach (place fs) se }.setColor se
      .red).links.Represents (plug fs (branch .left se .nil .nil)) := (leaf se fresh).2
  obtain ⟨rq', t', balanced, same, represents, order⟩ := rebalance_spec attached shallow
  have orderNew : inorder t' = ctxBefore fs ++ se :: ctxAfter fs := by
    rw [order, inorder_plug]
    simp [branch]
  have orderOld : inorder (plug fs .nil) = ctxBefore fs ++ ctxAfter fs := by
    rw [inorder_plug]
    simp
  obtain ⟨root, rooted'⟩ : ∃ root, rq'.links.root = some root := by
    cases t' with
    | nil => exact absurd orderNew (by simp)
    | node root l r => exact ⟨root, represents.holds.1⟩
  refine ⟨{ rq'.setColor root .black with rbNodeCount := rq'.rbNodeCount + 1 }, t', ctxBefore fs,
    ctxAfter fs, ?_, represents, orderOld, orderNew, fun sorted => ?_, ?_⟩
  · rw [rbInsert, walked]
    simp only [balanced, bind_some, rooted']
  · obtain ⟨rights, lefts⟩ := split <| sorted.imp fun {a b} le goes => by
      rw [decide_eq_true_eq] at goes ⊢
      exact lt_of_lt_of_le goes le
    refine ⟨fun b member => ?_, fun b member => of_decide_eq_true (lefts b member)⟩
    exact not_lt.mp (of_decide_eq_false (rights b member))
  · rw [same]
    exact ⟨⟨rfl, rfl, rfl, rfl⟩, rfl, rfl⟩

/-- `rb_erase` of an entity with at most one child unlinks that entity. -/
theorem rbErase_of_single
    (single : rq.links.child .left se = none ∨ rq.links.child .right se = none) :
    rbErase rq se = some { rq with
      links := clearLinks (rq.links.unlink se) se, rbNodeCount := rq.rbNodeCount - 1 } := by
  have target : eraseTarget rq se = some (rq, se) := by
    rcases single with none | none
    · simp only [eraseTarget, none]
    · simp only [eraseTarget, none]
      cases rq.links.child .left se <;> rfl
  rw [rbErase, target, map_some]

omit [Fintype α] in
/-- Unlinking an entity with at most one child takes it out of the order. -/
theorem unlink_spec {links : Links α} (rep : links.Represents t) (member : se ∈ inorder t)
    (single : links.child .left se = none ∨ links.child .right se = none) :
    ∃ t' before after, (clearLinks (links.unlink se) se).Represents t' ∧
      inorder t = before ++ se :: after ∧ inorder t' = before ++ after ∧
      se ∉ before ++ after := by
  obtain ⟨fs, l, r, rfl⟩ := exists_plug_of_mem member
  obtain ⟨-, -, -, leftHolds, rightHolds⟩ := holds_plug.mp rep.holds
  obtain ⟨side, far, shape⟩ : ∃ side far, BinaryTree.node se l r = branch side se .nil far := by
    rcases single with none | none
    · rw [none] at leftHolds
      exact ⟨.left, r, by rw [leftHolds.eq_nil]; rfl⟩
    · rw [none] at rightHolds
      exact ⟨.right, l, by rw [rightHolds.eq_nil]; rfl⟩
  rw [shape] at rep ⊢
  obtain ⟨before, after, whole, rest, outside⟩ := rep.single_split
  exact ⟨plug fs far, before, after, rep.unlink.cleared (rest ▸ outside), whole, rest, outside⟩

omit [DecidableEq α] in
/-- `cfs_rq_pick_next` returns the first entity in order. -/
theorem cfsRqPickNext_head (rep : rq.links.Represents t) :
    cfsRqPickNext rq = some (inorder t).head? := by
  have holds := rep.holds
  cases root : rq.links.root with
  | none =>
    rw [root] at holds
    rw [cfsRqPickNext, root, holds.eq_nil]
    rfl
  | some a =>
    rw [root] at holds
    obtain ⟨first, rest, order, found⟩ := holds.minimum (length_lt_walkLimit rep.nodup)
    rw [cfsRqPickNext, root]
    simp only [found, map_some, order, List.head?_cons]

end

end FunsOS.SchedCfs
