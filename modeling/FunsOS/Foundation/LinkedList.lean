import Mathlib.Data.List.Nodup

/-!
# Linked segments

A link field is a map from nodes to nodes or NULL. `Seg next p as q` says that
following the field from `p` meets the nodes `as` in order and then arrives at
`q`; a NULL-terminated list is a segment that ends in NULL.

A segment reads the field only at its own nodes (`Seg.congr`), splits where its
node list splits (`seg_append`), and is determined by its start
(`Seg.unique_of_none`). A list that ends in NULL meets no node twice
(`Seg.nodup`).
-/

set_option autoImplicit false

namespace FunsOS.Foundation

open List

universe u v

variable {α : Type u}

/-- Following `next` from `p` meets exactly `as` and arrives at `q`. -/
def Seg (next : α → Option α) : Option α → List α → Option α → Prop
  | p, [], q => p = q
  | p, a :: as, q => p = some a ∧ Seg next (next a) as q

variable {next : α → Option α} {p q : Option α} {a : α} {as : List α}

@[simp] theorem seg_nil : Seg next p [] q ↔ p = q := Iff.rfl

@[simp] theorem seg_cons : Seg next p (a :: as) q ↔ p = some a ∧ Seg next (next a) as q := Iff.rfl

variable {first second before after : List α}

/-- A segment over a concatenation is two segments that meet. -/
theorem seg_append :
    Seg next p (first ++ second) q ↔ ∃ r, Seg next p first r ∧ Seg next r second q := by
  induction first generalizing p with
  | nil => simp
  | cons a as ih => simp only [cons_append, seg_cons, ih, exists_and_left, and_assoc]

/-- Splitting a segment at one of its nodes. -/
theorem seg_split :
    Seg next p (before ++ a :: after) q ↔
      Seg next p before (some a) ∧ Seg next (next a) after q := by
  rw [seg_append]
  constructor
  · rintro ⟨r, left, rfl, right⟩
    exact ⟨left, right⟩
  · rintro ⟨left, right⟩
    exact ⟨some a, left, rfl, right⟩

/-- A segment reads the field at its own nodes only. -/
theorem Seg.congr {next' : α → Option α} (agree : ∀ a ∈ as, next' a = next a)
    (seg : Seg next p as q) : Seg next' p as q := by
  induction as generalizing p with
  | nil => exact seg
  | cons a as ih =>
    refine ⟨seg.1, ?_⟩
    rw [agree a mem_cons_self]
    exact ih (forall_mem_cons.mp agree).2 seg.2

/-- A write at a node outside a segment does not change it. -/
theorem Seg.update_of_notMem [DecidableEq α] (value : Option α) (outside : a ∉ as)
    (seg : Seg next p as q) : Seg (Function.update next a value) p as q := by
  refine seg.congr fun b member => Function.update_of_ne ?_ _ _
  rintro rfl
  exact outside member

/-- A list that ends in NULL is determined by its start. -/
theorem Seg.unique_of_none (seg : Seg next p first none) (other : Seg next p second none) :
    first = second := by
  induction first generalizing p second with
  | nil =>
    cases second with
    | nil => rfl
    | cons b bs => exact absurd (seg.symm.trans other.1) (by simp)
  | cons a as ih =>
    cases second with
    | nil => exact absurd (other.symm.trans seg.1) (by simp)
    | cons b bs =>
      have same : a = b := Option.some.inj (seg.1.symm.trans other.1)
      subst same
      rw [ih seg.2 other.2]

/-- A list that ends in NULL meets no node twice. -/
theorem Seg.nodup (seg : Seg next p as none) : as.Nodup := by
  induction as generalizing p with
  | nil => exact nodup_nil
  | cons a as ih =>
    refine nodup_cons.mpr ⟨fun member => ?_, ih seg.2⟩
    -- meeting `a` again would start the same list again, one node later
    obtain ⟨before, after, split⟩ := append_of_mem member
    have tail : Seg next (next a) after none := by
      have whole := seg.2
      rw [split] at whole
      exact (seg_split.mp whole).2
    have same := seg.2.unique_of_none tail
    have lengths := congrArg length (split.symm.trans same)
    simp only [length_append, length_cons] at lengths
    omega

/-- The nodes before and after a node of a list are other nodes. -/
theorem Seg.split_ne (seg : Seg next p (before ++ a :: after) none) :
    (∀ b ∈ before, b ≠ a) ∧ ∀ b ∈ after, b ≠ a := by
  have fresh := (nodup_cons.mp (nodup_middle.mp seg.nodup)).1
  constructor
  · rintro b earlier rfl
    exact fresh (mem_append_left _ earlier)
  · rintro b later rfl
    exact fresh (mem_append_right _ later)

/-- The start of a list that ends in NULL is the first node, if there is one. -/
theorem Seg.start_eq_head? (seg : Seg next p as none) : p = as.head? := by
  cases as with
  | nil => exact seg
  | cons a as => exact seg.1

/-!
## Loops over linked lists

Two kinds of loops that follow a link field to its end: a search for the first node that
passes a test (`scanList`), and a loop whose body changes the state at every node
(`forEachNode`). Both take a bound on the number of nodes; a loop that has not ended by then
gives no result.

On a list that ends in NULL and has no more nodes than the bound, the search finds what
`List.find?` finds, and the loop is a fold over the nodes if its body leaves the links alone.
-/

variable {State : Type v}

/-- `while (p) { if (test(p)) return p; p = p->next; } return NULL;` -/
def scanList (next : α → Option α) (test : α → Bool) : Nat → Option α → Option (Option α)
  | _, none => some none
  | 0, some _ => none
  | fuel + 1, some a => if test a then some (some a) else scanList next test fuel (next a)

/-- `while (p) { body(p); p = p->next; }` -/
def forEachNode (next : State → α → Option α) (body : State → α → State) :
    Nat → State → Option α → Option State
  | _, s, none => some s
  | 0, _, some _ => none
  | fuel + 1, s, some a => forEachNode next body fuel (body s a) (next (body s a) a)

variable {start : Option α} {nodes : List α} {fuel : Nat}

/-- **A search finds the first node of the list that passes the test.** -/
theorem Seg.scanList_eq {next : α → Option α} (seg : Seg next start nodes none) {test : α → Bool}
    (enough : nodes.length ≤ fuel) : scanList next test fuel start = some (nodes.find? test) := by
  induction nodes generalizing start fuel with
  | nil =>
    rw [seg_nil.mp seg]
    cases fuel <;> rfl
  | cons a nodes ih =>
    obtain ⟨rfl, rest⟩ := seg
    obtain ⟨fuel, rfl⟩ := Nat.exists_eq_add_of_lt (Nat.lt_of_lt_of_le (Nat.zero_lt_succ _) enough)
    rw [scanList, find?_cons]
    cases passes : test a with
    | true => rfl
    | false => exact ih rest (Nat.le_of_succ_le_succ enough)

/-- **A loop is a fold over the nodes**, if its body does not touch the links. -/
theorem Seg.forEachNode_eq {next : State → α → Option α} {body : State → α → State}
    (keeps : ∀ s a, next (body s a) = next s) {s : State} (seg : Seg (next s) start nodes none)
    (enough : nodes.length ≤ fuel) :
    forEachNode next body fuel s start = some (nodes.foldl body s) := by
  induction nodes generalizing start fuel s with
  | nil =>
    rw [seg_nil.mp seg]
    cases fuel <;> rfl
  | cons a nodes ih =>
    obtain ⟨rfl, rest⟩ := seg
    obtain ⟨fuel, rfl⟩ := Nat.exists_eq_add_of_lt (Nat.lt_of_lt_of_le (Nat.zero_lt_succ _) enough)
    refine ih ?_ (Nat.le_of_succ_le_succ enough)
    rwa [keeps]

/-!
## Doubly linked lists

A doubly linked list is a list in two directions: `Dll next prev head tail as`
says that the next links lead from `head` through `as` to NULL, and the previous
links from `tail` through `as` backwards to NULL.

Both ways of changing such a list redirect the link behind some part of it to
another node, or the start pointer when the part is empty. `redirect` is that
store, `Seg.redirect` what it does to a segment. Removing a node redirects in
both directions (`Dll.remove`), adding one at the end redirects forwards
(`Dll.pushBack`), adding one at the front backwards (`Dll.pushFront`).
-/

open Function

/-- The nodes `as` form a doubly linked list between `head` and `tail`. -/
structure Dll (next prev : α → Option α) (head tail : Option α) (as : List α) : Prop where
  forward : Seg next head as none
  backward : Seg prev tail as.reverse none

variable {prev next' prev' : α → Option α} {head tail : Option α}

theorem dll_nil : Dll next prev none none ([] : List α) := ⟨rfl, rfl⟩

theorem reverse_split : (before ++ a :: after).reverse = after.reverse ++ a :: before.reverse := by
  simp

section

variable (dll : Dll next prev head tail as)
include dll

theorem Dll.nodup : as.Nodup := dll.forward.nodup

theorem Dll.head_eq : head = as.head? :=
  dll.forward.start_eq_head?

theorem Dll.tail_eq : tail = as.getLast? := by
  rw [dll.backward.start_eq_head?, head?_reverse]

/-- A list is read at its own nodes only. -/
theorem Dll.congr (nexts : ∀ b ∈ as, next' b = next b) (prevs : ∀ b ∈ as, prev' b = prev b) :
    Dll next' prev' head tail as :=
  ⟨dll.forward.congr nexts, dll.backward.congr fun b member =>
    prevs b (mem_reverse.mp member)⟩

end

/-- The links of a node lead to its neighbours. -/
theorem Dll.links (dll : Dll next prev head tail (before ++ a :: after)) :
    next a = after.head? ∧ prev a = before.getLast? := by
  refine ⟨(seg_split.mp dll.forward).2.start_eq_head?, ?_⟩
  have backward := dll.backward
  rw [reverse_split] at backward
  rw [(seg_split.mp backward).2.start_eq_head?, head?_reverse]

/-! ### Redirecting a link -/

variable [DecidableEq α]

/-- The link field after `pred`'s link, if there is a predecessor, is set. -/
def redirect (link : α → Option α) (pred target : Option α) : α → Option α :=
  match pred with
  | none => link
  | some x => Function.update link x target

/-- The start pointer after it is set, if there is no predecessor. -/
def restart (start pred target : Option α) : Option α :=
  match pred with
  | none => target
  | some _ => start

variable {link : α → Option α}

theorem redirect_of_ne {pred target : Option α} {a : α} (other : pred ≠ some a) :
    redirect link pred target a = link a := by
  cases pred with
  | none => rfl
  | some x => exact update_of_ne (fun same => other (by rw [same])) _ _

/-- A segment can be redirected to another end, at its last node. -/
theorem Seg.redirect {last : Option α} (target : Option α) (nodup : before.Nodup)
    (seg : Seg link start before last) :
    Seg (redirect link before.getLast? target) (restart start before.getLast? target) before
      target := by
  rcases eq_nil_or_concat before with rfl | ⟨init, x, rfl⟩
  · exact seg_nil.mpr rfl
  · rw [concat_eq_append] at nodup seg ⊢
    have fresh : x ∉ init := fun member =>
      (nodup_append.mp nodup).2.2 x member x (mem_singleton_self x) rfl
    obtain ⟨left, -⟩ := seg_split.mp seg
    rw [getLast?_concat]
    refine seg_split.mpr ⟨left.update_of_notMem target fresh, ?_⟩
    rw [FunsOS.Foundation.redirect, update_self]
    exact seg_nil.mpr rfl

/-- A list without one of its nodes, after the link before the node has been set
to the one behind it. -/
theorem Seg.remove {a : α} (seg : Seg link start (before ++ a :: after) none) :
    Seg (FunsOS.Foundation.redirect link before.getLast? (link a))
      (restart start before.getLast? (link a)) (before ++ after) none := by
  have nodup := seg.nodup
  obtain ⟨left, right⟩ := seg_split.mp seg
  obtain ⟨beforeNodup, -, apart⟩ := nodup_append.mp nodup
  refine seg_append.mpr ⟨link a, left.redirect _ beforeNodup, right.congr fun b member => ?_⟩
  refine redirect_of_ne fun last => ?_
  exact apart b (mem_of_getLast? last) b (mem_cons_of_mem _ member) rfl

/-- **Removal.** Redirecting the link before a node to the node after it, and the
link after it to the node before it, takes it out. -/
theorem Dll.remove (dll : Dll next prev head tail (before ++ a :: after)) :
    Dll (redirect next (prev a) (next a)) (redirect prev (next a) (prev a))
      (restart head (prev a) (next a)) (restart tail (next a) (prev a)) (before ++ after) := by
  obtain ⟨nextEq, prevEq⟩ := dll.links
  constructor
  · rw [prevEq]
    exact dll.forward.remove
  · have backward := dll.backward
    rw [reverse_split] at backward
    have removed := Seg.remove backward
    rw [getLast?_reverse] at removed
    rw [nextEq, reverse_append]
    exact removed

/-- **Adding at the end.** -/
theorem Dll.pushBack (dll : Dll next prev head tail as) (fresh : a ∉ as) :
    Dll (redirect (update next a none) tail (some a)) (update prev a tail)
      (restart head tail (some a)) (some a) (as ++ [a]) := by
  constructor
  · have cleared := dll.forward.update_of_notMem none fresh
    have redirected := cleared.redirect (some a) dll.nodup
    rw [dll.tail_eq]
    refine seg_append.mpr ⟨some a, redirected, rfl, ?_⟩
    rw [redirect_of_ne fun last => fresh (mem_of_getLast? last), update_self]
    exact seg_nil.mpr rfl
  · rw [reverse_append]
    refine ⟨rfl, ?_⟩
    rw [update_self]
    refine dll.backward.update_of_notMem tail fun member => ?_
    exact fresh (mem_reverse.mp member)

/-- **Adding at the front.** -/
theorem Dll.pushFront (dll : Dll next prev head tail as) (fresh : a ∉ as) :
    Dll (update next a head) (redirect (update prev a none) head (some a))
      (some a) (restart tail head (some a)) (a :: as) := by
  constructor
  · refine ⟨rfl, ?_⟩
    rw [update_self]
    exact dll.forward.update_of_notMem head fresh
  · have outside : a ∉ as.reverse := fun member => fresh (mem_reverse.mp member)
    have cleared := dll.backward.update_of_notMem none outside
    have redirected := cleared.redirect (some a) (nodup_reverse.mpr dll.nodup)
    rw [getLast?_reverse] at redirected
    rw [dll.head_eq, reverse_cons]
    refine seg_append.mpr ⟨some a, redirected, rfl, ?_⟩
    rw [redirect_of_ne fun first => fresh (mem_of_head? first), update_self]
    exact seg_nil.mpr rfl

end FunsOS.Foundation
