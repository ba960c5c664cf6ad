
/-!
# Machines that read a stream and emit now and then

A machine reads one item at a time and may emit something at an item. Fed a whole
stream it emits a list (`feed`) and ends in a state (`after`).

A caller does not have the stream at once. A call reads the items available to it
one by one, and returns with the first thing emitted, or with nothing when no item
is left (`call`); the items it did not read stay for the next call. So what a call
returns, followed by what feeding the rest emits, is what feeding the whole stream
emits (`call_feed`), however the items are spread over the calls.
-/

set_option autoImplicit false

namespace FunsOS.Foundation

open List

universe u v w

variable {State : Type u} {Item : Type v} {Out : Type w}

/-- What the machine emits on a stream. -/
def feed (step : State → Item → State × Option Out) : State → List Item → List Out
  | _, [] => []
  | s, b :: bs => (step s b).2.toList ++ feed step (step s b).1 bs

/-- The state the machine ends in. -/
def after (step : State → Item → State × Option Out) : State → List Item → State
  | s, [] => s
  | s, b :: bs => after step (step s b).1 bs

/-- One call on the available items: the new state, the items not read, and what was
emitted. -/
def call (step : State → Item → State × Option Out) :
    State → List Item → State × List Item × Option Out
  | s, [] => (s, [], none)
  | s, b :: bs =>
    match step s b with
    | (next, some out) => (next, bs, some out)
    | (next, none) => call step next bs

variable {step : State → Item → State × Option Out} {s : State}

theorem after_append (s : State) (as bs : List Item) :
    after step s (as ++ bs) = after step (after step s as) bs := by
  induction as generalizing s with
  | nil => rfl
  | cons a as ih => exact ih _

theorem feed_append {as bs : List Item} :
    feed step s (as ++ bs) = feed step s as ++ feed step (after step s as) bs := by
  induction as generalizing s with
  | nil => rfl
  | cons a as ih =>
    rw [cons_append, feed, ih, feed, append_assoc]
    rfl

/-- **A call takes the next output off the stream.** -/
theorem call_feed (s : State) (available rest : List Item) :
    feed step s (available ++ rest) =
      (call step s available).2.2.toList ++
        feed step (call step s available).1 ((call step s available).2.1 ++ rest) := by
  induction available generalizing s with
  | nil => rfl
  | cons b bs ih =>
    rw [cons_append, feed, call]
    obtain ⟨next, out⟩ := step s b
    cases out with
    | none => exact ih next
    | some out => rfl

theorem call_unread_lt {s : State} {available : List Item} (some_item : available ≠ []) :
    (call step s available).2.1.length < available.length := by
  induction available generalizing s with
  | nil => exact absurd rfl some_item
  | cons b bs ih =>
    rw [call]
    obtain ⟨next, out⟩ := step s b
    cases out with
    | some out => exact Nat.lt_succ_self _
    | none =>
      cases bs with
      | nil => exact Nat.lt_succ_self _
      | cons c cs => exact Nat.lt_succ_of_lt (ih (cons_ne_nil c cs))

theorem call_emits {available : List Item} {out : Out}
    (returned : (call step s available).2.2 = some out) : out ∈ feed step s available := by
  have whole := @call_feed _ _ _ step s available []
  rw [append_nil] at whole
  rw [whole, returned]
  exact mem_cons_self

end FunsOS.Foundation
