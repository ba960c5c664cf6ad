import FunsOS.Foundation.Runs
import Mathlib.Data.List.Forall2
import Mathlib.Data.List.Perm.Basic
import Mathlib.Tactic.NormNum

/-!
# Message queues

`msg_send` and `msg_recv` of `kernel/ipc_msg.c` on a queue with the semaphore of `kernel/sync.c`.
A blocking `msg_recv` takes a permit of the semaphore and then the first message. With `MSG_NOWAIT`
it takes the message and leaves the permit, and the permit lets a later blocking call through to an
empty queue. As long as no call is let through without a message of its own, the queue is reliable
(`queue_reliable`).
-/

set_option autoImplicit false

namespace FunsOS.IpcMsg

open Foundation List

/-- A call of `msg_recv`, without or with `MSG_NOWAIT`. -/
structure Recv where
  blocking : Bool
  size : Nat

/-- What a call with a buffer of `size` bytes returned and wrote to the buffer. -/
structure Returned where
  blocking : Bool
  size : Nat
  value : Int
  buf : List UInt8

/-- A queue, with its calls of `msg_recv` in progress, the messages that were sent so far and
what calls have returned. -/
structure MsgQueue where
  /-- The count of `wait_sem`. -/
  count : Int
  /-- The buffer sizes of the calls that wait for the semaphore. -/
  waitQueue : List Nat
  /-- The calls that are past the semaphore and take the lock next. -/
  through : List Recv
  nodes : List (List UInt8)
  sent : List (List UInt8)
  returned : List Returned

namespace MsgQueue

variable (s : MsgQueue)

def semWait (size : Nat) : MsgQueue :=
  let count := Int.bmod (s.count - 1) (2 ^ 32)
  if count < 0 then { s with count, waitQueue := s.waitQueue ++ [size] }
  else { s with count, through := s.through ++ [⟨true, size⟩] }

def semPost : MsgQueue :=
  let count := Int.bmod (s.count + 1) (2 ^ 32)
  if count ≤ 0 then
    match s.waitQueue with
    | [] => { s with count }
    | size :: rest =>
      { s with count, waitQueue := rest, through := s.through ++ [⟨true, size⟩] }
  else { s with count }

end MsgQueue

inductive Step where
  /-- `msg_send`, which posts the semaphore under the lock. -/
  | send (data : List UInt8)
  /-- The `sem_wait` of a blocking `msg_recv`. -/
  | recv (size : Nat)
  /-- The `sem_getvalue` of a `msg_recv` with `MSG_NOWAIT`. -/
  | poll (size : Nat)
  /-- The part under the lock of a `msg_recv` that is past the semaphore. -/
  | take (i : Nat)

def step (s : MsgQueue) : Step → MsgQueue
  | .send data =>
    if 4096 < data.length then s
    else { s with nodes := s.nodes ++ [data], sent := s.sent ++ [data] }.semPost
  | .recv size => s.semWait size
  | .poll size =>
    if s.count ≤ 0 then { s with returned := s.returned ++ [⟨false, size, -1, []⟩] }
    else { s with through := s.through ++ [⟨false, size⟩] }
  | .take i =>
    match s.through[i]?, s.nodes with
    | none, _ => s
    | some call, [] =>
      { s with
        through := s.through.eraseIdx i
        returned := s.returned ++ [⟨call.blocking, call.size, -1, []⟩] }
    | some call, node :: rest =>
      { s with
        through := s.through.eraseIdx i
        nodes := rest
        returned := s.returned ++
          [⟨call.blocking, call.size, min node.length call.size, node.take call.size⟩] }

/-- The queue that `msg_create` makes. -/
def created : MsgQueue := ⟨0, [], [], [], [], []⟩

/-- The call returned the message, as much of it as fits its buffer. -/
def Returned.Holds (r : Returned) (message : List UInt8) : Prop :=
  r.value = min (message.length : Int) r.size ∧ r.buf = message.take r.size

/-- The calls that succeeded returned the first of the messages that were sent, in their order,
and the others are in the queue. -/
def InOrder (s : MsgQueue) : Prop :=
  ∃ received, Forall₂ Returned.Holds (s.returned.filter (0 ≤ ·.value)) received ∧
    received ++ s.nodes = s.sent

/-- Messages are received in the order in which they are sent, a blocking call that has returned
has received one, and with no call in progress a call with `MSG_NOWAIT` returns -1 exactly if the
queue is empty. -/
structure Reliable (s : MsgQueue) : Prop where
  inOrder : InOrder s
  delivered : ∀ r ∈ s.returned, r.blocking → 0 ≤ r.value
  polled : s.waitQueue = [] → s.through = [] → ∀ size, ∃ r,
    (step (step s (.poll size)) (.take 0)).returned = s.returned ++ [r] ∧
      (r.value = -1 ↔ s.nodes = [])

/-- How many blocking calls have been let through. -/
def MsgQueue.letThrough (s : MsgQueue) : Nat := s.through.countP Recv.blocking

/-- The semaphore does not overflow, and a message that a blocking call has been let through for
is left to it. -/
def Careful (s : MsgQueue) : Step → Prop
  | .send _ => s.count < 2 ^ 31 - 1
  | .recv _ => -2 ^ 31 < s.count ∧ (0 < s.count → s.letThrough < s.nodes.length)
  | .poll _ => True
  | .take i => ∀ call ∈ s.through[i]?, call.blocking = false →
      s.nodes = [] ∨ s.letThrough < s.nodes.length

instance (s : MsgQueue) : (op : Step) → Decidable (Careful s op)
  | .send _ => inferInstanceAs (Decidable (_ < _))
  | .recv _ => inferInstanceAs (Decidable (_ ∧ (_ → _)))
  | .poll _ => inferInstanceAs (Decidable True)
  | .take i => inferInstanceAs (Decidable (∀ call ∈ s.through[i]?, _))

/-- Each message has a permit, a call that waits or one that has been let through, and each call
that has been let through has a message. -/
structure Kept (s : MsgQueue) : Prop where
  inOrder : InOrder s
  delivered : ∀ r ∈ s.returned, r.blocking → 0 ≤ r.value
  counted : -2 ^ 31 ≤ s.count ∧ s.count < 2 ^ 31 ∧ s.waitQueue.length = max 0 (-s.count) ∧
    s.nodes.length ≤ s.count + s.letThrough + s.waitQueue.length ∧ s.letThrough ≤ s.nodes.length

variable {s : MsgQueue} {op : Step} {ops : List Step}

theorem letThrough_eraseIdx {i : Nat} {call : Recv} (found : s.through[i]? = some call) :
    s.letThrough =
      (s.through.eraseIdx i).countP Recv.blocking + if call.blocking then 1 else 0 := by
  obtain ⟨inside, rfl⟩ := List.getElem?_eq_some_iff.mp found
  rw [MsgQueue.letThrough, ← (getElem_cons_eraseIdx_perm inside).countP_eq, countP_cons]

theorem InOrder.failed (inOrder : InOrder s) {through : List Recv} {blocking : Bool} {size : Nat} :
    InOrder { s with through, returned := s.returned ++ [⟨blocking, size, -1, []⟩] } := by
  obtain ⟨received, held, order⟩ := inOrder
  refine ⟨received, ?_, order⟩
  rwa [filter_append, filter_cons_of_neg (by simp), filter_nil, append_nil]

theorem InOrder.took (inOrder : InOrder s) {node : List UInt8} {rest : List (List UInt8)}
    (nonempty : s.nodes = node :: rest) {through : List Recv} {call : Recv} :
    InOrder { s with
      through
      nodes := rest
      returned := s.returned ++
        [⟨call.blocking, call.size, min node.length call.size, node.take call.size⟩] } := by
  obtain ⟨received, held, order⟩ := inOrder
  refine ⟨received ++ [node], ?_, ?_⟩
  · rw [filter_append, filter_cons_of_pos (by simp)]
    exact rel_append held (.cons ⟨rfl, rfl⟩ .nil)
  · rw [← order, nonempty, append_assoc, singleton_append]

theorem Kept.send (kept : Kept s) (room : s.count < 2 ^ 31 - 1) {data : List UInt8} :
    Kept { s with nodes := s.nodes ++ [data], sent := s.sent ++ [data] }.semPost := by
  obtain ⟨inOrder, delivered, counted⟩ := kept
  obtain ⟨received, held, inOrder⟩ := inOrder
  have order : received ++ (s.nodes ++ [data]) = s.sent ++ [data] := by
    rw [← append_assoc, inOrder]
  have posted : Int.bmod (s.count + 1) (2 ^ 32) = s.count + 1 := by
    rw [Int.bmod_def]
    omega
  rw [MsgQueue.letThrough] at counted
  simp only [MsgQueue.semPost, posted]
  split
  · cases isQueue : s.waitQueue with
    | nil =>
      rw [isQueue, length_nil] at counted
      omega
    | cons size rest =>
      rw [isQueue, length_cons] at counted
      refine ⟨⟨received, held, order⟩, delivered, ?_⟩
      simp only [MsgQueue.letThrough, length_append, length_singleton, countP_append,
        countP_singleton, if_true]
      omega
  · refine ⟨⟨received, held, order⟩, delivered, ?_⟩
    simp only [MsgQueue.letThrough, length_append, length_singleton]
    omega

theorem Kept.recv (kept : Kept s) (room : -2 ^ 31 < s.count)
    (free : 0 < s.count → s.letThrough < s.nodes.length) {size : Nat} : Kept (s.semWait size) := by
  obtain ⟨inOrder, delivered, counted⟩ := kept
  have waited : Int.bmod (s.count - 1) (2 ^ 32) = s.count - 1 := by
    rw [Int.bmod_def]
    omega
  rw [MsgQueue.letThrough] at counted free
  rw [MsgQueue.semWait, waited]
  split <;> refine ⟨inOrder, delivered, ?_⟩
  all_goals
    simp only [MsgQueue.letThrough, length_append, length_singleton, countP_append,
      countP_singleton, if_true]
    omega

/-- A step that leaves a blocking call its message keeps the count right. -/
theorem Kept.step (kept : Kept s) (careful : Careful s op) : Kept (step s op) := by
  cases op with
  | send data =>
    rw [IpcMsg.step]
    split
    · exact kept
    · exact kept.send careful
  | recv size => exact kept.recv careful.1 careful.2
  | poll size =>
    rw [IpcMsg.step]
    split
    · refine ⟨kept.inOrder.failed, forall_mem_append.mpr ⟨kept.delivered, ?_⟩, kept.counted⟩
      rintro _ (_ | ⟨_, ⟨⟩⟩)
      nofun
    · refine ⟨kept.inOrder, kept.delivered, ?_⟩
      rw [MsgQueue.letThrough, countP_append]
      exact kept.counted
  | take i =>
    obtain ⟨inOrder, delivered, counted⟩ := kept
    rw [IpcMsg.step]
    split
    case h_1 => exact ⟨inOrder, delivered, counted⟩
    case h_2 call found empty =>
      -- a blocking call has a message, so this one does not block
      rw [letThrough_eraseIdx found, empty, length_nil] at counted
      have polls : ¬ call.blocking := fun blocking => by
        rw [if_pos blocking] at counted
        omega
      rw [if_neg polls] at counted
      refine ⟨inOrder.failed, forall_mem_append.mpr ⟨delivered, ?_⟩, ?_⟩
      · rintro _ (_ | ⟨_, ⟨⟩⟩) blocking
        exact absurd blocking polls
      · simp only [MsgQueue.letThrough, empty, length_nil]
        omega
    case h_3 call node rest found nonempty =>
      have left := careful call found
      rw [letThrough_eraseIdx found, nonempty, length_cons] at counted left
      refine ⟨inOrder.took nonempty, forall_mem_append.mpr ⟨delivered, ?_⟩, ?_⟩
      · rintro _ (_ | ⟨_, ⟨⟩⟩) _
        show 0 ≤ min (node.length : Int) call.size
        omega
      · simp only [MsgQueue.letThrough]
        by_cases blocking : call.blocking
        · rw [if_pos blocking] at counted
          omega
        · rw [if_neg blocking] at counted left
          have := (left (Bool.eq_false_iff.mpr blocking)).resolve_left nofun
          omega

/-- **A queue is reliable** in every run in which each step leaves a blocking call its message. -/
theorem queue_reliable (careful : Meets step Careful created ops) :
    Reliable (ops.foldl step created) := by
  have kept : Kept (ops.foldl step created) := careful.invariant (P := Kept)
    (fun _ _ kept careful => kept.step careful) ⟨⟨[], .nil, rfl⟩, nofun, by decide⟩
  refine ⟨kept.inOrder, kept.delivered, fun noWaiter noCall size => ?_⟩
  generalize ops.foldl step created = s at *
  obtain ⟨-, -, counted⟩ := kept
  rw [MsgQueue.letThrough, noCall, countP_nil, noWaiter, length_nil] at counted
  rw [step]
  split
  · refine ⟨_, by rw [step, noCall]; rfl, ?_⟩
    have : s.nodes.length = 0 := by omega
    simpa using this
  · rw [step, noCall]
    cases isNodes : s.nodes with
    | nil => exact ⟨_, rfl, by simp⟩
    | cons node rest =>
      refine ⟨_, rfl, ?_⟩
      simp
      omega

/-- A message is polled while another one is there for a blocking call. -/
theorem second_message_is_polled : Reliable ([Step.send [1], .send [2], .recv 1, .poll 1, .take 1,
    .take 0].foldl step created) :=
  queue_reliable (by decide)

/-- **A polled message leaves its permit.** The blocking call returns -1. -/
theorem polled_permit_is_left :
    ((([Step.send [1], .poll 1, .take 0, .recv 1, .take 0].foldl step created).returned.map
      fun r => (r.blocking, r.value)) = [(false, 1), (true, -1)]) := by
  decide

end FunsOS.IpcMsg
