import FunsOS.Foundation.RingBuffer
import FunsOS.Foundation.Runs

/-!
# The pipe buffer

`pipe_t` of `kernel/pipe.c`: a ring of 4096 bytes with a read position, a write position and
a count, and the numbers of open ends. This module has the sections of `pipe_read` and
`pipe_write` that run under the pipe's mutex. A section that finds nothing to do releases the
mutex and waits; otherwise it copies bytes and returns how many.

The buffer is a queue of bytes (`PipeState.queued`): reading takes from its front
(`readSection_spec`), writing appends (`writeSection_spec`).

The positions and the count stay below `2^32` by the invariant (`PipeState.InRing`), so they are
natural numbers here.
-/

set_option autoImplicit false

namespace FunsOS.Pipe

open Foundation Nat

def pipeBufferSize : Nat := 4096

/-- The fields of `pipe_t` that the mutex protects, and the numbers of open ends. -/
structure PipeState where
  buffer : Nat → UInt8
  readPos : Nat
  writePos : Nat
  count : Nat
  readers : Int
  writers : Int

/-- `pipe_create`: the memory of the buffer is what `kmalloc` left there. -/
def pipeCreate (memory : Nat → UInt8) : PipeState :=
  { buffer := memory, readPos := 0, writePos := 0, count := 0, readers := 1, writers := 1 }

variable (pipe : PipeState)

/-- `pipe_is_empty`. -/
def PipeState.isEmpty : Bool := pipe.count == 0

/-- `pipe_is_full`. -/
def PipeState.isFull : Bool := decide (pipeBufferSize ≤ pipe.count)

/-- Set the number of bytes in the buffer. -/
def PipeState.setCount (count : Nat) : PipeState := { pipe with count }

/-! ## The copying loops -/

/-- The loop of `pipe_read`: the bytes it stores in `dst` and the pipe after it. -/
def copyOut : Nat → PipeState → List UInt8 × PipeState
  | 0, pipe => ([], pipe)
  | n + 1, pipe =>
    let byte := pipe.buffer pipe.readPos
    let rest := copyOut n { pipe with readPos := (pipe.readPos + 1) % pipeBufferSize }
    (byte :: rest.1, rest.2)

/-- The loop of `pipe_write` over the bytes of `src`. -/
def copyIn : List UInt8 → PipeState → PipeState
  | [], pipe => pipe
  | byte :: bytes, pipe =>
    copyIn bytes
      { pipe with
        buffer := Function.update pipe.buffer pipe.writePos byte
        writePos := (pipe.writePos + 1) % pipeBufferSize }

/-! ## The sections under the mutex -/

/-- What a section ends with: it waits, it returns because there are no writers, or it
returns after copying and posts the other side's semaphore. -/
inductive Outcome (Result : Type) where
  | waits
  | ended
  | returned (result : Result)
  deriving Repr, DecidableEq

/-- One pass of `pipe_read` through its mutex: the test of the loop and, if bytes are there,
the copy. -/
def readSection (count : Nat) : Outcome (List UInt8) × PipeState :=
  if pipe.isEmpty then
    if pipe.writers = 0 then (.ended, pipe) else (.waits, pipe)
  else
    let toRead := if count < pipe.count then count else pipe.count
    let copied := copyOut toRead pipe
    (.returned copied.1, copied.2.setCount (copied.2.count - toRead))

/-- One pass of `pipe_write` through its mutex. The bytes are those of `buf`; the result is
the number of bytes taken. -/
def writeSection (bytes : List UInt8) : Outcome Nat × PipeState :=
  if pipe.isFull then (.waits, pipe)
  else
    let available := pipeBufferSize - pipe.count
    let toWrite := if bytes.length < available then bytes.length else available
    let copied := copyIn (bytes.take toWrite) pipe
    (.returned toWrite, copied.setCount (copied.count + toWrite))

/-! ## The queue in the buffer -/

/-- The bytes in the pipe, first in first. -/
def PipeState.queued : List UInt8 :=
  ringContents pipeBufferSize pipe.buffer pipe.readPos pipe.count

/-- The indices stay in the ring and the count says how far apart they are. -/
structure PipeState.InRing (pipe : PipeState) : Prop where
  readPos_lt : pipe.readPos < pipeBufferSize
  count_le : pipe.count ≤ pipeBufferSize
  writePos_eq : pipe.writePos = (pipe.readPos + pipe.count) % pipeBufferSize

theorem pipeCreate_inRing {memory : Nat → UInt8} : (pipeCreate memory).InRing :=
  ⟨zero_lt_succ _, zero_le _, rfl⟩

variable {pipe : PipeState} {count n : Nat}

/-- The number of open ends is not part of the queue. -/
theorem PipeState.InRing.setEnds (inRing : pipe.InRing) {readers writers : Int} :
    { pipe with readers, writers : PipeState }.InRing :=
  ⟨inRing.readPos_lt, inRing.count_le, inRing.writePos_eq⟩

/-! ## What the loops do to the queue -/

/-- After `n` rounds the reading loop has the first `n` bytes, and only the read position has
moved. -/
theorem copyOut_spec : copyOut n pipe =
      (ringContents pipeBufferSize pipe.buffer pipe.readPos n,
        { pipe with readPos := (copyOut n pipe).2.readPos }) := by
  induction n generalizing pipe with
  | zero => rfl
  | succ n ih =>
    rw [copyOut, ih]
    rfl

theorem copyOut_readPos (inRing : pipe.readPos < pipeBufferSize) :
    (copyOut n pipe).2.readPos = (pipe.readPos + n) % pipeBufferSize := by
  induction n generalizing pipe with
  | zero => exact (mod_eq_of_lt inRing).symm
  | succ n ih =>
    have next : (pipe.readPos + 1) % pipeBufferSize < pipeBufferSize := mod_lt _ (by decide)
    exact (ih next).trans ring_next

/-- The writing loop does not look at the count. -/
theorem copyIn_count (bytes : List UInt8) (pipe : PipeState) (count : Nat) :
    copyIn bytes (pipe.setCount count) = (copyIn bytes pipe).setCount count := by
  induction bytes generalizing pipe with
  | nil => rfl
  | cons byte bytes ih =>
    exact ih
      { pipe with
        buffer := Function.update pipe.buffer pipe.writePos byte
        writePos := (pipe.writePos + 1) % pipeBufferSize }

/-- The writing loop appends its bytes to the queue, if they fit. The count is raised only
after the loop, so the queue is the one of the raised count. -/
theorem copyIn_spec {bytes : List UInt8} (inRing : pipe.InRing)
    (fits : pipe.count + bytes.length ≤ pipeBufferSize) :
    ((copyIn bytes pipe).setCount (pipe.count + bytes.length)).InRing ∧
      ((copyIn bytes pipe).setCount (pipe.count + bytes.length)).queued = pipe.queued ++ bytes := by
  induction bytes generalizing pipe with
  | nil => exact ⟨inRing, (List.append_nil _).symm⟩
  | cons byte bytes ih =>
    rw [List.length_cons] at fits ⊢
    let stored : PipeState :=
      { pipe with
        buffer := Function.update pipe.buffer pipe.writePos byte
        writePos := (pipe.writePos + 1) % pipeBufferSize }
    have storedInRing : (stored.setCount (pipe.count + 1)).InRing :=
      { readPos_lt := inRing.readPos_lt
        count_le := show pipe.count + 1 ≤ pipeBufferSize by omega
        writePos_eq := by
          show (pipe.writePos + 1) % pipeBufferSize = (pipe.readPos + (pipe.count + 1)) % _
          rw [inRing.writePos_eq, Nat.mod_add_mod, Nat.add_assoc] }
    have storedQueued : (stored.setCount (pipe.count + 1)).queued = pipe.queued ++ [byte] := by
      show ringContents pipeBufferSize (Function.update pipe.buffer pipe.writePos byte)
        pipe.readPos (pipe.count + 1) = _
      rw [inRing.writePos_eq]
      exact ringContents_push _ inRing.readPos_lt (by omega)
    have rest := ih storedInRing (show pipe.count + 1 + bytes.length ≤ pipeBufferSize by omega)
    rw [copyIn_count, storedQueued, List.append_assoc] at rest
    have raised : pipe.count + 1 + bytes.length = pipe.count + (bytes.length + 1) := by omega
    rw [← raised]
    exact rest

/-! ## What the sections do to the queue -/

/-- The bytes a section of `pipe_read` hands to its caller. -/
def Outcome.bytes : Outcome (List UInt8) → List UInt8
  | .returned bytes => bytes
  | _ => []

/-- The number of bytes a section of `pipe_write` takes from its caller. -/
def Outcome.taken : Outcome Nat → Nat
  | .returned count => count
  | _ => 0

/-- **Reading takes from the front of the queue.** -/
theorem readSection_spec (inRing : pipe.InRing) : (readSection pipe count).2.InRing ∧
      pipe.queued = (readSection pipe count).1.bytes ++ (readSection pipe count).2.queued := by
  unfold readSection
  split
  · split
    · exact ⟨inRing, rfl⟩
    · exact ⟨inRing, rfl⟩
  · dsimp only
    have within : (if count < pipe.count then count else pipe.count) ≤ pipe.count := by
      split
      · omega
      · exact Nat.le_refl _
    generalize (if count < pipe.count then count else pipe.count) = toRead at within
    rw [copyOut_spec, copyOut_readPos inRing.readPos_lt]
    refine ⟨⟨mod_lt _ (by decide), ?_, ?_⟩, ?_⟩
    · exact Nat.le_trans (Nat.sub_le _ _) inRing.count_le
    · show pipe.writePos =
        ((pipe.readPos + toRead) % pipeBufferSize + (pipe.count - toRead)) % pipeBufferSize
      rw [inRing.writePos_eq, Nat.mod_add_mod, Nat.add_assoc, Nat.add_sub_cancel' within]
    · have split := ringContents_append pipe.buffer inRing.readPos_lt toRead (pipe.count - toRead)
      rwa [Nat.add_sub_cancel' within] at split

/-- **Writing appends the bytes it takes to the queue.** -/
theorem writeSection_spec (inRing : pipe.InRing) {bytes : List UInt8} :
    (writeSection pipe bytes).2.InRing ∧
      (writeSection pipe bytes).2.queued =
        pipe.queued ++ bytes.take (writeSection pipe bytes).1.taken := by
  unfold writeSection
  split
  · exact ⟨inRing, (List.append_nil _).symm⟩
  · rename_i notFull
    dsimp only
    have room : pipe.count < pipeBufferSize := by
      simpa [PipeState.isFull] using notFull
    have within : (if bytes.length < pipeBufferSize - pipe.count then bytes.length
        else pipeBufferSize - pipe.count) ≤ bytes.length ∧
        (if bytes.length < pipeBufferSize - pipe.count then bytes.length
          else pipeBufferSize - pipe.count) ≤ pipeBufferSize - pipe.count := by
      split
      · omega
      · omega
    generalize (if bytes.length < pipeBufferSize - pipe.count then bytes.length
      else pipeBufferSize - pipe.count) = toWrite at within
    have taken : (bytes.take toWrite).length = toWrite := by
      rw [List.length_take, Nat.min_eq_left within.1]
    have copied := copyIn_spec inRing (show pipe.count + (bytes.take toWrite).length ≤ _ by omega)
    rw [taken] at copied
    have count : (copyIn (bytes.take toWrite) pipe).count = pipe.count := by
      have unchanged := congrArg PipeState.count (copyIn_count (bytes.take toWrite) pipe pipe.count)
      exact unchanged
    rw [count]
    exact copied

/-- **A read of some bytes comes back empty only at the end of the stream.** -/
theorem readSection_empty (asked : count ≠ 0) (comesBack : (readSection pipe count).1 ≠ .waits)
    (empty : (readSection pipe count).1.bytes = []) : pipe.count = 0 ∧ pipe.writers = 0 := by
  unfold readSection at comesBack empty
  split at comesBack
  · rename_i isEmpty
    split at comesBack
    · rename_i noWriters
      exact ⟨by simpa [PipeState.isEmpty] using isEmpty, noWriters⟩
    · exact absurd rfl comesBack
  · rename_i notEmpty
    exfalso
    rw [if_neg notEmpty] at empty
    dsimp only at empty
    rw [copyOut_spec] at empty
    have none := congrArg List.length empty
    have some : pipe.count ≠ 0 := by simpa [PipeState.isEmpty] using notEmpty
    simp only [Outcome.bytes, ringContents_length, List.length_nil] at none
    split at none
    · exact asked none
    · exact some none

/-!
## Readers and writers of a pipe

Any number of threads read from and write to one pipe. A thread in `pipe_read` or
`pipe_write` goes through the section under the mutex; a section that cannot go on makes the
thread wait on the semaphore of its side and try again; a section that copied bytes is
followed by a post of the other side's semaphore. The semaphores are those of `sync.c`: a
count, and a queue of the threads that wait.

A run is a list of events in any order: a thread enters a call, a thread takes its next step,
an end is closed. What the reads have returned and what the writes have taken is recorded in
the order of the sections (`System.reads`, `System.writes`).

* `System.Flow`: what was written is what was read followed by what is in the buffer.
* `pipe_is_fifo`: in every run the bytes read are the first of the bytes written, the indices
  and the count agree, and a read comes back empty only at the end of the stream.
-/

open Function (update)

/-! ## Threads and semaphores -/

/-- `sem_t`. -/
structure Sem where
  count : Int
  waitQueue : List Nat
  deriving Repr, DecidableEq

def semInit (value : Int) : Sem := { count := value, waitQueue := [] }

/-- `sem_wait` of a thread, and whether the thread is blocked. -/
def semWait (sem : Sem) (thread : Nat) : Sem × Bool :=
  if sem.count - 1 < 0 then
    ({ count := sem.count - 1, waitQueue := sem.waitQueue ++ [thread] }, true)
  else ({ sem with count := sem.count - 1 }, false)

/-- `sem_post`, and the thread it unblocks. -/
def semPost (sem : Sem) : Sem × Option Nat :=
  if sem.count + 1 ≤ 0 then
    ({ count := sem.count + 1, waitQueue := sem.waitQueue.tail }, sem.waitQueue.head?)
  else ({ sem with count := sem.count + 1 }, none)

/-- The two semaphores of a pipe. -/
inductive Side where
  | read
  | write
  deriving Repr, DecidableEq

/-- A call of `pipe_read` with its count, or of `pipe_write` with the bytes of its buffer. -/
inductive Call where
  | read (count : Nat)
  | write (bytes : List UInt8)
  deriving Repr, DecidableEq

/-- The semaphore that a call waits on. -/
def Call.side : Call → Side
  | .read _ => .read
  | .write _ => .write

/-- Where a thread is. -/
inductive Phase where
  | idle
  /-- About to take the mutex. -/
  | entering (call : Call)
  /-- Has released the mutex and is about to wait. -/
  | aboutToWait (call : Call)
  | blocked (call : Call)
  /-- Has released the mutex and is about to post. -/
  | aboutToPost (side : Side)
  deriving Repr, DecidableEq

/-- A pipe, its semaphores, its threads, and the record of the sections that returned. -/
structure System where
  pipe : PipeState
  sem : Side → Sem
  phase : Nat → Phase
  reads : List (List UInt8)
  writes : List (List UInt8)

/-- A new pipe, before any call. -/
def System.start (memory : Nat → UInt8) : System :=
  { pipe := pipeCreate memory
    sem := fun _ => semInit 0
    phase := fun _ => .idle
    reads := []
    writes := [] }

/-- What can happen next. -/
inductive Event where
  | enter (thread : Nat) (call : Call)
  | proceed (thread : Nat)
  | closeRead
  | closeWrite
  deriving Repr, DecidableEq

variable (s : System)

/-- A post; the thread it unblocks tries its section again. -/
def System.post (side : Side) : System :=
  let posted := semPost (s.sem side)
  let phase :=
    match posted.2 with
    | none => s.phase
    | some woken =>
      match s.phase woken with
      | .blocked call => update s.phase woken (.entering call)
      | _ => s.phase
  { s with sem := update s.sem side posted.1, phase }

/-- The phase after a section. -/
def Outcome.phase {Result : Type} (call : Call) (other : Side) : Outcome Result → Phase
  | .waits => .aboutToWait call
  | .ended => .idle
  | .returned _ => .aboutToPost other

/-- The record of the results, with the result of one more section if it returned. -/
def Outcome.record {Result : Type} (outcome : Outcome Result) (result : List UInt8)
    (results : List (List UInt8)) : List (List UInt8) :=
  match outcome with
  | .waits => results
  | _ => results ++ [result]

/-- The next step of a thread. -/
def System.proceed (thread : Nat) : System :=
  match s.phase thread with
  | .idle => s
  | .blocked _ => s
  | .entering (.read count) =>
    let after := readSection s.pipe count
    { s with
      pipe := after.2
      phase := update s.phase thread (after.1.phase (.read count) .write)
      reads := after.1.record after.1.bytes s.reads }
  | .entering (.write bytes) =>
    let after := writeSection s.pipe bytes
    { s with
      pipe := after.2
      phase := update s.phase thread (after.1.phase (.write bytes) .read)
      writes := after.1.record (bytes.take after.1.taken) s.writes }
  | .aboutToWait call =>
    let waited := semWait (s.sem call.side) thread
    { s with
      sem := update s.sem call.side waited.1
      phase := update s.phase thread (if waited.2 then .blocked call else .entering call) }
  | .aboutToPost side => System.post { s with phase := update s.phase thread .idle } side

def System.step : Event → System
  | .enter thread call =>
    if s.phase thread = .idle then
      { s with phase := update s.phase thread (.entering call) }
    else s
  | .proceed thread => s.proceed thread
  | .closeRead =>
    let closed := { s with pipe := { s.pipe with readers := s.pipe.readers - 1 } }
    if closed.pipe.readers = 0 then closed.post .write else closed
  | .closeWrite =>
    let closed := { s with pipe := { s.pipe with writers := s.pipe.writers - 1 } }
    if closed.pipe.writers = 0 then closed.post .read else closed

/-! ## Nothing is lost and nothing overtakes -/

/-- The bytes written are the bytes read and those in the buffer. -/
structure System.Flow (s : System) : Prop where
  inRing : s.pipe.InRing
  conserved : s.writes.flatten = s.reads.flatten ++ s.pipe.queued

/-- Recording the result of a section appends it to the bytes, if a section that waits has
none. -/
theorem Outcome.record_flatten {Result : Type} {outcome : Outcome Result} {result : List UInt8}
    (waitsWithNone : outcome = .waits → result = []) {results : List (List UInt8)} :
    (outcome.record result results).flatten = results.flatten ++ result := by
  cases outcome with
  | waits => rw [Outcome.record, waitsWithNone rfl, List.append_nil]
  | ended | returned => simp [Outcome.record]

/-- The semaphores and the phases have no part in the flow. -/
theorem System.Flow.post {s : System} (flow : s.Flow) {side : Side} : (s.post side).Flow :=
  ⟨flow.inRing, flow.conserved⟩

theorem System.Flow.proceed {s : System} (flow : s.Flow) {thread : Nat} :
    (s.proceed thread).Flow := by
  unfold System.proceed
  split
  · exact flow
  · exact flow
  · obtain ⟨inRing, front⟩ := readSection_spec flow.inRing
    refine ⟨inRing, ?_⟩
    rw [Outcome.record_flatten (fun waits => by rw [waits]; rfl), List.append_assoc, ← front]
    exact flow.conserved
  · obtain ⟨inRing, back⟩ := writeSection_spec flow.inRing
    refine ⟨inRing, ?_⟩
    rw [Outcome.record_flatten (fun waits => by rw [waits]; rfl), back, flow.conserved,
      List.append_assoc]
  · exact ⟨flow.inRing, flow.conserved⟩
  · have left : System.Flow { s with phase := update s.phase thread .idle } :=
      ⟨flow.inRing, flow.conserved⟩
    exact left.post

theorem System.Flow.step {s : System} (flow : s.Flow) {event : Event} : (s.step event).Flow := by
  cases event with
  | enter thread call =>
    rw [System.step]
    split
    · exact ⟨flow.inRing, flow.conserved⟩
    · exact flow
  | proceed thread => exact flow.proceed
  | closeRead | closeWrite =>
    rw [System.step]
    split
    · refine System.Flow.post ?_
      exact ⟨flow.inRing.setEnds, flow.conserved⟩
    · exact ⟨flow.inRing.setEnds, flow.conserved⟩

/-- A read of this thread is about to return without any byte although it asked for some. -/
def System.ReturnsEmpty (thread : Nat) : Prop :=
  ∃ count, s.phase thread = .entering (.read count) ∧ count ≠ 0 ∧
    (readSection s.pipe count).1 ≠ .waits ∧ (readSection s.pipe count).1.bytes = []

/-- **A pipe is a queue of bytes.** After any events the bytes that the reads returned are
the first of the bytes that the writes took; the buffer does not overflow and the write
position is the read position plus the count; and a read that asked for bytes returns none
only if the buffer is empty and there is no writer. -/
theorem pipe_is_fifo (memory : Nat → UInt8) (events : List Event) :
    let s := events.foldl System.step (System.start memory)
    s.reads.flatten <+: s.writes.flatten ∧ s.pipe.count ≤ pipeBufferSize ∧
      s.pipe.writePos = (s.pipe.readPos + s.pipe.count) % pipeBufferSize ∧
      ∀ thread, s.ReturnsEmpty thread → s.pipe.count = 0 ∧ s.pipe.writers = 0 := by
  intro s
  have flow : s.Flow :=
    foldl_invariant (P := System.Flow) (fun _ event flow => flow.step)
      ⟨pipeCreate_inRing, rfl⟩ events
  refine ⟨⟨s.pipe.queued, flow.conserved.symm⟩, flow.inRing.count_le, flow.inRing.writePos_eq, ?_⟩
  rintro thread ⟨count, -, asked, comesBack, empty⟩
  exact readSection_empty asked comesBack empty

end FunsOS.Pipe
