import FunsOS.Foundation.RingBuffer
import FunsOS.Foundation.Runs
import FunsOS.Foundation.Word32
import Mathlib.Tactic.NormNum

/-!
# The receiving side of a TCP socket

The data path of `tcp_receive` in `net/tcp.c`, with the reassembly queue behind it, and
`tcp_recv`. The socket has the fields these functions read: `rcv_nxt`, the receive buffer
and the queue of segments that came early. The length of a segment is that of its data.

`recv_buf_push` drops data that does not fit, and its callers raise `rcv_nxt` all the same.
`sock_set_recv_buffer` sets `recv_buf_size` to any number below 1 MiB and leaves the block of
`TCP_RCVBUF_SIZE` bytes and the positions in it as they are. As long as the buffer is a ring
of `recv_buf_size` bytes and everything fits, what `tcp_recv` returned and what is in the
buffer are the stream up to `rcv_nxt` (`received_stream`).
-/

set_option autoImplicit false

namespace FunsOS.Tcp

open Foundation List Nat UInt32

/-- `TCP_RCVBUF_SIZE`. -/
def tcpRcvbufSize : Nat := 65536

/-- `seq_gt`: the difference, as a signed number, is positive. -/
def seqGt (a b : UInt32) : Bool := decide (0 < (a - b).toInt32)

theorem seqGt_iff_toNat {a b : UInt32} :
    seqGt a b ↔ 0 < (a - b).toNat ∧ (a - b).toNat < 2 ^ 31 := by
  rw [seqGt, decide_eq_true_iff, Int32.lt_iff_toInt_lt]
  show (0 : Int) < (a - b).toBitVec.toInt ↔
    0 < (a - b).toBitVec.toNat ∧ (a - b).toBitVec.toNat < 2 ^ 31
  have bounded := (a - b).toBitVec.isLt
  rw [BitVec.toInt_eq_toNat_cond]
  omega

/-- `tcp_segment_t` in the reassembly queue. -/
structure Segment where
  seq : UInt32
  data : List UInt8
  deriving DecidableEq

/-- The fields of `tcp_socket_t` on the receiving side. The size of the buffer is what
`tcp_socket_create` or `sock_set_recv_buffer` set. -/
structure Receiver where
  rcvNxt : UInt32
  recvBuf : Nat → UInt8
  recvBufSize : Nat
  recvBufHead : Nat
  recvBufTail : Nat
  recvBufLen : Nat
  ooo : List Segment
  size_pos : 0 < recvBufSize
  size_lt : recvBufSize < 1024 * 1024

/-- `recv_buf_push`. Data that does not fit is dropped. -/
def Receiver.recvBufPush (sock : Receiver) (data : List UInt8) : Receiver :=
  if data = [] then sock
  else if sub32 sock.recvBufSize sock.recvBufLen < data.length then sock
  else
    let written := ringWrite sock.recvBufSize data sock.recvBuf sock.recvBufTail
    { sock with
      recvBuf := written.1
      recvBufTail := written.2
      recvBufLen := add32 sock.recvBufLen data.length }

/-- `recv_buf_push(sock, data, len); sock->rcv_nxt += len;`. -/
def Receiver.accept (sock : Receiver) (data : List UInt8) : Receiver :=
  { sock.recvBufPush data with rcvNxt := sock.rcvNxt + ofNat data.length }

/-- `tcp_deliver_data` on the queue. -/
def Receiver.deliverData (sock : Receiver) : List Segment → Receiver
  | [] => { sock with ooo := [] }
  | s :: rest =>
    if s.seq = sock.rcvNxt then (sock.accept s.data).deliverData rest
    else { sock with ooo := s :: rest }

/-- A segment joined with its neighbour, if that follows it and `kmalloc` finds a block. -/
def coalesce (merged : Bool) (s : Segment) : List Segment → List Segment
  | [] => [s]
  | n :: rest =>
    if merged ∧ s.seq + ofNat s.data.length = n.seq then
      { s with data := s.data ++ n.data } :: rest
    else s :: n :: rest

/-- `ooo_insert` behind the segments with a greater sequence number. -/
def oooInsert (merged : Bool) (s : Segment) : List Segment → List Segment
  | [] => [s]
  | n :: rest =>
    if seqGt n.seq s.seq then n :: oooInsert merged s rest else coalesce merged s (n :: rest)

/-- The data path of `tcp_receive`. The answers of `kmalloc` are whether a block for the
segment is found, and one for joining it with its neighbour. -/
def Receiver.receiveData (sock : Receiver) (s : Segment) (stored merged : Bool) : Receiver :=
  if s.data = [] then sock
  else if s.seq = sock.rcvNxt then (sock.accept s.data).deliverData sock.ooo
  else if seqGt s.seq sock.rcvNxt then
    if stored then { sock with ooo := oooInsert merged s sock.ooo } else sock
  else
    let trim := (sock.rcvNxt - s.seq).toNat
    if trim < s.data.length then (sock.accept (s.data.drop trim)).deliverData sock.ooo else sock

/-- `tcp_recv`: the bytes it stores in `buf`. -/
def Receiver.tcpRecv (sock : Receiver) (len : Nat) : List UInt8 × Receiver :=
  let n := min sock.recvBufLen len
  (ringContents sock.recvBufSize sock.recvBuf sock.recvBufHead n,
    { sock with
      recvBufHead := (fun head => (head + 1) % sock.recvBufSize)^[n] sock.recvBufHead
      recvBufLen := sock.recvBufLen - n })

/-- The bytes in the receive buffer. -/
def Receiver.contents (sock : Receiver) : List UInt8 :=
  ringContents sock.recvBufSize sock.recvBuf sock.recvBufHead sock.recvBufLen

/-! ## Runs -/

/-- What happens to an established socket: a segment with data comes in, or its owner reads. -/
inductive Event where
  | segment (s : Segment) (stored merged : Bool)
  | recv (len : Nat)

/-- The socket, and the bytes `tcp_recv` has returned. -/
structure Reading where
  sock : Receiver
  returned : List UInt8

/-- One event. -/
def Reading.step (r : Reading) : Event → Reading
  | .segment s stored merged => { r with sock := r.sock.receiveData s stored merged }
  | .recv len => ⟨(r.sock.tcpRecv len).2, r.returned ++ (r.sock.tcpRecv len).1⟩

/-! ## Pieces of a stream -/

/-- The bytes of a stream from a position on. -/
def piece (stream : Nat → UInt8) (pos n : Nat) : List UInt8 := (range' pos n).map stream

/-- The position in the stream that a sequence number stands for. -/
def offset (isn seq : UInt32) : Nat := (seq - isn).toNat

/-- The segment carries the bytes of the stream at its sequence number, all of them among the
first `2 ^ 32 - 1`. -/
def Segment.PieceOf (stream : Nat → UInt8) (isn : UInt32) (s : Segment) : Prop :=
  s.data = piece stream (offset isn s.seq) s.data.length ∧ offset isn s.seq + s.data.length < 2 ^ 32

variable {stream : Nat → UInt8} {isn : UInt32} {s : Segment} {queue : List Segment}
  {sock : Receiver} {data earlier : List UInt8}

theorem piece_append {pos m n : Nat} :
    piece stream pos (m + n) = piece stream pos m ++ piece stream (pos + m) n := by
  rw [piece, piece, piece, ← map_append, ← range'_append_1]

@[simp] theorem length_piece {pos n : Nat} : (piece stream pos n).length = n := by
  rw [piece, length_map, length_range']

/-- A sequence number further on stands for a position further on. -/
theorem offset_add {seq : UInt32} {n : Nat} (short : offset isn seq + n < 2 ^ 32) :
    offset isn (seq + UInt32.ofNat n) = offset isn seq + n := by
  have moved : seq + ofNat n - isn = seq - isn + ofNat n := by grind
  have small : (ofNat n).toNat = n :=
    toNat_ofNat_of_lt' (Nat.lt_of_le_of_lt (Nat.le_add_left _ _) short)
  rw [offset, moved, UInt32.toNat_add, small]
  exact Nat.mod_eq_of_lt short

/-- A segment joined with the one that follows it is a piece. -/
theorem Segment.PieceOf.append {n : Segment} (first : s.PieceOf stream isn)
    (second : n.PieceOf stream isn) (follows : s.seq + ofNat s.data.length = n.seq) :
    Segment.PieceOf stream isn { s with data := s.data ++ n.data } := by
  have position : offset isn n.seq = offset isn s.seq + s.data.length := by
    rw [← follows, offset_add first.2]
  refine ⟨?_, ?_⟩
  · rw [length_append, piece_append, ← position, ← first.1, ← second.1]
  · show offset isn s.seq + (s.data ++ n.data).length < 2 ^ 32
    have short := second.2
    rw [length_append]
    omega

/-- Queueing a piece leaves pieces in the queue. -/
theorem pieceOf_of_mem_oooInsert {merged : Bool} (new : s.PieceOf stream isn)
    (pieces : ∀ s ∈ queue, s.PieceOf stream isn) :
    ∀ x ∈ oooInsert merged s queue, x.PieceOf stream isn := by
  induction queue with
  | nil =>
    intro x member
    rw [mem_singleton.mp member]
    exact new
  | cons n rest ih =>
    obtain ⟨first, others⟩ := forall_mem_cons.mp pieces
    rw [oooInsert]
    split
    · exact forall_mem_cons.mpr ⟨first, ih others⟩
    · rw [coalesce]
      split
      · rename_i follows
        exact forall_mem_cons.mpr ⟨new.append first follows.2, others⟩
      · exact forall_mem_cons.mpr ⟨new, pieces⟩

/-- A piece that starts before `rcv_nxt` has the next bytes of the stream behind those that
are there already. -/
theorem Segment.PieceOf.drop (carried : s.PieceOf stream isn)
    (longer : (sock.rcvNxt - s.seq).toNat < s.data.length) :
    Segment.PieceOf stream isn ⟨sock.rcvNxt, s.data.drop (sock.rcvNxt - s.seq).toNat⟩ := by
  have short := carried.2
  have position := @offset_add isn s.seq (sock.rcvNxt - s.seq).toNat (by omega)
  rw [UInt32.ofNat_toNat, UInt32.add_comm, UInt32.sub_add_cancel] at position
  have whole := carried.1
  rw [← Nat.add_sub_of_le (Nat.le_of_lt longer), piece_append, ← position] at whole
  dsimp only [PieceOf]
  rw [length_drop]
  exact ⟨(congrArg (List.drop _) whole).trans (List.drop_left' length_piece), by omega⟩

/-! ## What the socket keeps -/

/-- The buffer is a ring within its block. -/
def Receiver.InRing (sock : Receiver) : Prop :=
  sock.recvBufSize ≤ tcpRcvbufSize ∧ sock.recvBufHead < sock.recvBufSize ∧
    sock.recvBufLen ≤ sock.recvBufSize ∧
    sock.recvBufTail = (sock.recvBufHead + sock.recvBufLen) % sock.recvBufSize
deriving Decidable

/-- Data that fits is appended to the bytes in the buffer. -/
theorem Receiver.InRing.push (inRing : sock.InRing)
    (fits : sock.recvBufLen + data.length ≤ sock.recvBufSize) :
    (sock.recvBufPush data).InRing ∧ (sock.recvBufPush data).contents = sock.contents ++ data ∧
      (sock.recvBufPush data).recvBufLen = sock.recvBufLen + data.length ∧
      (sock.recvBufPush data).recvBufSize = sock.recvBufSize := by
  have small : sock.recvBufSize < wordLimit :=
    sock.size_lt.trans (by norm_num [wordLimit])
  by_cases empty : data = []
  · simpa [Receiver.recvBufPush, empty] using inRing
  obtain ⟨size_le, head_lt, len_le, tail_eq⟩ := inRing
  have room : ¬sub32 sock.recvBufSize sock.recvBufLen < data.length := by
    rw [sub32_of_le len_le small]
    omega
  obtain ⟨contents, tail⟩ := ringWrite_spec sock.recvBuf head_lt fits
  rw [← tail_eq] at contents tail
  have longer : add32 sock.recvBufLen data.length = sock.recvBufLen + data.length :=
    add32_of_lt (by omega)
  rw [Receiver.recvBufPush, if_neg empty, if_neg room, longer]
  exact ⟨⟨size_le, head_lt, fits, tail⟩, contents, rfl, rfl⟩

/-- What is taken and what is left are the bytes in the buffer. -/
theorem Receiver.InRing.recv (inRing : sock.InRing) (len : Nat) :
    (sock.tcpRecv len).2.InRing ∧
      (sock.tcpRecv len).1 ++ (sock.tcpRecv len).2.contents = sock.contents := by
  obtain ⟨size_le, head_lt, len_le, tail_eq⟩ := inRing
  have le : min sock.recvBufLen len ≤ sock.recvBufLen := Nat.min_le_left _ _
  have head := @ring_iterate _ (min sock.recvBufLen len) _ head_lt
  have split := ringContents_append sock.recvBuf head_lt (min sock.recvBufLen len)
    (sock.recvBufLen - min sock.recvBufLen len)
  rw [Nat.add_sub_cancel' le] at split
  rw [Receiver.tcpRecv]
  dsimp only [Receiver.contents]
  rw [head]
  refine ⟨⟨size_le, Nat.mod_lt _ sock.size_pos, (Nat.sub_le _ _).trans len_le, ?_⟩, split.symm⟩
  rw [tail_eq, Nat.mod_add_mod, Nat.add_assoc, Nat.add_sub_cancel' le]

/-- What was returned and what is in the buffer are the stream from the position `first` up
to `rcv_nxt`, and the queue has pieces of the stream. -/
structure Intact (stream : Nat → UInt8) (isn : UInt32) (first : Nat) (earlier returned : List UInt8)
    (sock : Receiver) : Prop where
  inRing : sock.InRing
  reached : first ≤ offset isn sock.rcvNxt
  bytes : returned ++ sock.contents =
    earlier ++ piece stream first (offset isn sock.rcvNxt - first)
  pieces : ∀ s ∈ sock.ooo, s.PieceOf stream isn

/-- The bytes in the first segments of the queue that follow on from a sequence number. -/
def followingBytes (seq : UInt32) : List Segment → Nat
  | [] => 0
  | s :: rest =>
    if s.seq = seq then s.data.length + followingBytes (seq + ofNat s.data.length) rest else 0

/-! ## The stream -/

/-- The bytes of a segment behind `rcv_nxt`, when it does not come early. -/
def newBytes (sock : Receiver) (s : Segment) : Nat :=
  s.data.length - (sock.rcvNxt - s.seq).toNat

/-- A segment carries a piece of the stream, and its bytes behind `rcv_nxt`, with those of the
queue that follow on from them, fit into the `recv_buf_size` bytes of the receive buffer. -/
def Fits (stream : Nat → UInt8) (isn : UInt32) (r : Reading) : Event → Prop
  | .segment s _ _ => s.PieceOf stream isn ∧
      (¬seqGt s.seq r.sock.rcvNxt → 0 < newBytes r.sock s →
        r.sock.recvBufLen + newBytes r.sock s + followingBytes
          (r.sock.rcvNxt + ofNat (newBytes r.sock s)) r.sock.ooo ≤ r.sock.recvBufSize)
  | .recv _ => True

section Intact

variable {returned : List UInt8} {first : Nat} (intact : Intact stream isn first earlier returned sock)
include intact

/-- Accepting the next bytes of the stream, if they fit. -/
theorem Intact.accept (next : Segment.PieceOf stream isn ⟨sock.rcvNxt, data⟩)
    (fits : sock.recvBufLen + data.length ≤ sock.recvBufSize) :
    Intact stream isn first earlier returned (sock.accept data) ∧
      (sock.accept data).recvBufLen = sock.recvBufLen + data.length ∧
      (sock.accept data).recvBufSize = sock.recvBufSize := by
  obtain ⟨inRing, contents, len, size⟩ := intact.inRing.push fits
  obtain ⟨next, short⟩ := next
  dsimp only at next short
  have reached := intact.reached
  have queue : (sock.recvBufPush data).ooo = sock.ooo := by
    rw [Receiver.recvBufPush]
    split
    · rfl
    · split <;> rfl
  refine ⟨⟨inRing, ?_, ?_, ?_⟩, len, size⟩
  · show first ≤ offset isn (sock.rcvNxt + ofNat data.length)
    rw [offset_add short]
    omega
  · show returned ++ (sock.recvBufPush data).contents =
      earlier ++ piece stream first (offset isn (sock.rcvNxt + ofNat data.length) - first)
    have further : offset isn sock.rcvNxt + data.length - first =
        offset isn sock.rcvNxt - first + data.length := by omega
    rw [contents, offset_add short, further, piece_append, Nat.add_sub_cancel' reached, ← next,
      ← append_assoc, intact.bytes, append_assoc]
  · show ∀ s ∈ (sock.recvBufPush data).ooo, _
    rw [queue]
    exact intact.pieces

/-- Delivering from the queue what comes next, if all of it fits. -/
theorem Intact.deliverData (pieces : ∀ s ∈ queue, s.PieceOf stream isn)
    (fits : sock.recvBufLen + followingBytes sock.rcvNxt queue ≤ sock.recvBufSize) :
    Intact stream isn first earlier returned (sock.deliverData queue) := by
  induction queue generalizing sock with
  | nil => exact ⟨intact.inRing, intact.reached, intact.bytes, pieces⟩
  | cons s rest ih =>
    rw [Receiver.deliverData]
    rw [followingBytes] at fits
    by_cases here : s.seq = sock.rcvNxt
    · rw [if_pos here] at fits ⊢
      have next : Segment.PieceOf stream isn ⟨sock.rcvNxt, s.data⟩ := by
        rw [← here]
        exact pieces s mem_cons_self
      obtain ⟨accepted, len, size⟩ := intact.accept next (by omega)
      refine ih accepted (forall_mem_cons.mp pieces).2 ?_
      rw [len, size, Nat.add_assoc]
      exact fits
    · rw [if_neg here]
      exact ⟨intact.inRing, intact.reached, intact.bytes, pieces⟩

/-- The step lemma of the data path. -/
theorem Intact.receiveData {stored merged : Bool}
    (meets : Fits stream isn ⟨sock, returned⟩ (.segment s stored merged)) :
    Intact stream isn first earlier returned (sock.receiveData s stored merged) := by
  obtain ⟨carried, fits⟩ := meets
  dsimp only at fits
  have accepts {data : List UInt8} (nonempty : data ≠ []) (new : data.length = newBytes sock s)
      (late : ¬seqGt s.seq sock.rcvNxt) (next : Segment.PieceOf stream isn ⟨sock.rcvNxt, data⟩) :
      Intact stream isn first earlier returned ((sock.accept data).deliverData sock.ooo) := by
    have room := fits late (new ▸ length_pos_iff.mpr nonempty)
    rw [← new] at room
    obtain ⟨accepted, len, size⟩ := intact.accept next (by omega)
    refine accepted.deliverData intact.pieces ?_
    rw [len, size]
    exact room
  unfold Receiver.receiveData
  split
  · exact intact
  rename_i nonempty
  split
  · rename_i here
    refine accepts nonempty ?_ ?_ (by rw [← here]; exact carried)
    · rw [newBytes, here, UInt32.sub_self]
      rfl
    · rw [here, seqGt_iff_toNat, UInt32.sub_self]
      exact fun later => Nat.lt_irrefl 0 later.1
  split
  · split
    · exact ⟨intact.inRing, intact.reached, intact.bytes,
        pieceOf_of_mem_oooInsert carried intact.pieces⟩
    · exact intact
  · rename_i late
    dsimp only
    split
    · rename_i longer
      have length : (s.data.drop (sock.rcvNxt - s.seq).toNat).length = newBytes sock s := by
        rw [length_drop, newBytes]
      refine accepts ?_ length late (carried.drop longer)
      rw [← length_pos_iff, length, newBytes]
      omega
    · exact intact

end Intact

/-- **The bytes that `tcp_recv` returned, followed by those in the receive buffer, are the
stream from the first `rcv_nxt` up to the present one**, when every segment fits. The stream
may have begun before, and segments may too. -/
theorem received_stream {start : Receiver} {events : List Event} (inRing : start.InRing)
    (pieces : ∀ s ∈ start.ooo, s.PieceOf stream isn)
    (meets : Meets Reading.step (Fits stream isn) ⟨start, []⟩ events) :
    let last := events.foldl Reading.step ⟨start, []⟩
    offset isn start.rcvNxt ≤ offset isn last.sock.rcvNxt ∧
      last.returned ++ last.sock.contents =
        start.contents ++ piece stream (offset isn start.rcvNxt)
          (offset isn last.sock.rcvNxt - offset isn start.rcvNxt) := by
  have intact := meets.invariant (P := fun r =>
    Intact stream isn (offset isn start.rcvNxt) start.contents r.returned r.sock) ?_ ?_
  · exact ⟨intact.reached, intact.bytes⟩
  · intro r event intact fits
    cases event with
    | segment s stored merged => exact intact.receiveData fits
    | recv len =>
      obtain ⟨inRing, taken⟩ := intact.inRing.recv len
      refine ⟨inRing, intact.reached, ?_, intact.pieces⟩
      show r.returned ++ (r.sock.tcpRecv len).1 ++ (r.sock.tcpRecv len).2.contents = _
      rw [append_assoc, taken]
      exact intact.bytes
  · exact ⟨inRing, le_refl _, by simp [piece], pieces⟩

/-- An established socket that has received nothing yet. -/
def emptyReceiver : Receiver :=
  ⟨0, fun _ => 0, tcpRcvbufSize, 0, 0, 0, [], by decide, by decide⟩

/-- An established socket with a buffer of one byte, and 5 as the next sequence number. -/
def smallReceiver (len : Nat) : Receiver :=
  ⟨5, fun _ => 0, 1, 0, 0, len, [], by decide, by decide⟩

/-- A segment that begins before `rcv_nxt` brings one byte, which is read. -/
theorem received_stream_overlap :
    let last := [Event.segment ⟨3, [7, 7, 7]⟩ true true, .recv 1].foldl Reading.step
      ⟨smallReceiver 0, []⟩
    last.sock.rcvNxt = 6 ∧ offset 0 (smallReceiver 0).rcvNxt ≤ offset 0 last.sock.rcvNxt ∧
      last.returned ++ last.sock.contents =
        (smallReceiver 0).contents ++ piece (fun _ => 7) (offset 0 (smallReceiver 0).rcvNxt)
          (offset 0 last.sock.rcvNxt - offset 0 (smallReceiver 0).rcvNxt) := by
  have meets : Meets Reading.step (Fits (fun _ => 7) 0) ⟨smallReceiver 0, []⟩
      [.segment ⟨3, [7, 7, 7]⟩ true true, .recv 1] :=
    ⟨⟨⟨by decide, by decide⟩, by decide⟩, trivial, trivial⟩
  exact ⟨by decide, received_stream (by decide) (fun _ member => absurd member not_mem_nil) meets⟩

/-- In a full buffer the next byte is dropped, and `rcv_nxt` goes past it. -/
theorem received_stream_full :
    let last := [Event.segment ⟨5, [7]⟩ true true].foldl Reading.step ⟨smallReceiver 1, []⟩
    (smallReceiver 1).InRing ∧ Segment.PieceOf (fun _ => 7) 5 ⟨5, [7]⟩ ∧
      last.sock.rcvNxt = 6 ∧ last.returned ++ last.sock.contents = (smallReceiver 1).contents :=
  ⟨by decide, ⟨by decide, by decide⟩, by decide, by decide⟩

end FunsOS.Tcp
