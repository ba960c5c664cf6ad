import FunsOS.Foundation.Transducer
import FunsOS.Foundation.Runs

/-!
# The SLIP driver

A model of `net/slip.c`: `slip_send` and `slip_recv` over a serial line.

The receive buffer is the bytes of `slip_rx_buf` below `slip_rx_len`, of which there
are never more than `SLIP_BUF_SIZE`: a byte that finds the buffer full is dropped. A
call of `slip_recv` reads while the line has a byte ready. Which bytes become ready
during a call is up to the line, so the call gets them as a list; a byte it does not
read is ready for the next call. Sending waits for the transmitter at every byte, so
it writes all of them.
-/

set_option autoImplicit false

namespace FunsOS.Slip

open Foundation

def slipEnd : UInt8 := 0xC0
def slipEsc : UInt8 := 0xDB
def slipEscEnd : UInt8 := 0xDC
def slipEscEsc : UInt8 := 0xDD

def slipBufSize : Nat := 2048

/-- The receiver: the bytes received so far, and whether the last one was an escape. -/
@[ext] structure Receiver where
  rx : List UInt8
  bounded : rx.length ≤ slipBufSize
  escaped : Bool

/-- The receiver with nothing received. -/
def Receiver.empty : Receiver := ⟨[], Nat.zero_le _, false⟩

/-- `slip_rx_buf[slip_rx_len++] = c` when there is room. -/
def Receiver.store (r : Receiver) (c : UInt8) : Receiver :=
  if room : r.rx.length < slipBufSize then
    { r with
      rx := r.rx ++ [c]
      bounded := by rw [List.length_append]; exact room }
  else r

/-- The driver's static variables. -/
structure Driver where
  receiver : Receiver
  initialized : Bool

def slipInit (_ : Driver) : Driver := ⟨.empty, true⟩

/-! ## Sending -/

/-- What `slip_send` writes for one byte. -/
def escape (b : UInt8) : List UInt8 :=
  if b = slipEnd then [slipEsc, slipEscEnd]
  else if b = slipEsc then [slipEsc, slipEscEsc]
  else [b]

/-- `slip_send`: the bytes it writes, and what it returns. -/
def slipSend (driver : Driver) (packet : List UInt8) : List UInt8 × Int :=
  if packet = [] ∨ driver.initialized = false then ([], -1)
  else (slipEnd :: (packet.flatMap escape ++ [slipEnd]), packet.length)

/-! ## Receiving -/

/-- The byte an escape stands for together with the byte after it. -/
def unescape (c : UInt8) : UInt8 :=
  if c = slipEscEnd then slipEnd else if c = slipEscEsc then slipEsc else c

/-- One byte of the loop of `slip_recv`. A packet ends the call. -/
def receiveByte (r : Receiver) (c : UInt8) : Receiver × Option (List UInt8) :=
  if c = slipEnd then
    if 0 < r.rx.length then (.empty, some r.rx) else ({ r with escaped := false }, none)
  else if c = slipEsc then ({ r with escaped := true }, none)
  else (({ r with escaped := false } : Receiver).store (if r.escaped then unescape c else c), none)

/-- What a call of `slip_recv` leaves and returns: the driver, the bytes that are
ready still, the return value, and the bytes in the caller's buffer. -/
structure Received where
  driver : Driver
  unread : List UInt8
  ret : Int
  data : List UInt8

/-- `slip_recv` with the given bytes becoming ready during the call. -/
def slipRecv (driver : Driver) (maxlen : Nat) (ready : List UInt8) : Received :=
  if maxlen = 0 ∨ driver.initialized = false then ⟨driver, ready, -1, []⟩
  else
    let result := call receiveByte driver.receiver ready
    let driver := { driver with receiver := result.1 }
    match result.2.2 with
    | some packet =>
      let data := packet.take maxlen
      ⟨driver, result.2.1, data.length, data⟩
    | none => ⟨driver, result.2.1, 0, []⟩

/-! ## Repeated calls -/

/-- A call of `slip_recv`: how many bytes become ready during it, and its `maxlen`. -/
structure Call where
  ready : Nat
  maxlen : Nat

/-- The receiving end of a line: the driver, the bytes not read yet, and the packets
delivered so far. -/
structure Line where
  driver : Driver
  pending : List UInt8
  delivered : List (List UInt8)

def Line.recv (line : Line) (c : Call) : Line :=
  let result := slipRecv line.driver c.maxlen (line.pending.take c.ready)
  { driver := result.driver
    pending := result.unread ++ line.pending.drop c.ready
    delivered := line.delivered ++ if 0 < result.ret then [result.data] else [] }

/-- The bytes `slip_send` writes for a list of packets. -/
def wire (sender : Driver) (packets : List (List UInt8)) : List UInt8 :=
  packets.flatMap fun packet => (slipSend sender packet).1

/-- The receiving end after some calls on a byte stream. -/
def receive (receiver : Driver) (stream : List UInt8) (calls : List Call) : Line :=
  calls.foldl Line.recv ⟨receiver, stream, []⟩

/-!
## SLIP round trip

What the receiver makes of a packet's bytes: the escaped bytes append the packet to
what it holds (`receive_packet`), and the framed packet comes out, after whatever
the receiver held before (`feed_frame`). A stream of framed packets therefore comes
out as the packets, after at most one spurious frame (`feed_frames_of_any`).

The calls of `slip_recv` take these packets off the stream one by one, however the
bytes become ready (`Line.recv_feed`), and a call that has a byte ready reads one
(`Line.recv_pending`). `slip_round_trip` puts the two together.
-/

/-! ## One packet -/

variable (r : Receiver) {packet : List UInt8}

theorem receive_escape {b : UInt8} (plain : r.escaped = false) (room : r.rx.length < slipBufSize) :
    feed receiveByte r (escape b) = [] ∧ (after receiveByte r (escape b)).rx = r.rx ++ [b] ∧
      (after receiveByte r (escape b)).escaped = false := by
  obtain ⟨rx, bounded, escaped⟩ := r
  cases plain
  have room' : rx.length < slipBufSize := room
  by_cases isEnd : b = slipEnd
  · subst isEnd
    simp [escape, feed, after, receiveByte, Receiver.store, room', unescape, slipEnd, slipEsc,
      slipEscEnd]
  · by_cases isEsc : b = slipEsc
    · subst isEsc
      simp [escape, feed, after, receiveByte, Receiver.store, room', unescape, slipEnd, slipEsc,
        slipEscEnd, slipEscEsc]
    · simp [escape, isEnd, isEsc, feed, after, receiveByte, Receiver.store, room']

theorem receive_packet (plain : r.escaped = false)
    (room : r.rx.length + packet.length ≤ slipBufSize) :
    feed receiveByte r (packet.flatMap escape) = [] ∧
      (after receiveByte r (packet.flatMap escape)).rx = r.rx ++ packet ∧
      (after receiveByte r (packet.flatMap escape)).escaped = false := by
  induction packet generalizing r with
  | nil => exact ⟨rfl, (List.append_nil _).symm, plain⟩
  | cons b packet ih =>
    rw [List.length_cons] at room
    obtain ⟨silent, stored, plain'⟩ := receive_escape r plain (by omega)
    have shorter : (after receiveByte r (escape b)).rx.length + packet.length ≤ slipBufSize := by
      rw [stored, List.length_append, List.length_singleton]
      omega
    obtain ⟨silent', stored', plain''⟩ := ih _ plain' shorter
    rw [List.flatMap_cons, feed_append, after_append, silent, silent', stored', stored]
    exact ⟨rfl, by rw [List.append_assoc]; rfl, plain''⟩

/-- What the receiver holds comes out at the next `END`. -/
def Receiver.held : List (List UInt8) := if r.rx = [] then [] else [r.rx]

theorem receive_end :
    feed receiveByte r [slipEnd] = r.held ∧ after receiveByte r [slipEnd] = .empty := by
  obtain ⟨rx, bounded, escaped⟩ := r
  cases rx <;> exact ⟨rfl, rfl⟩

/-- What `slip_send` writes for a packet. -/
def frame (packet : List UInt8) : List UInt8 := slipEnd :: (packet.flatMap escape ++ [slipEnd])

/-- **A framed packet** comes out, after what the receiver held. -/
theorem feed_frame (nonempty : packet ≠ []) (fits : packet.length ≤ slipBufSize) :
    feed receiveByte r (frame packet) = r.held ++ [packet] ∧
      after receiveByte r (frame packet) = .empty := by
  have framed : frame packet = [slipEnd] ++ (packet.flatMap escape ++ [slipEnd]) := rfl
  obtain ⟨first, reset⟩ := receive_end r
  obtain ⟨silent, stored, -⟩ := receive_packet .empty rfl (by simpa [Receiver.empty] using fits)
  obtain ⟨last, done⟩ := receive_end (after receiveByte .empty (packet.flatMap escape))
  have whole : (after receiveByte .empty (packet.flatMap escape)).held = [packet] := by
    rw [Receiver.held, stored]
    simp [Receiver.empty, nonempty]
  rw [framed, feed_append, after_append, first, reset, feed_append, after_append, silent, last,
    done, whole]
  exact ⟨rfl, rfl⟩

/-! ## A stream of packets -/

/-- The packets `slip_send` and `slip_recv` can carry. -/
def Carried (packet : List UInt8) : Prop := packet ≠ [] ∧ packet.length ≤ slipBufSize

variable {packets : List (List UInt8)} {c : Call} {line : Line}

section

variable (carried : ∀ packet ∈ packets, Carried packet)
include carried

theorem wire_eq_frames {sender : Driver} (up : sender.initialized) :
    wire sender packets = packets.flatMap frame := by
  refine List.flatMap_congr fun packet member => ?_
  rw [slipSend, if_neg (by simp [(carried packet member).1, up]), frame]

/-- From the empty receiver, the packets come out. -/
theorem feed_frames : feed receiveByte .empty (packets.flatMap frame) = packets := by
  induction packets with
  | nil => rfl
  | cons packet packets ih =>
    obtain ⟨nonempty, fits⟩ := carried packet List.mem_cons_self
    obtain ⟨out, reset⟩ := feed_frame .empty nonempty fits
    rw [List.flatMap_cons, feed_append, out, reset, ih (List.forall_mem_cons.mp carried).2]
    rfl

/-- From any receiver, they come out after at most one frame. -/
theorem feed_frames_of_any :
    ∃ spurious : List (List UInt8), spurious.length ≤ 1 ∧
      feed receiveByte r (packets.flatMap frame) = spurious ++ packets := by
  cases packets with
  | nil => exact ⟨[], Nat.zero_le _, rfl⟩
  | cons packet packets =>
    obtain ⟨nonempty, fits⟩ := carried packet List.mem_cons_self
    obtain ⟨out, reset⟩ := feed_frame r nonempty fits
    refine ⟨r.held, ?_, ?_⟩
    · rw [Receiver.held]
      split <;> simp
    · rw [List.flatMap_cons, feed_append, out, reset,
        feed_frames (List.forall_mem_cons.mp carried).2,
        List.append_assoc]
      rfl

end

/-! ## Calls -/

/-- What the receiver emits is not empty and fits the buffer. -/
theorem receiveByte_carried {r : Receiver} {c : UInt8} (out : (receiveByte r c).2 = some packet) :
    Carried packet := by
  rw [receiveByte] at out
  split at out
  · split at out
    · rename_i held
      cases out
      exact ⟨List.ne_nil_of_length_pos held, r.bounded⟩
    · cases out
  · split at out <;> cases out

theorem feed_carried {r : Receiver} {bytes : List UInt8} :
    ∀ packet ∈ feed receiveByte r bytes, Carried packet := by
  induction bytes generalizing r with
  | nil => exact fun packet member => absurd member List.not_mem_nil
  | cons c bytes ih =>
    intro packet member
    rcases List.mem_append.mp member with here | later
    · exact receiveByte_carried (Option.mem_toList.mp here)
    · exact ih packet later

theorem slipRecv_spec {driver : Driver} (up : driver.initialized) {maxlen : Nat}
    (room : slipBufSize ≤ maxlen) (ready : List UInt8) :
    (slipRecv driver maxlen ready).driver =
        { driver with receiver := (call receiveByte driver.receiver ready).1 } ∧
      (slipRecv driver maxlen ready).unread = (call receiveByte driver.receiver ready).2.1 ∧
      (if 0 < (slipRecv driver maxlen ready).ret then [(slipRecv driver maxlen ready).data] else []) =
        (call receiveByte driver.receiver ready).2.2.toList := by
  have some_room : maxlen ≠ 0 := by
    have : 0 < slipBufSize := by decide
    omega
  have goesOn : ¬ (maxlen = 0 ∨ driver.initialized = false) := by simp [some_room, up]
  simp only [slipRecv, if_neg goesOn]
  cases returned : (call receiveByte driver.receiver ready).2.2 with
  | none => simp only [Int.lt_irrefl, if_false, Option.toList_none, and_self]
  | some packet =>
    obtain ⟨nonempty, fits⟩ := feed_carried packet (call_emits returned)
    have whole : packet.take maxlen = packet := List.take_of_length_le (Nat.le_trans fits room)
    have positive : (0 : Int) < packet.length :=
      Int.natCast_pos.mpr (List.length_pos_of_ne_nil nonempty)
    simp only [whole, if_pos positive, Option.toList_some, and_self]

/-- The calls that are made: the driver is initialised, and there is room for a packet. -/
def Line.Ready (line : Line) : Prop := line.driver.initialized

section

variable (ready : line.Ready) (room : slipBufSize ≤ c.maxlen)
include ready room

theorem Line.recv_ready : (line.recv c).Ready := by
  have kept := (slipRecv_spec ready room (line.pending.take c.ready)).1
  rw [Line.recv]
  rw [kept]
  exact ready

/-- **One call.** What was delivered, followed by what the rest of the stream will give,
does not change. -/
theorem Line.recv_feed :
    (line.recv c).delivered ++ feed receiveByte (line.recv c).driver.receiver (line.recv c).pending =
      line.delivered ++ feed receiveByte line.driver.receiver line.pending := by
  obtain ⟨driver, unread, data⟩ := slipRecv_spec ready room (line.pending.take c.ready)
  have whole := @call_feed _ _ _ receiveByte line.driver.receiver (line.pending.take c.ready)
    (line.pending.drop c.ready)
  rw [List.take_append_drop] at whole
  rw [whole, Line.recv]
  rw [data, driver, unread, List.append_assoc]

/-- A call with a byte ready reads one. -/
theorem Line.recv_pending
    (some_ready : 0 < c.ready) : (line.recv c).pending.length ≤ line.pending.length - 1 := by
  have unread := (slipRecv_spec ready room (line.pending.take c.ready)).2.1
  rw [Line.recv]
  rw [unread, List.length_append, List.length_drop]
  cases pending : line.pending with
  | nil => simp [call]
  | cons b bytes =>
    have available : (b :: bytes).take c.ready ≠ [] := by
      obtain ⟨n, isSucc⟩ := Nat.exists_eq_succ_of_ne_zero (Nat.ne_zero_of_lt some_ready)
      rw [isSucc]
      exact List.cons_ne_nil _ _
    have read := @call_unread_lt _ _ _ receiveByte line.driver.receiver _ available
    rw [List.length_take] at read
    omega

end

/-- A run of calls. -/
theorem receive_spec {receiver : Driver} (up : receiver.initialized) (stream : List UInt8)
    {calls : List Call} (room : ∀ c ∈ calls, slipBufSize ≤ c.maxlen) :
    (receive receiver stream calls).delivered ++
        feed receiveByte (receive receiver stream calls).driver.receiver
          (receive receiver stream calls).pending =
      feed receiveByte receiver.receiver stream := by
  have start : Line.Ready ⟨receiver, stream, []⟩ := up
  refine (foldl_invariant_of_mem (P := fun line : Line => line.Ready ∧
    line.delivered ++ feed receiveByte line.driver.receiver line.pending =
      feed receiveByte receiver.receiver stream) ?_ ⟨start, rfl⟩).2
  rintro line c member ⟨ready, same⟩
  exact ⟨line.recv_ready ready (room c member), (line.recv_feed ready (room c member)).trans same⟩

/-- Calls that each have a byte ready read the stream to its end. -/
theorem receive_pending (ready : line.Ready) {calls : List Call}
    (room : ∀ c ∈ calls, slipBufSize ≤ c.maxlen) (some_ready : ∀ c ∈ calls, 0 < c.ready) :
    (calls.foldl Line.recv line).pending.length ≤ line.pending.length - calls.length := by
  induction calls generalizing line with
  | nil => exact Nat.le_refl _
  | cons c calls ih =>
    have first := line.recv_pending ready (room c List.mem_cons_self)
      (some_ready c List.mem_cons_self)
    have rest := ih (line.recv_ready ready (room c List.mem_cons_self))
      (List.forall_mem_cons.mp room).2
      (List.forall_mem_cons.mp some_ready).2
    rw [List.foldl_cons, List.length_cons]
    omega

/-! ## The round trip -/

/-- **SLIP round trip.** Packets of 1 to 2048 bytes are sent one after the other, and
received by calls with room for 2048 bytes, with the bytes becoming ready in any way.
From the initial receiver, what was delivered so far is an initial part of the packets,
and when all bytes are read it is all of them. From any receiver, it is then all of
them after at most one other frame. As many calls as there are bytes read them all,
if each has a byte ready. -/
theorem slip_round_trip {sender receiver : Driver} (sending : sender.initialized)
    (receiving : receiver.initialized) {packets : List (List UInt8)}
    (carried : ∀ packet ∈ packets, packet ≠ [] ∧ packet.length ≤ 2048) {calls : List Call}
    (room : ∀ c ∈ calls, 2048 ≤ c.maxlen) :
    ((receive (slipInit receiver) (wire sender packets) calls).delivered <+: packets ∧
      ((receive (slipInit receiver) (wire sender packets) calls).pending = [] →
        (receive (slipInit receiver) (wire sender packets) calls).delivered = packets)) ∧
    ((receive receiver (wire sender packets) calls).pending = [] →
      ∃ spurious : List (List UInt8), spurious.length ≤ 1 ∧
        (receive receiver (wire sender packets) calls).delivered = spurious ++ packets) ∧
    ((∀ c ∈ calls, 0 < c.ready) → (wire sender packets).length ≤ calls.length →
      (receive receiver (wire sender packets) calls).pending = []) := by
  have fits : ∀ packet ∈ packets, Carried packet := carried
  refine ⟨?_, fun read => ?_, fun some_ready enough => ?_⟩
  · have same := @receive_spec (slipInit receiver) rfl (wire sender packets) calls room
    have out : feed receiveByte (slipInit receiver).receiver (wire sender packets) = packets := by
      rw [wire_eq_frames fits sending]
      exact feed_frames fits
    rw [out] at same
    refine ⟨⟨_, same⟩, fun read => ?_⟩
    rw [read, feed, List.append_nil] at same
    exact same
  · have same := receive_spec receiving (wire sender packets) room
    rw [read, feed, List.append_nil] at same
    rw [same, wire_eq_frames fits sending]
    exact feed_frames_of_any receiver.receiver fits
  · have short : (receive receiver (wire sender packets) calls).pending.length ≤
        (wire sender packets).length - calls.length :=
      @receive_pending ⟨receiver, wire sender packets, []⟩ receiving calls room some_ready
    exact List.eq_nil_of_length_eq_zero (by omega)

/-- Two packets with `END` and `ESC` bytes, read in calls of 3, 0, 2, 5 and 9 ready bytes by
a receiver that starts in the middle of another packet, after an escape. -/
theorem slip_round_trip_two_packets :
    (receive ⟨⟨[1], by decide, true⟩, true⟩ (wire (slipInit ⟨.empty, false⟩) [[0xC0, 7], [0xDB]])
      [⟨3, 2048⟩, ⟨0, 2048⟩, ⟨2, 4096⟩, ⟨5, 2048⟩, ⟨9, 2048⟩]).pending = [] ∧
    ∃ spurious : List (List UInt8), spurious.length ≤ 1 ∧
      (receive ⟨⟨[1], by decide, true⟩, true⟩ (wire (slipInit ⟨.empty, false⟩) [[0xC0, 7], [0xDB]])
        [⟨3, 2048⟩, ⟨0, 2048⟩, ⟨2, 4096⟩, ⟨5, 2048⟩, ⟨9, 2048⟩]).delivered =
          spurious ++ [[0xC0, 7], [0xDB]] := by
  have read : (receive ⟨⟨[1], by decide, true⟩, true⟩
      (wire (slipInit ⟨.empty, false⟩) [[0xC0, 7], [0xDB]])
      [⟨3, 2048⟩, ⟨0, 2048⟩, ⟨2, 4096⟩, ⟨5, 2048⟩, ⟨9, 2048⟩]).pending = [] := by decide +kernel
  exact ⟨read, (slip_round_trip rfl rfl (by decide +kernel) (by decide +kernel)).2.1 read⟩

/-! ## Noise -/

open List

/-- The bytes on the line when noise gets before each packet. -/
def noisyWire (sender : Driver) (sent : List (List UInt8 × List UInt8)) : List UInt8 :=
  sent.flatMap fun item => item.1 ++ (slipSend sender item.2).1

section

variable {sender receiver : Driver} (sending : sender.initialized)
  {sent : List (List UInt8 × List UInt8)} (carried : ∀ item ∈ sent, Carried item.2)
include sending carried

theorem feed_noisyWire :
    (sent.map Prod.snd).Sublist (feed receiveByte r (noisyWire sender sent)) := by
  induction sent generalizing r with
  | nil => exact nil_sublist _
  | cons item sent ih =>
    obtain ⟨⟨nonempty, fits⟩, rest⟩ := forall_mem_cons.mp carried
    have framed : (slipSend sender item.2).1 = frame item.2 := by
      rw [slipSend, if_neg (by simp [nonempty, sending]), frame]
    rw [noisyWire, flatMap_cons, framed, feed_append, feed_append, (feed_frame _ nonempty fits).1]
    exact (append_assoc .. ▸ sublist_append_right _ [item.2]).append (ih _ rest)

/-- **The receiver recovers from noise.** When all bytes are read, every packet has been
delivered, in order, whatever bytes were before each. -/
theorem packets_survive_noise (receiving : receiver.initialized) {calls : List Call}
    (room : ∀ c ∈ calls, slipBufSize ≤ c.maxlen)
    (read : (receive receiver (noisyWire sender sent) calls).pending = []) :
    (sent.map Prod.snd).Sublist (receive receiver (noisyWire sender sent) calls).delivered := by
  have same := receive_spec receiving (noisyWire sender sent) room
  rw [read, feed, append_nil] at same
  rw [same]
  exact feed_noisyWire _ sending carried

end

theorem packet_survives_escape :
    [[7]].Sublist (receive ⟨.empty, true⟩ (noisyWire ⟨.empty, true⟩ [([0xDB], [7])])
      [⟨4, 2048⟩]).delivered :=
  @packets_survive_noise _ _ rfl [([0xDB], [7])] (by simp [Carried, slipBufSize]) rfl _ (by decide)
    (by decide +kernel)

end FunsOS.Slip
