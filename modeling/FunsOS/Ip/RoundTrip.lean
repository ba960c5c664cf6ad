import Mathlib.Data.List.Perm.Subperm
import FunsOS.Foundation.Runs
import FunsOS.Ip.Packet

/-!
# Which datagrams arrive

A packet that `ip_fragment_send` cut into several never reaches the upper layer:
`reasm_finalize` takes the interface of the assembled buffer from the `buf` field of the
table entry, which nothing ever sets, and without an interface it drops the buffer
(`receiveFragment_delivers_nothing`). A datagram that fits one packet goes past the table.

So a payload arrives exactly if it is sent in one packet (`round_trip_iff`), and then
exactly once. In whatever order the fragments come, and whichever are missing, nothing
else is delivered.
-/

set_option autoImplicit false

namespace FunsOS.Ip

open Foundation List Nat UInt32

/-! ## The table never holds a buffer -/

/-- No entry has a buffer to take the interface from. -/
def NoBuffer (table : ReasmTable) : Prop := ∀ i, (table i).buf = none

variable {table : ReasmTable} {entry : ReasmEntry} {answers : Answers} {host : Host}

theorem release_buf : entry.release.buf = none := rfl

theorem reasmInsert_buf (entry : ReasmEntry) (new : IpFrag) (memory : Memory) :
    (reasmInsert entry new memory).buf = entry.buf := by
  rw [reasmInsert]
  split <;> rfl

variable (host) {hdr : IpHeader} {more : Bool}

/-- Without a buffer in the entry the assembled packet is dropped. -/
theorem reasmFinalize_drops {memory : Memory} (without : entry.buf = none) :
    reasmFinalize host entry memory = none := by
  rw [reasmFinalize, without]
  repeat' split
  all_goals first | rfl | contradiction

section

variable (none_ : NoBuffer table)
include none_

theorem NoBuffer.update {i : Slot} (without : entry.buf = none) :
    NoBuffer (Function.update table i entry) := by
  intro j
  by_cases here : j = i
  · subst here
    rw [Function.update_self, without]
  · rw [Function.update_of_ne here, none_ j]

theorem reapOld_noBuffer (now : UInt32) : NoBuffer (reapOld table now) := by
  intro i
  rw [reapOld]
  split
  · rfl
  · exact none_ i

theorem reasmAlloc_noBuffer {now : UInt32} : NoBuffer (reasmAlloc table now).1 := by
  have reaped := reapOld_noBuffer none_ now
  rw [reasmAlloc]
  generalize reapOld table now = table at reaped
  generalize oldestSlot table = oldest
  split
  · exact reaped
  · exact reaped.update release_buf

theorem reasmSlot_noBuffer (hdr : IpHeader) (ticks : UInt32) :
    NoBuffer (reasmSlot table hdr ticks).1 := by
  rw [reasmSlot]
  split
  · exact none_
  · exact (reasmAlloc_noBuffer none_).update rfl

/-- **A fragment delivers nothing**, and leaves no buffer in the table. -/
theorem receiveFragment_delivers_nothing {call : Call} {payload : List UInt8} :
    (receiveFragment host table hdr call payload).2 = none ∧
      NoBuffer (receiveFragment host table hdr call payload).1 := by
  have slot := reasmSlot_noBuffer none_ hdr call.ticks
  rw [receiveFragment]
  cases chosen : reasmSlot table hdr call.ticks with
  | mk table i =>
    rw [chosen] at slot
    have inserted := (reasmInsert_buf (table i) ⟨hdr.flagsFragment &&& 0x1FFF, payload,
      decide ((hdr.flagsFragment >>> 13) &&& 0x07 &&& 0x01 ≠ 0)⟩ call.memory).trans (slot i)
    dsimp only
    -- Whether this was the last fragment changes nothing: complete or not is what counts.
    split <;> split
    all_goals first
      | exact ⟨reasmFinalize_drops host inserted, slot.update release_buf⟩
      | exact ⟨rfl, slot.update inserted⟩

theorem ipReceive_noBuffer (call : Call) : NoBuffer (ipReceive host table call).1 := by
  rw [ipReceive]
  split
  · split
    · exact (receiveFragment_delivers_nothing host none_ ..).2
    · exact none_
  · exact none_

end

/-! ## Headers of the packets sent -/

section Headers

variable (iface : NetInterface) (d : Datagram) (id off : UInt16) (chunk : Nat)

theorem fragmentHeader_ihl : (fragmentHeader iface d id off chunk more).ihl = 20 := by
  show ((0x45 : UInt8) &&& 0x0F) * 4 = 20
  decide

theorem fragmentHeader_totalLength (fits : chunk ≤ bufferSize) :
    (fragmentHeader iface d id off chunk more).totalLength.toNat = 20 + chunk := by
  have limit : bufferSize = 1518 := rfl
  show (UInt16.ofNat (20 + chunk)).toNat = _
  rw [UInt16.toNat_ofNat']
  omega

theorem fragmentHeader_isFragment_of_more :
    (fragmentHeader iface d id off chunk true).IsFragment := by
  refine .inr ?_
  show ((ipFlagMf ||| (off &&& 0x1FFF)) >>> 13) &&& 0x07 &&& 0x01 ≠ 0
  intro zero
  have bit := congrArg (fun x : UInt16 => x.toBitVec.getLsbD 0) zero
  simp [ipFlagMf] at bit

theorem fragmentHeader_isFragment_of_offset (small : off.toNat < 8192) (later : off ≠ 0) :
    (fragmentHeader iface d id off chunk more).IsFragment := by
  refine .inl ?_
  have masked : off.toNat &&& 8191 = off.toNat :=
    (and_two_pow_sub_one_eq_mod off.toNat 13).trans (mod_eq_of_lt small)
  have flag : (if more then ipFlagMf else 0).toNat &&& 8191 = 0 := by
    cases more <;> rfl
  have whole : ((if more then ipFlagMf else 0) ||| (off &&& 0x1FFF)) &&& 0x1FFF = off := by
    apply UInt16.toNat_inj.mp
    rw [UInt16.toNat_and, UInt16.toNat_or, and_or_distrib_right]
    show ((if more then ipFlagMf else 0).toNat &&& 8191 ||| off.toNat &&& 8191 &&& 8191) = _
    rw [flag, masked, masked, zero_or]
  show ((if more then ipFlagMf else 0) ||| (off &&& 0x1FFF)) &&& 0x1FFF ≠ 0
  rw [whole]
  exact later

theorem fragmentHeader_not_isFragment : ¬(fragmentHeader iface d id 0 chunk false).IsFragment := by
  show ¬(((0 : UInt16) ||| (0 &&& 0x1FFF)) &&& 0x1FFF ≠ 0 ∨
    (((0 : UInt16) ||| (0 &&& 0x1FFF)) >>> 13) &&& 0x07 &&& 0x01 ≠ 0)
  decide

end Headers

/-! ## The packets sent -/

theorem toNat_and_not_seven {u : UInt32} : (u &&& ~~~7).toNat = u.toNat / 8 * 8 := by
  have mask : (~~~7 : UInt32).toBitVec = BitVec.allOnes 32 <<< 3 := by decide
  have word := u.toNat_lt
  rw [← UInt32.toNat_toBitVec, UInt32.toBitVec_and, mask, ← BitVec.shiftLeft_ushiftRight,
    BitVec.toNat_shiftLeft, BitVec.toNat_ushiftRight, shiftRight_eq_div_pow, shiftLeft_eq,
    UInt32.toNat_toBitVec]
  omega

theorem le_maxPayload {mtu : UInt32} (large : 28 ≤ mtu) : 8 ≤ (maxPayload mtu).toNat := by
  have bound : 28 ≤ mtu.toNat := le_iff_toNat_le.mp large
  have sub : (mtu - 20).toNat = mtu.toNat - 20 :=
    UInt32.toNat_sub_of_le _ _ (UInt32.le_trans (by decide) large)
  rw [maxPayload, toNat_and_not_seven]
  omega

variable {iface receiver : NetInterface} {d : Datagram} {id : UInt16} {data : List UInt8}

/-- The loop is what is left of `ip_fragment_send` on an interface with room for a block. -/
theorem ipFragmentSend_eq (large : 28 ≤ iface.mtu) {nextIpId : UInt16} :
    ipFragmentSend nextIpId iface d answers =
      fragmentLoop iface d (datagramId nextIpId d) answers d.payload.length 0 0 d.payload := by
  have room := le_maxPayload large
  have notZero : iface.mtu ≠ 0 := by
    intro zero
    rw [zero] at large
    exact absurd large (by decide)
  have notSmall : ¬maxPayload iface.mtu < 8 := by
    intro small
    exact absurd (lt_iff_toNat_lt.mp small) (not_lt.mpr room)
  rw [ipFragmentSend, if_neg notZero, if_neg notSmall]

/-- **A payload that needs several packets is sent in fragments only.** The loop has sent
`off` bytes already, or has more to send than fits one packet. -/
theorem fragmentLoop_isFragment (room : 8 ≤ (maxPayload iface.mtu).toNat) {fuel round : Nat}
    {off : UInt16} {rest : List UInt8} (fits : off.toNat + rest.length ≤ bufferSize)
    (several : off ≠ 0 ∨ (maxPayload iface.mtu).toNat < rest.length) :
    ∀ packet ∈ (fragmentLoop iface d id answers fuel round off rest).1,
      ∃ hdr data, packet = IpHeader.bytes hdr ++ data ∧ hdr.IsFragment := by
  induction fuel generalizing round off rest with
  | zero =>
    intro packet sent
    cases sent
  | succ fuel ih =>
    have limit : bufferSize = 1518 := rfl
    intro packet sent
    rw [fragmentLoop] at sent
    split at sent
    · cases sent
    rename_i notDone
    have positive : 0 < rest.length := length_pos_iff.mpr notDone
    split at sent
    · have advanced : (off + UInt16.ofNat (min rest.length (maxPayload iface.mtu).toNat)).toNat =
          off.toNat + min rest.length (maxPayload iface.mtu).toNat := by
        rw [UInt16.toNat_add, UInt16.toNat_ofNat']
        omega
      have later := @ih (round + 1)
        (off + UInt16.ofNat (min rest.length (maxPayload iface.mtu).toNat))
        (rest.drop (min rest.length (maxPayload iface.mtu).toNat))
        (by rw [length_drop]; omega)
        (.inl fun zero => by rw [zero] at advanced; simp at advanced; omega) packet
      split at sent
      · obtain rfl | sent := mem_cons.mp sent
        · refine ⟨_, _, rfl, ?_⟩
          obtain notFirst | more := several
          · exact fragmentHeader_isFragment_of_offset _ _ _ _ _ (by omega) notFirst
          · have cut : min rest.length (maxPayload iface.mtu).toNat < rest.length := by omega
            rw [decide_eq_true cut]
            exact fragmentHeader_isFragment_of_more ..
        · exact later sent
      · exact later sent
    · cases sent

/-- Every allocation succeeds and every next hop is found. -/
def Answers.Granted (answers : Answers) : Prop :=
  ∀ round, answers.block round ∧ ∀ hop, answers.resolved round hop

/-- The packet of a datagram that is sent whole. -/
abbrev wholePacket (iface : NetInterface) (d : Datagram) (id : UInt16) : List UInt8 :=
  (fragmentHeader iface d id 0 d.payload.length false).bytes ++ d.payload

/-- **A payload that fits is sent in one packet.** -/
theorem fragmentLoop_single (granted : answers.Granted) (notEmpty : d.payload ≠ [])
    (fits : d.payload.length ≤ (maxPayload iface.mtu).toNat) :
    (fragmentLoop iface d id answers d.payload.length 0 0 d.payload).1 =
      [wholePacket iface d id] := by
  have positive : 0 < d.payload.length := length_pos_iff.mpr notEmpty
  have nothingLeft : ∀ fuel round off,
      (fragmentLoop iface d id answers fuel round off []).1 = [] := by
    intro fuel round off
    cases fuel <;> rfl
  have single : ∀ fuel, (fragmentLoop iface d id answers (fuel + 1) 0 0 d.payload).1 =
      [wholePacket iface d id] := by
    intro fuel
    rw [fragmentLoop, if_neg notEmpty, if_pos (granted 0).1]
    simp [min_eq_left fits, (granted 0).2, nothingLeft]
  have started := single (d.payload.length - 1)
  rwa [Nat.sub_add_cancel positive] at started

/-! ## One packet arrives -/

/-- The call gets a buffer that holds the packet and comes from the interface. -/
structure Arrives (receiver : NetInterface) (packet : List UInt8) (call : Call) : Prop where
  held : packet <+: call.buf.memory
  counted : packet.length ≤ call.buf.len.toNat
  from_ : call.buf.iface = some receiver

theorem Arrives.header {call : Call} (arrives : Arrives receiver (hdr.bytes ++ data) call) :
    readHeader call.buf.memory = hdr := by
  obtain ⟨behind, memory⟩ := arrives.held
  rw [← memory, append_assoc, readHeader_bytes]

/-- **A fragment that arrives delivers nothing.** -/
theorem ipReceive_of_fragment (none_ : NoBuffer table) {call : Call} (fragment : hdr.IsFragment)
    (arrives : Arrives receiver (hdr.bytes ++ data) call) :
    (ipReceive host table call).2 = none := by
  rw [ipReceive, arrives.header]
  split
  · exact (receiveFragment_delivers_nothing host none_ ..).1
  · rfl

/-- The host has somebody to hand the protocol to. -/
def HasHandler (proto : UInt8) : Prop :=
  host.rawConsumer proto ∨ proto ∈ [1, 6, 17, 136, 2]
deriving Decidable

theorem ipDispatchPayload_bytes {proto : UInt8} {bytes : List UInt8} :
    (ipDispatchPayload host proto bytes).map (·.bytes) =
      if HasHandler host proto then some bytes else none := by
  by_cases raw : host.rawConsumer proto
  · simp [ipDispatchPayload, HasHandler, raw]
  · by_cases known : proto ∈ [1, 6, 17, 136, 2]
    · rw [if_pos (show HasHandler host proto from .inr known)]
      simp only [mem_cons, not_mem_nil, or_false] at known
      obtain rfl | rfl | rfl | rfl | rfl := known <;> simp [ipDispatchPayload, raw]
    · have unknown : ¬HasHandler host proto := not_or.mpr ⟨raw, known⟩
      simp only [mem_cons, not_mem_nil, or_false, not_or] at known
      simp [ipDispatchPayload, raw, known, unknown]

/-- The packet is not expired and its destination is the receiver, where somebody takes
its protocol. -/
def Welcome (receiver : NetInterface) (d : Datagram) : Prop :=
  1 < d.ttl ∧ (d.dst = receiver.ip ∨ d.dst = 0xFFFFFFFF) ∧ HasHandler host d.proto
deriving Decidable

section

variable {call : Call} (fits : d.payload.length ≤ bufferSize)
  (arrives : Arrives receiver (wholePacket iface d id) call)
include fits arrives

theorem payloadLength_single :
    (payloadLength call.buf (fragmentHeader iface d id 0 d.payload.length false)).toNat =
      d.payload.length := by
  have counted := arrives.counted
  rw [length_append, length_bytes, headerSize] at counted
  have bound := call.buf.len.toNat_lt
  have ihl : (20 : UInt8).toUInt32 = 20 := by decide
  have length : ((fragmentHeader iface d id 0 d.payload.length false).totalLength.toUInt32 -
      20).toNat = d.payload.length := by
    rw [UInt32.toNat_sub, UInt16.toNat_toUInt32, fragmentHeader_totalLength _ _ _ _ _ fits]
    show (2 ^ 32 - 20 + (20 + d.payload.length)) % 2 ^ 32 = _
    omega
  have space : (call.buf.len - 20).toNat = call.buf.len.toNat - 20 := by
    show (2 ^ 32 - 20 + call.buf.len.toNat) % 2 ^ 32 = _
    omega
  rw [payloadLength, fragmentHeader_ihl, ihl, if_neg, length]
  rw [lt_iff_toNat_lt]
  omega

/-- **A single packet that arrives** is handed over if it is welcome. -/
theorem ipReceive_of_single (accepted : ∀ hook, host.drops hook call.buf = false) :
    (ipReceive host table call).2.map (·.bytes) =
      if Welcome host receiver d then some d.payload else none := by
  have length := payloadLength_single fits arrives
  unfold wholePacket at arrives
  obtain ⟨behind, memory⟩ := arrives.held
  generalize made : fragmentHeader iface d id 0 d.payload.length false = hdr at *
  have whole : (call.buf.memory.drop 20).take d.payload.length = d.payload := by
    rw [← memory, append_assoc, drop_left' (show hdr.bytes.length = 20 from length_bytes),
      take_left]
  have ihl : hdr.ihl = 20 := by rw [← made]; exact fragmentHeader_ihl ..
  have single : ¬hdr.IsFragment := by
    rw [← made]
    exact fragmentHeader_not_isFragment iface d id _
  have total : hdr.totalLength.toNat = 20 + d.payload.length := by
    rw [← made]
    exact fragmentHeader_totalLength _ _ _ _ _ fits
  have admitted : Admitted host call.buf hdr ↔
      1 < d.ttl ∧ (d.dst = receiver.ip ∨ d.dst = 0xFFFFFFFF) := by
    have version : (hdr.versionIhl >>> 4) &&& 0x0F = 4 := by
      rw [← made]
      show ((0x45 : UInt8) >>> 4) &&& 0x0F = 4
      decide
    have intact : hdr.Intact := by rw [← made]; rfl
    have ttl : hdr.ttl = d.ttl := by rw [← made]; rfl
    have dst : hdr.dstIp = d.dst := by rw [← made]; rfl
    simp only [Admitted, version, intact, accepted, ihl, total, forUs, arrives.from_, ttl, dst,
      Option.mem_def, Option.some.injEq, exists_eq_left', true_and]
    constructor
    · rintro ⟨address, alive, -⟩
      exact ⟨alive, address⟩
    · rintro ⟨alive, address⟩
      exact ⟨address, alive, by decide, by simp⟩
  have proto : hdr.protocol = d.proto := by rw [← made]; rfl
  rw [ipReceive, arrives.header, if_neg single, ihl, length, proto]
  show Option.map _ (if Admitted host call.buf hdr then (table, ipDispatchPayload host d.proto
    ((call.buf.memory.drop 20).take d.payload.length)) else (table, none)).2 = _
  rw [whole]
  by_cases in_ : Admitted host call.buf hdr
  · rw [if_pos in_]
    rw [ipDispatchPayload_bytes]
    simp only [Welcome, ← and_assoc, ← admitted, in_, true_and]
  · simp only [Welcome, ← and_assoc, ← admitted, in_, false_and, if_false]
    rfl

end

variable {host} {order : List (List UInt8)} {packet : List UInt8}

/-! ## Traffic -/

/-- A packet comes in: one of the datagram, or another one. -/
inductive Event where
  | ours (call : Call)
  | other (call : Call)

def Event.call : Event → Call
  | .ours call => call
  | .other call => call

def Event.ours? : Event → Option Call
  | .ours call => some call
  | .other _ => none

/-- What the upper layer is handed when packets of the datagram come in. -/
def deliveries (host : Host) : ReasmTable → List Event → List (List UInt8)
  | _, [] => []
  | table, event :: events =>
    let received := ipReceive host table event.call
    (match event with
      | .ours _ => (received.2.map (·.bytes)).toList
      | .other _ => []) ++ deliveries host received.1 events

/-- The packets arrive in this order, and whatever else comes in between has another
identification. -/
def Traffic (receiver : NetInterface) (id : UInt16) (order : List (List UInt8))
    (events : List Event) : Prop :=
  List.Forall₂ (Arrives receiver) order (events.filterMap Event.ours?) ∧
    ∀ call, Event.other call ∈ events → (readHeader call.buf.memory).identification ≠ id

/-- A table that `ip_receive` can leave behind. -/
def Reachable (host : Host) (table : ReasmTable) : Prop :=
  ∃ calls : List Call,
    table = calls.foldl (fun table call => (ipReceive host table call).1) fun _ => zeroEntry

theorem Reachable.noBuffer (reachable : Reachable host table) : NoBuffer table := by
  obtain ⟨calls, rfl⟩ := reachable
  exact foldl_invariant (P := NoBuffer) (fun _ call none_ => ipReceive_noBuffer host none_ call)
    (fun _ => rfl) calls

/-- Where every packet of the datagram is answered in the same way whatever is in the
table, the deliveries are the answers. -/
theorem deliveries_eq (answer : Call → Option (List UInt8)) {events : List Event}
    (none_ : NoBuffer table)
    (answers : ∀ call ∈ events.filterMap Event.ours?, ∀ table, NoBuffer table →
      (ipReceive host table call).2.map (·.bytes) = answer call) :
    deliveries host table events =
      (events.filterMap Event.ours?).flatMap fun call => (answer call).toList := by
  induction events generalizing table with
  | nil => rfl
  | cons event events ih =>
    have next := ipReceive_noBuffer host none_ event.call
    cases event with
    | other call => exact ih next answers
    | ours call =>
      have later := ih next (forall_mem_cons.mp answers).2
      have here := answers call mem_cons_self table none_
      show (Option.map _ (ipReceive host table call).2).toList ++ deliveries host _ events = _
      rw [here, later]
      rfl

theorem Traffic.of_packets {events : List Event} (traffic : Traffic receiver id order events)
    {call : Call} (member : call ∈ events.filterMap Event.ours?) :
    ∃ packet ∈ order, Arrives receiver packet call := by
  obtain ⟨i, bound, isCall⟩ := getElem_of_mem member
  have length := traffic.1.length_eq
  refine ⟨order[i], getElem_mem (by omega), ?_⟩
  rw [← isCall]
  exact traffic.1.get (by omega) bound

def callOf (receiver : NetInterface) (packet : List UInt8) : Call where
  buf :=
    { data := (packet ++ replicate bufferSize 0).take bufferSize
      size := by simp
      len := ofNat packet.length
      offset := 0
      iface := some receiver }
  ticks := 0
  memory := ⟨true, true, true, true⟩

theorem callOf_arrives (room : packet.length ≤ bufferSize) :
    Arrives receiver packet (callOf receiver packet) := by
  have limit : bufferSize = 1518 := rfl
  refine ⟨?_, ?_, rfl⟩
  · show packet <+: ((packet ++ replicate bufferSize 0).take bufferSize).drop 0
    rw [take_append, take_of_length_le room]
    exact prefix_append _ _
  · show packet.length ≤ (ofNat packet.length).toNat
    rw [toNat_ofNat']
    omega

theorem callOf_traffic (receiver : NetInterface) (id : UInt16) {packets : List (List UInt8)}
    (room : ∀ packet ∈ packets, packet.length ≤ bufferSize) :
    Traffic receiver id packets (packets.map fun packet => .ours (callOf receiver packet)) := by
  constructor
  · have calls : (packets.map fun packet => Event.ours (callOf receiver packet)).filterMap
        Event.ours? = packets.map (callOf receiver) := by
      rw [filterMap_map]
      exact congrFun filterMap_eq_map packets
    rw [calls, forall₂_map_right_iff, forall₂_same]
    exact fun packet member => callOf_arrives (room packet member)
  · intro call member
    simp at member

/-! ## Datagrams -/

section Datagrams

variable {host : Host} {iface receiver : NetInterface} {d : Datagram} {nextIpId : UInt16}
  {answers : Answers} {events : List Event}

/-- **The fragments of a datagram deliver nothing**, all together or some of them. -/
theorem deliveries_of_several (large : 28 ≤ iface.mtu) (fits : d.payload.length ≤ bufferSize)
    (several : (maxPayload iface.mtu).toNat < d.payload.length) (reachable : Reachable host table)
    (sent : order ⊆ (ipFragmentSend nextIpId iface d answers).1)
    (traffic : Traffic receiver (datagramId nextIpId d) order events) :
    deliveries host table events = [] := by
  have nothing : ∀ call ∈ events.filterMap Event.ours?, ∀ table, NoBuffer table →
      (ipReceive host table call).2.map (·.bytes) = none := by
    intro call member table none_
    obtain ⟨packet, isPacket, arrives⟩ := traffic.of_packets member
    have isSent := sent isPacket
    rw [ipFragmentSend_eq large] at isSent
    obtain ⟨hdr, data, rfl, fragment⟩ := fragmentLoop_isFragment (le_maxPayload large)
      (show (0 : UInt16).toNat + d.payload.length ≤ bufferSize by simpa using fits)
      (.inr several) packet isSent
    rw [ipReceive_of_fragment host none_ fragment arrives]
    rfl
  rw [deliveries_eq (fun _ => none) reachable.noBuffer nothing]
  simp

theorem Traffic.single (traffic : Traffic receiver id [packet] events) :
    ∃ call, events.filterMap Event.ours? = [call] ∧ Arrives receiver packet call := by
  obtain ⟨call, rest, arrives, others, isCalls⟩ := forall₂_cons_left_iff.mp traffic.1
  rw [forall₂_nil_left_iff.mp others] at isCalls
  exact ⟨call, isCalls, arrives⟩

/-- **A datagram in one packet is delivered once**, if it is welcome. -/
theorem deliveries_of_single (fits : d.payload.length ≤ bufferSize)
    (accepting : ∀ hook buf, (readHeader (NetBuffer.memory buf)).identification =
      datagramId nextIpId d → host.drops hook buf = false) (reachable : Reachable host table)
    (traffic : Traffic receiver (datagramId nextIpId d)
      [wholePacket iface d (datagramId nextIpId d)] events) :
    deliveries host table events = if Welcome host receiver d then [d.payload] else [] := by
  obtain ⟨call, isCalls, arrives⟩ := traffic.single
  have accepted (hook : Hook) : host.drops hook call.buf = false := by
    apply accepting
    rw [arrives.header]
    rfl
  have answered : ∀ call ∈ events.filterMap Event.ours?, ∀ table, NoBuffer table →
      (ipReceive host table call).2.map (·.bytes) =
        if Welcome host receiver d then some d.payload else none := by
    intro other member table none_
    rw [isCalls, mem_singleton] at member
    subst member
    exact ipReceive_of_single host fits arrives accepted
  rw [deliveries_eq (fun _ => if Welcome host receiver d then some d.payload else none)
    reachable.noBuffer answered, isCalls]
  split <;> rfl

theorem empty_reachable : Reachable host fun _ => zeroEntry := ⟨[], rfl⟩

/-- **A payload makes the round trip exactly if it is sent in one packet that the receiver
takes.** The packets that are sent fit a buffer, so that they can arrive, and netfilter
accepts the packets of the datagram. -/
theorem round_trip_iff (large : 28 ≤ iface.mtu) (fits : d.payload.length ≤ bufferSize)
    (granted : answers.Granted)
    (room : ∀ packet ∈ (ipFragmentSend nextIpId iface d answers).1, packet.length ≤ bufferSize)
    (accepting : ∀ hook buf, (readHeader (NetBuffer.memory buf)).identification =
      datagramId nextIpId d → host.drops hook buf = false) :
    ((∀ table order events, Reachable host table →
          order.Perm (ipFragmentSend nextIpId iface d answers).1 →
          Traffic receiver (datagramId nextIpId d) order events →
          deliveries host table events = [d.payload]) ∧
      ∀ table order events, Reachable host table →
        order.Subperm (ipFragmentSend nextIpId iface d answers).1 →
        order.length < (ipFragmentSend nextIpId iface d answers).1.length →
        Traffic receiver (datagramId nextIpId d) order events →
        deliveries host table events = []) ↔
      d.payload ≠ [] ∧ d.payload.length ≤ (maxPayload iface.mtu).toNat ∧
        Welcome host receiver d := by
  have inOrder := callOf_traffic receiver (datagramId nextIpId d) room
  constructor
  · rintro ⟨arrives, -⟩
    have here := arrives _ _ _ empty_reachable (List.Perm.refl _) inOrder
    by_cases several : (maxPayload iface.mtu).toNat < d.payload.length
    · rw [deliveries_of_several large fits several empty_reachable (List.Subset.refl _)
        inOrder] at here
      cases here
    by_cases empty : d.payload = []
    · rw [ipFragmentSend_eq large, empty] at here
      cases here
    rw [ipFragmentSend_eq large, fragmentLoop_single granted empty (not_lt.mp several)]
      at here inOrder
    rw [deliveries_of_single fits accepting empty_reachable inOrder] at here
    split at here
    · rename_i welcome
      exact ⟨empty, not_lt.mp several, welcome⟩
    · cases here
  · rintro ⟨notEmpty, one, welcome⟩
    rw [ipFragmentSend_eq large, fragmentLoop_single granted notEmpty one]
    constructor
    · intro table order events reachable perm traffic
      rw [perm_singleton.mp perm] at traffic
      rw [deliveries_of_single fits accepting reachable traffic, if_pos welcome]
    · intro table order events reachable _ missing traffic
      rw [length_singleton, lt_one_iff, length_eq_zero_iff] at missing
      subst missing
      have noCalls := forall₂_nil_left_iff.mp traffic.1
      rw [deliveries_eq (fun _ => none) reachable.noBuffer (by rw [noCalls]; simp), noCalls]
      rfl

end Datagrams

/-- A host without netfilter hooks and raw sockets. -/
def plainHost : Host := ⟨fun _ _ => false, fun _ => false⟩

def granting : Answers := ⟨fun _ => true, fun _ _ => true⟩

def lan (ip mtu : UInt32) : NetInterface := ⟨ip, 0xFFFFFF00, 0x0A000001, mtu⟩

def udpDatagram (payload : List UInt8) : Datagram := ⟨0x0A000002, 17, payload, 64, 0, 7⟩

/-- A short payload makes the round trip, also while other packets come in. -/
theorem short_payload_arrives :
    let packets := (ipFragmentSend 0 (lan 0x0A000003 1500) (udpDatagram [1, 2, 3]) granting).1
    (∀ table order events, Reachable plainHost table → order.Perm packets →
        Traffic (lan 0x0A000002 1500) 7 order events →
        deliveries plainHost table events = [[1, 2, 3]]) ∧
      ∀ table order events, Reachable plainHost table → order.Subperm packets →
        order.length < packets.length → Traffic (lan 0x0A000002 1500) 7 order events →
        deliveries plainHost table events = [] :=
  (@round_trip_iff plainHost (lan 0x0A000003 1500) (lan 0x0A000002 1500) (udpDatagram [1, 2, 3]) 0
    granting (by decide) (by decide)
    (fun _ => ⟨rfl, fun _ => rfl⟩) (by decide +kernel) (fun _ _ _ => rfl)).mpr (by decide +kernel)

/-- Nine bytes on an interface with an MTU of 28 go out in two packets. Both arrive, in
order, and nothing is delivered. -/
theorem nine_bytes_are_lost :
    let packets := (ipFragmentSend 0 (lan 0x0A000003 28)
      (udpDatagram [1, 2, 3, 4, 5, 6, 7, 8, 9]) granting).1
    packets.length = 2 ∧
      deliveries plainHost (fun _ => zeroEntry)
        (packets.map fun packet => .ours (callOf (lan 0x0A000002 1500) packet)) = [] := by
  decide +kernel

end FunsOS.Ip
