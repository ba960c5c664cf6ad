import FunsOS.NetNat.Unique

/-!
# The return path

A translated packet leaves with the external endpoint of its mapping as its source, so
the reply to it is addressed to that endpoint. `nat_inbound` looks for the endpoint
among the destination mappings only, and no call turns the source mapping of
`nat_outbound` into one. It then stores the transport checksum two bytes into the
transport header, which is the destination port it has just set.

So a reply comes back to the host and port the packet came from exactly if there was a
destination mapping of that endpoint to the host already, and the bytes of the reply are
such that its checksum is the port (`reply_returns_iff`).
-/

set_option autoImplicit false

namespace FunsOS.NetNat

open Foundation Function

/-! ## What a translation writes -/

def srcPort (packet : List UInt8) : UInt16 := srcPortAt packet (headerLength packet)

def dstPort (packet : List UInt8) : UInt16 := dstPortAt packet (headerLength packet)

def HasPorts (packet : List UInt8) : Prop :=
  20 ≤ headerLength packet ∧ headerLength packet + 4 ≤ packet.length

variable {packet : List UInt8} {ihl i : Nat}

/-- The header checksum is in bytes 10 and 11. -/
theorem getD_renewIpChecksum (apart : i < 10 ∨ 12 ≤ i) :
    (renewIpChecksum packet ihl).getD i 0 = packet.getD i 0 := by
  simp only [renewIpChecksum]
  rw [getD_setField_apart (by omega), getD_setField_apart (by omega)]

/-- The bytes of a packet whose destination is replaced, before the transport checksum. -/
def redirected (packet : List UInt8) (ihl : Nat) (ip : UInt32) (port : UInt16) : List UInt8 :=
  renewIpChecksum (setField (setField packet 16 4 ip.toNat) (ihl + 2) 2 port.toNat) ihl

variable {ip : UInt32} {port : UInt16} {protocol : UInt8}

theorem length_redirected : (redirected packet ihl ip port).length = packet.length := by
  simp [redirected, renewIpChecksum]

theorem getD_redirected (header : i < 10 ∨ 12 ≤ i) (address : i < 16 ∨ 20 ≤ i)
    (transport : i < ihl + 2 ∨ ihl + 4 ≤ i) :
    (redirected packet ihl ip port).getD i 0 = packet.getD i 0 := by
  rw [redirected, getD_renewIpChecksum header, getD_setField_apart (by omega),
    getD_setField_apart (by omega)]

theorem ofNat_address (ip : UInt32) : UInt32.ofNat (ip.toNat % 256 ^ 4) = ip := by
  have small : ip.toNat % 256 ^ 4 = ip.toNat := Nat.mod_eq_of_lt ip.toNat_lt
  rw [small, UInt32.ofNat_toNat]

theorem ofNat_port (port : UInt16) : UInt16.ofNat (port.toNat % 256 ^ 2) = port := by
  have small : port.toNat % 256 ^ 2 = port.toNat := Nat.mod_eq_of_lt port.toNat_lt
  rw [small, UInt16.ofNat_toNat]

theorem dstAddr_redirected (header : 20 ≤ ihl) (fits : 20 ≤ packet.length) :
    dstAddr (redirected packet ihl ip port) = ip := by
  have kept : getField (redirected packet ihl ip port) 16 4 =
      getField (setField packet 16 4 ip.toNat) 16 4 := by
    refine getField_congr fun i low high => ?_
    rw [redirected, getD_renewIpChecksum (by omega), getD_setField_apart (by omega)]
  rw [dstAddr, kept, getField_setField (by omega), ofNat_address]

theorem srcAddr_redirected (header : 20 ≤ ihl) :
    srcAddr (redirected packet ihl ip port) = srcAddr packet := by
  rw [srcAddr, srcAddr, getField_congr fun i low high => ?_]
  exact getD_redirected (by omega) (by omega) (by omega)

/-- The words that the checksum of a packet to the given address adds up: the addresses, the
protocol and the length, and the transport bytes, without the destination port. -/
def transportSum (packet : List UInt8) (ip : UInt32) (protocol : UInt8) : Nat :=
  (srcAddr packet).toNat / 65536 + (srcAddr packet).toNat % 65536 + ip.toNat / 65536 +
    ip.toNat % 65536 +
    (protocol.toNat * 256 + (packet.length - headerLength packet) % 65536 % 256) +
    sumWords (((setField packet (headerLength packet + 2) 2 0).drop (headerLength packet)).take
      ((packet.length - headerLength packet) % 65536))

/-- The checksum leaves the bytes alone that are not in the place of the port. -/
theorem getD_renewTransportChecksum (apart : i < ihl + 2 ∨ ihl + 4 ≤ i) :
    (renewTransportChecksum packet ihl protocol).getD i 0 = packet.getD i 0 := by
  simp only [renewTransportChecksum]
  split
  · rw [getD_setField_apart (by omega), getD_setField_apart (by omega)]
  · rfl

theorem headerLength_congr {other : List UInt8} (same : packet.getD 0 0 = other.getD 0 0) :
    headerLength packet = headerLength other := by
  rw [headerLength, headerLength, same]

section

variable (header : 20 ≤ headerLength packet) (fits : headerLength packet + 4 ≤ packet.length)
include header fits

/-- The source of a translated packet is the endpoint that was set. -/
theorem translateSource_spec (ip : UInt32) (port : UInt16) (protocol : UInt8) :
    let sent := translateSource packet (headerLength packet) ip port protocol
    srcAddr sent = ip ∧ srcPort sent = port := by
  have kept : ∀ i, (i < 10 ∨ 12 ≤ i) → i < headerLength packet + 2 →
      (translateSource packet (headerLength packet) ip port protocol).getD i 0 =
        (setField (setField packet 12 4 ip.toNat) (headerLength packet) 2 port.toNat).getD i 0 := by
    intro i outside below
    rw [translateSource, getD_renewTransportChecksum (.inl below), getD_renewIpChecksum outside]
  have length : headerLength (translateSource packet (headerLength packet) ip port protocol) =
      headerLength packet := by
    refine headerLength_congr ((kept 0 (by omega) (by omega)).trans ?_)
    rw [getD_setField_apart (by omega), getD_setField_apart (by omega)]
  constructor
  · rw [srcAddr, getField_congr fun i low high => kept i (by omega) (by omega),
      getField_setField_apart (by omega), getField_setField (by omega), ofNat_address]
  · rw [srcPort, length, srcPortAt, getField_congr fun i low high => kept i (by omega) (by omega),
      getField_setField (by rw [length_setField]; omega), ofNat_port]

/-- The destination of a redirected packet: the address that was set, and the checksum in
place of the port. -/
theorem translateDestination_spec (transport : protocol = 6 ∨ protocol = 17) :
    let back := translateDestination packet (headerLength packet) ip port protocol
    dstAddr back = ip ∧
      dstPort back = ~~~UInt16.ofNat (foldCarry 2 (transportSum packet ip protocol)) := by
  have address := @dstAddr_redirected packet _ ip port header (by omega)
  have source := @srcAddr_redirected packet _ ip port header
  have same := fun i => @getD_redirected packet (headerLength packet) i ip port
  have size := @length_redirected packet (headerLength packet) ip port
  dsimp only [translateDestination]
  rw [← redirected]
  generalize redirected packet (headerLength packet) ip port = out at address source same size ⊢
  have length : headerLength (renewTransportChecksum out (headerLength packet) protocol) =
      headerLength packet :=
    headerLength_congr ((getD_renewTransportChecksum (by omega)).trans
      (same 0 (by omega) (by omega) (by omega)))
  constructor
  · rw [dstAddr, getField_congr fun i low high => getD_renewTransportChecksum (by omega)]
    exact address
  · have cleared : (setField out (headerLength packet + 2) 2 0).drop (headerLength packet) =
        (setField packet (headerLength packet + 2) 2 0).drop (headerLength packet) := by
      refine drop_eq_of_getD (by simp [size]) fun i low => ?_
      by_cases inside : headerLength packet + 2 ≤ i ∧ i < headerLength packet + 4
      · exact getD_setField_congr size inside.1 inside.2
      · rw [getD_setField_apart (by omega), getD_setField_apart (by omega),
          same i (by omega) (by omega) (by omega)]
    have kept : srcAddr (setField out (headerLength packet + 2) 2 0) = srcAddr packet ∧
        dstAddr (setField out (headerLength packet + 2) 2 0) = ip := by
      rw [srcAddr, dstAddr, getField_setField_apart (by omega), getField_setField_apart (by omega)]
      exact ⟨source, address⟩
    rw [dstPort, length]
    simp only [renewTransportChecksum, if_pos transport, cleared, kept, size]
    rw [dstPortAt, getField_setField (by rw [length_setField, size]; omega), ofNat_port]
    rfl

end

/-! ## Checksums -/

theorem sumWords_le (bytes : List UInt8) : 2 * sumWords bytes ≤ 65535 * (bytes.length + 1) := by
  fun_induction sumWords bytes with
  | case1 => simp
  | case2 a =>
    have byte := a.toNat_lt
    simp
    omega
  | case3 a b rest ih =>
    have byte := a.toNat_lt
    have byte' := b.toNat_lt
    simp only [List.length_cons]
    omega

theorem transportSum_bounds (transport : protocol = 6 ∨ protocol = 17) :
    0 < transportSum packet ip protocol ∧ transportSum packet ip protocol < 2 ^ 32 := by
  have words := sumWords_le (((setField packet (headerLength packet + 2) 2 0).drop
    (headerLength packet)).take ((packet.length - headerLength packet) % 65536))
  have few := Nat.mod_lt (packet.length - headerLength packet) (by decide : 0 < 65536)
  have source := (srcAddr packet).toNat_lt
  have destination := ip.toNat_lt
  rw [List.length_take] at words
  rw [transportSum]
  obtain rfl | rfl := transport
  all_goals
    simp only [UInt8.reduceToNat]
    omega

theorem foldCarry_spec {sum : Nat} (positive : 0 < sum) (small : sum < 2 ^ 32) :
    0 < foldCarry 2 sum ∧ foldCarry 2 sum ≤ 65535 ∧ ∃ k, sum = foldCarry 2 sum + 65535 * k := by
  simp only [foldCarry]
  split_ifs
  · exact ⟨positive, by omega, 0, by omega⟩
  · exact ⟨by omega, by omega, sum / 65536, by omega⟩
  · exact ⟨by omega, by omega, sum / 65536 + (sum % 65536 + sum / 65536) / 65536, by omega⟩

/-- A port is the complement of a folded sum exactly if it makes a multiple of 65535 with
the sum and is not 65535 itself. -/
theorem complement_fold_iff {sum : Nat} (positive : 0 < sum) (small : sum < 2 ^ 32) :
    ~~~UInt16.ofNat (foldCarry 2 sum) = port ↔ port ≠ 65535 ∧ (sum + port.toNat) % 65535 = 0 := by
  have range := port.toNat_lt
  have value : (~~~UInt16.ofNat (foldCarry 2 sum)).toNat = 65535 - foldCarry 2 sum % 65536 := by
    simp
  obtain ⟨low, high, k, isSum⟩ := foldCarry_spec positive small
  have last : (65535 : UInt16).toNat = 65535 := rfl
  rw [← UInt16.toNat_inj, value, Ne, ← UInt16.toNat_inj, last]
  omega

/-! ## Mappings -/

/-- The host that an entry gives to packets for the endpoint. -/
def NatEntry.leadsTo (e : Endpoint) (entry : NatEntry) : Option UInt32 :=
  if MatchesDnat entry e.ip e.port e.protocol then some entry.internalIp else none

/-- The host of the first destination mapping of the endpoint. -/
def mappedHost (s : NatState) (e : Endpoint) : Option UInt32 :=
  (List.finRange natTableMax).findSome? fun i => (s.table i).leadsTo e

/-- The endpoint a packet gets as its source: that of the first source mapping of its own
source, or the next one. -/
def externalEndpoint (s : NatState) (packet : List UInt8) (protocol : UInt8) : Endpoint :=
  match findEntry s fun entry => MatchesSnat entry (srcAddr packet) (srcPort packet) protocol with
  | some i => ⟨(s.table i).externalIp, (s.table i).externalPort, protocol⟩
  | none => ⟨s.externalIp, s.nextEphemeralPort, protocol⟩

variable {s : NatState} {e : Endpoint} {entry : NatEntry} {slot : Slot}

theorem mappedHost_of_found {ip : UInt32} {port : UInt16} :
    mappedHost s ⟨ip, port, protocol⟩ =
      (findEntry s fun entry => MatchesDnat entry ip port protocol).map
        fun i => (s.table i).internalIp := by
  rw [mappedHost, findEntry]
  induction List.finRange natTableMax with
  | nil => rfl
  | cons i rest ih =>
    by_cases found : MatchesDnat (s.table i) ip port protocol
    · simp [NatEntry.leadsTo, found]
    · simpa [NatEntry.leadsTo, found] using ih

theorem mappedHost_update {next : NatState} (tables : next.table = update s.table slot entry)
    (same : entry.leadsTo e = (s.table slot).leadsTo e) : mappedHost next e = mappedHost s e := by
  have all : ∀ i, (next.table i).leadsTo e = (s.table i).leadsTo e := by
    intro i
    by_cases here : i = slot
    · subst here
      rw [tables, update_self, same]
    · rw [tables, update_of_ne here]
  simp only [mappedHost, all]

theorem touch_table (s : NatState) (i : Slot) :
    (touch s (some i)).table i = { s.table i with lastActive := (getCurrentTick s).1 } :=
  update_self i _ _

theorem mappedHost_touch (s : NatState) (found : Option Slot) :
    mappedHost (touch s found) e = mappedHost s e := by
  cases found with
  | none => rfl
  | some i => exact mappedHost_update rfl rfl

/-- A new source mapping in a free slot. -/
theorem natAddSnat_spec {ip external : UInt32} {port : UInt16}
    (free : findFreeSlot s = some slot) :
    ∃ added entry, natAddSnat s ip port external protocol = (added, 0) ∧
      added.table = update s.table slot entry ∧ entry.type = .snat ∧
      entry.externalIp = snatExternalIp s external ∧ entry.externalPort = s.nextEphemeralPort := by
  rw [natAddSnat, free]
  exact ⟨_, _, rfl, rfl, rfl, rfl, rfl⟩

/-- The mapping `nat_outbound` uses has the external endpoint of the packet, and no
destination mapping comes or goes. -/
theorem outboundMapping_spec {next : NatState}
    (mapped : outboundMapping s (srcAddr packet) (srcPort packet) protocol = (next, .ok slot)) :
    (⟨(next.table slot).externalIp, (next.table slot).externalPort, protocol⟩ : Endpoint) =
      externalEndpoint s packet protocol ∧ mappedHost next e = mappedHost s e := by
  rw [externalEndpoint]
  cases found : findEntry s fun entry => MatchesSnat entry (srcAddr packet) (srcPort packet)
      protocol with
  | some i =>
    simp only [outboundMapping, natLookupSnat, found, Prod.mk.injEq, Except.ok.injEq] at mapped
    obtain ⟨rfl, rfl⟩ := mapped
    rw [touch_table]
    exact ⟨rfl, mappedHost_touch s (some i)⟩
  | none =>
    cases free : findFreeSlot s with
    | none => simp [outboundMapping, natLookupSnat, found, touch_none, natAddSnat, free] at mapped
    | some new =>
      obtain ⟨added, entry, isAdded, tables, isSnat, isIp, isPort⟩ :=
        @natAddSnat_spec protocol s new (srcAddr packet) 0 (srcPort packet) free
      simp only [outboundMapping, natLookupSnat, found, touch_none, isAdded, ne_eq,
        not_true_eq_false, if_false] at mapped
      cases again : findEntry added fun entry => MatchesSnat entry (srcAddr packet) (srcPort packet)
          protocol with
      | none => simp [again] at mapped
      | some i =>
        rw [again] at mapped
        simp only [Prod.mk.injEq, Except.ok.injEq] at mapped
        obtain ⟨rfl, rfl⟩ := mapped
        -- No other entry was a mapping of the packet's source.
        have here : i = new := by
          by_contra other
          have passes := List.find?_some again
          have isMapping := of_decide_eq_true passes
          rw [tables, update_of_ne other] at isMapping
          exact findEntry_none found isMapping
        subst here
        rw [touch_table, tables, update_self, isIp, isPort]
        refine ⟨rfl, (mappedHost_touch added (some i)).trans (mappedHost_update tables ?_)⟩
        have unused : (s.table i).used = false := by simpa using List.find?_some free
        simp [NatEntry.leadsTo, MatchesDnat, isSnat, unused]

theorem outboundMapping_error {ip : UInt32} {port : UInt16} {next : NatState} {code : Int}
    (failed : outboundMapping s ip port protocol = (next, .error code)) : code ≠ 0 := by
  unfold outboundMapping at failed
  grind

/-! ## Replies -/

/-- The reply has the endpoints of the packet swapped. -/
structure IsReply (sent reply : List UInt8) : Prop where
  ports : HasPorts reply
  source : srcAddr reply = dstAddr sent ∧ srcPort reply = dstPort sent
  destination : dstAddr reply = srcAddr sent ∧ dstPort reply = srcPort sent

/-- `nat_inbound` accepts the reply and rewrites it to the given host and port. -/
def ReturnsTo (s : NatState) (reply : List UInt8) (protocol : UInt8) (ip : UInt32)
    (port : UInt16) : Prop :=
  (natInbound s reply protocol).ret = 0 ∧ dstAddr (natInbound s reply protocol).packet = ip ∧
    dstPort (natInbound s reply protocol).packet = port

/-- What `nat_inbound` does with a packet that has ports. -/
theorem returnsTo_iff {reply : List UInt8} (transport : protocol = 6 ∨ protocol = 17)
    (ports : HasPorts reply) :
    ReturnsTo s reply protocol ip port ↔
      mappedHost s ⟨dstAddr reply, dstPort reply, protocol⟩ = some ip ∧ port ≠ 65535 ∧
        (transportSum reply ip protocol + port.toNat) % 65535 = 0 := by
  obtain ⟨header, fits⟩ := ports
  obtain ⟨positive, small⟩ := @transportSum_bounds reply ip protocol transport
  have long : ¬reply.length < 24 := by omega
  have whole : ¬reply.length < headerLength reply + 4 := by omega
  rw [← complement_fold_iff positive small, mappedHost_of_found]
  simp only [ReturnsTo, natInbound, if_neg long, if_neg whole, natLookupDnat]
  rw [show dstPortAt reply (headerLength reply) = dstPort reply from rfl]
  cases found : findEntry s fun entry => MatchesDnat entry (dstAddr reply) (dstPort reply)
      protocol with
  | none => simp
  | some i =>
    obtain ⟨address, checksum⟩ := @translateDestination_spec reply (s.table i).internalIp
      (s.table i).internalPort protocol header fits transport
    simp only [touch_table, address, checksum, true_and, Option.map_some, Option.some.injEq]
    refine and_congr_right ?_
    rintro rfl
    exact Iff.rfl

/-- What `nat_outbound` leaves: a packet from the external endpoint, and the destination
mappings there were. -/
theorem natOutbound_spec (ports : HasPorts packet)
    (translated : (natOutbound s packet protocol).ret = 0) :
    (⟨srcAddr (natOutbound s packet protocol).packet, srcPort (natOutbound s packet protocol).packet,
        protocol⟩ : Endpoint) = externalEndpoint s packet protocol ∧
      mappedHost (natOutbound s packet protocol).state e = mappedHost s e := by
  obtain ⟨header, fits⟩ := ports
  have long : ¬packet.length < 24 := by omega
  have whole : ¬packet.length < headerLength packet + 4 := by omega
  simp only [natOutbound, if_neg long, if_neg whole] at translated ⊢
  rw [← srcPort] at translated ⊢
  cases result : outboundMapping s (srcAddr packet) (srcPort packet) protocol with
  | mk next mapping =>
    rw [result] at translated
    cases mapping with
    | error code => exact absurd translated (outboundMapping_error result)
    | ok i =>
      obtain ⟨endpoint, hosts⟩ := @outboundMapping_spec _ _ _ e _ _ result
      obtain ⟨source, port⟩ := translateSource_spec header fits (next.table i).externalIp
        (next.table i).externalPort protocol
      refine ⟨?_, hosts ▸ mappedHost_update rfl rfl⟩
      rw [← endpoint, source, port]

/-- **The return path.** For every packet of TCP or UDP that `nat_outbound` translates, a
reply with the endpoints of the translated packet swapped is accepted and rewritten to the
address and port the packet came from if and only if the first destination mapping there
was of the packet's external endpoint leads to the address, and the words of the reply add
up with the port to a multiple of 65535, where the port is not 65535. -/
theorem reply_returns_iff {s : NatState} {packet reply : List UInt8} {protocol : UInt8}
    (transport : protocol = 6 ∨ protocol = 17) (ports : HasPorts packet)
    (translated : (natOutbound s packet protocol).ret = 0)
    (isReply : IsReply (natOutbound s packet protocol).packet reply) :
    ReturnsTo (natOutbound s packet protocol).state reply protocol (srcAddr packet)
        (srcPort packet) ↔
      mappedHost s (externalEndpoint s packet protocol) = some (srcAddr packet) ∧
        srcPort packet ≠ 65535 ∧
        (transportSum reply (srcAddr packet) protocol + (srcPort packet).toNat) % 65535 = 0 := by
  obtain ⟨endpoint, hosts⟩ :=
    @natOutbound_spec _ _ _ (externalEndpoint s packet protocol) ports translated
  rw [returnsTo_iff transport isReply.ports, isReply.destination.1, isReply.destination.2, endpoint,
    hosts]

/-! ## A query and its reply -/

/-- A reply to the query, from 8.8.8.8 and the port the translated query is addressed to,
to the gateway's port 49152, with two bytes of data that are given. -/
def answer (first second : UInt8) : List UInt8 :=
  [0x45, 0, 0, 32, 0, 9, 0, 0, 60, 17, 0, 0, 8, 8, 8, 8, 4, 3, 2, 1,
    11, 214, 0, 0xC0, 0, 12, 0, 0, first, second, 0, 0]

/-- **A reply is not accepted.** The query is the first packet after `nat_init`; it is
translated, and the reply to it is refused. -/
theorem reply_is_refused :
    HasPorts query ∧ (natOutbound (started blank 0x01020304) query 17).ret = 0 ∧
      IsReply (natOutbound (started blank 0x01020304) query 17).packet (answer 0 0) ∧
      (natInbound (natOutbound (started blank 0x01020304) query 17).state (answer 0 0) 17).ret =
        -2 ∧
      ¬ ReturnsTo (natOutbound (started blank 0x01020304) query 17).state (answer 0 0) 17
        (srcAddr query) (srcPort query) := by
  have refused : (natInbound (natOutbound (started blank 0x01020304) query 17).state (answer 0 0)
      17).ret = -2 := by decide +kernel
  refine ⟨⟨by decide, by decide⟩, by decide +kernel,
    ⟨⟨by decide, by decide⟩, by decide +kernel, by decide +kernel⟩, refused, fun returns => ?_⟩
  have accepted := returns.1
  exact absurd accepted (by decide)

/-- With a destination mapping to the host, a reply whose checksum is the host's port
comes back. -/
theorem reply_returns_with_mapping :
    ReturnsTo (natOutbound (step (started blank 0x01020304)
        (.addDnat 0x01020304 49152 0x0500000A 40975 17)) query 17).state (answer 0x2D 0xE8) 17
      (srcAddr query) (srcPort query) := by
  have isReply : IsReply (natOutbound (step (started blank 0x01020304)
      (.addDnat 0x01020304 49152 0x0500000A 40975 17)) query 17).packet (answer 0x2D 0xE8) :=
    ⟨⟨by decide, by decide⟩, by decide +kernel, by decide +kernel⟩
  refine (reply_returns_iff (.inr rfl) ⟨by decide, by decide⟩ ?_ isReply).mpr ⟨?_, ?_, ?_⟩
  all_goals decide +kernel

end FunsOS.NetNat
