import FunsOS.Foundation.Fields

/-!
# Network address translation

A model of `net/nat.c`: the table of mappings, the calls that add and look up
mappings, the translation of outbound and inbound packets, and the clean-up of
mappings that timed out.

A packet is its bytes; addresses and ports are read and written in the machine's
byte order, as the source does through its packed structures. The transport checksum
goes where the source stores it, two bytes into the transport header. The tick is a
counter that every call of `get_current_tick` advances; `nat_init` does not reset it.
The fields `dest_ip` and `dest_port`, which nothing reads, do not occur.
-/

set_option autoImplicit false

namespace FunsOS.NetNat

open Foundation

def natTableMax : Nat := 256
def natPortStart : UInt16 := 49152
def natPortEnd : UInt16 := 65535

inductive NatType where
  | snat
  | dnat
  | full
  deriving DecidableEq, Repr

inductive NatEntryState where
  | new
  | established
  | closing
  | timeout
  deriving DecidableEq, Repr

structure NatEntry where
  internalIp : UInt32
  internalPort : UInt16
  externalIp : UInt32
  externalPort : UInt16
  type : NatType
  state : NatEntryState
  protocol : UInt8
  lastActive : UInt32
  timeout : UInt32
  packetsIn : UInt64
  packetsOut : UInt64
  bytesIn : UInt64
  bytesOut : UInt64
  used : Bool
  deriving DecidableEq

/-- An entry after `memset`. -/
def zeroEntry : NatEntry := ⟨0, 0, 0, 0, .snat, .new, 0, 0, 0, 0, 0, 0, 0, false⟩

structure NatStats where
  totalEntries : UInt32
  snatEntries : UInt32
  dnatEntries : UInt32
  totalPacketsIn : UInt64
  totalPacketsOut : UInt64
  totalBytesIn : UInt64
  totalBytesOut : UInt64

abbrev Slot := Fin natTableMax

/-- The module's static variables. -/
structure NatState where
  table : Slot → NatEntry
  externalIp : UInt32
  nextEphemeralPort : UInt16
  tick : UInt32
  stats : NatStats

variable (s : NatState)

def NatState.setEntry (i : Slot) (entry : NatEntry) : NatState :=
  { s with table := Function.update s.table i entry }

/-! ## Helpers -/

def allocEphemeralPort : UInt16 × NatState :=
  let next := s.nextEphemeralPort + 1
  (s.nextEphemeralPort,
    { s with
      nextEphemeralPort := if natPortEnd < next ∨ next < natPortStart then natPortStart else next })

def findFreeSlot : Option Slot :=
  (List.finRange natTableMax).find? fun i => !(s.table i).used

def getDefaultTimeout (protocol : UInt8) : UInt32 :=
  if protocol = 6 then 3600 else if protocol = 17 then 30 else 60

def getCurrentTick : UInt32 × NatState := (s.tick + 1, { s with tick := s.tick + 1 })

/-- The 16-bit words of some bytes, most significant byte first, added up; a last odd
byte counts as the upper half of a word. -/
def sumWords : List UInt8 → Nat
  | [] => 0
  | [a] => a.toNat * 256
  | a :: b :: rest => a.toNat * 256 + b.toNat + sumWords rest

/-- `while (sum >> 16) sum = (sum & 0xFFFF) + (sum >> 16)`; a 32-bit sum needs two rounds. -/
def foldCarry : Nat → Nat → Nat
  | 0, sum => sum
  | rounds + 1, sum =>
    if sum / 65536 = 0 then sum else foldCarry rounds (sum % 65536 + sum / 65536)

def ipChecksum (bytes : List UInt8) (len : Nat) : UInt16 :=
  ~~~ UInt16.ofNat (foldCarry 2 (sumWords (bytes.take len)))

def pseudoChecksum (srcIp dstIp : UInt32) (protocol : UInt8) (length : Nat)
    (payload : List UInt8) (payloadLen : Nat) : UInt16 :=
  let sum := srcIp.toNat / 65536 + srcIp.toNat % 65536 + dstIp.toNat / 65536 +
    dstIp.toNat % 65536 + (protocol.toNat * 256 + length % 256) + sumWords (payload.take payloadLen)
  ~~~ UInt16.ofNat (foldCarry 2 sum)

/-! ## The table -/

def natInit : NatState :=
  { s with
    table := fun _ => zeroEntry
    stats := ⟨0, 0, 0, 0, 0, 0, 0⟩
    externalIp := 0
    nextEphemeralPort := natPortStart }

def natSetExternalIp (ip : UInt32) : NatState := { s with externalIp := ip }

/-- The external address a source mapping gets. -/
def snatExternalIp (externalIp : UInt32) : UInt32 :=
  if externalIp = 0 then s.externalIp else externalIp

def natAddSnat (internalIp : UInt32) (internalPort : UInt16) (externalIp : UInt32)
    (protocol : UInt8) : NatState × Int :=
  match findFreeSlot s with
  | none => (s, -1)
  | some slot =>
    let (port, s) := allocEphemeralPort s
    let (now, s) := getCurrentTick s
    let entry : NatEntry := { zeroEntry with
      internalIp
      internalPort
      externalIp := snatExternalIp s externalIp
      externalPort := port
      type := .snat
      state := .new
      protocol
      lastActive := now
      timeout := getDefaultTimeout protocol
      used := true }
    ({ s.setEntry slot entry with
      stats := { s.stats with
        snatEntries := s.stats.snatEntries + 1
        totalEntries := s.stats.totalEntries + 1 } }, 0)

def natAddDnat (externalIp : UInt32) (externalPort : UInt16) (internalIp : UInt32)
    (internalPort : UInt16) (protocol : UInt8) : NatState × Int :=
  match findFreeSlot s with
  | none => (s, -1)
  | some slot =>
    let (now, s) := getCurrentTick s
    let entry : NatEntry := { zeroEntry with
      externalIp
      externalPort
      internalIp
      internalPort
      type := .dnat
      state := .new
      protocol
      lastActive := now
      timeout := getDefaultTimeout protocol
      used := true }
    ({ s.setEntry slot entry with
      stats := { s.stats with
        dnatEntries := s.stats.dnatEntries + 1
        totalEntries := s.stats.totalEntries + 1 } }, 0)

/-- The test of `nat_lookup_snat` on an entry. -/
def MatchesSnat (entry : NatEntry) (ip : UInt32) (port : UInt16) (protocol : UInt8) : Prop :=
  entry.used ∧ (entry.type = .snat ∨ entry.type = .full) ∧ entry.internalIp = ip ∧
    entry.internalPort = port ∧ entry.protocol = protocol
deriving Decidable

/-- The test of `nat_lookup_dnat` on an entry. -/
def MatchesDnat (entry : NatEntry) (ip : UInt32) (port : UInt16) (protocol : UInt8) : Prop :=
  entry.used ∧ (entry.type = .dnat ∨ entry.type = .full) ∧ entry.externalIp = ip ∧
    entry.externalPort = port ∧ entry.protocol = protocol
deriving Decidable

def findEntry (test : NatEntry → Prop) [DecidablePred test] : Option Slot :=
  (List.finRange natTableMax).find? fun i => decide (test (s.table i))

theorem findEntry_none {s : NatState} {test : NatEntry → Prop} [DecidablePred test]
    (absent : findEntry s test = none) {i : Slot} : ¬ test (s.table i) := by
  have fails := List.find?_eq_none.mp absent i (List.mem_finRange i)
  exact of_decide_eq_false (Bool.eq_false_iff.mpr fails)

/-- A lookup marks the entry it finds as active. -/
def touch : Option Slot → NatState
  | none => s
  | some i =>
    let (now, s) := getCurrentTick s
    s.setEntry i { s.table i with lastActive := now }

def natLookupSnat (internalIp : UInt32) (internalPort : UInt16) (protocol : UInt8) :
    NatState × Option Slot :=
  let found := findEntry s fun entry => MatchesSnat entry internalIp internalPort protocol
  (touch s found, found)

def natLookupDnat (externalIp : UInt32) (externalPort : UInt16) (protocol : UInt8) :
    NatState × Option Slot :=
  let found := findEntry s fun entry => MatchesDnat entry externalIp externalPort protocol
  (touch s found, found)

/-! ## Packets -/

section

variable (packet : List UInt8) (ihl : Nat)

/-- `(ver_ihl & 0x0F) * 4`. -/
def headerLength : Nat := (packet.getD 0 0).toNat % 16 * 4

def srcAddr : UInt32 := UInt32.ofNat (getField packet 12 4)
def dstAddr (packet : List UInt8) : UInt32 := UInt32.ofNat (getField packet 16 4)

/-- `trans->src_port`, with the transport header at the given offset. -/
def srcPortAt : UInt16 := UInt16.ofNat (getField packet ihl 2)

/-- `trans->dst_port`. -/
def dstPortAt : UInt16 :=
  UInt16.ofNat (getField packet (ihl + 2) 2)

/-- The header checksum is cleared and computed anew. -/
def renewIpChecksum : List UInt8 :=
  let packet := setField packet 10 2 0
  setField packet 10 2 (ipChecksum packet ihl).toNat

/-- The transport checksum of TCP and UDP is cleared and computed anew, at the place the
source takes for it. -/
def renewTransportChecksum (protocol : UInt8) : List UInt8 :=
  if protocol = 6 ∨ protocol = 17 then
    let totalLen := (packet.length - ihl) % 65536
    let packet := setField packet (ihl + 2) 2 0
    setField packet (ihl + 2) 2
      (pseudoChecksum (srcAddr packet) (dstAddr packet) protocol totalLen (packet.drop ihl)
        totalLen).toNat
  else packet

def translateSource (ip : UInt32) (port : UInt16) (protocol : UInt8) : List UInt8 :=
  let packet := setField (setField packet 12 4 ip.toNat) ihl 2 port.toNat
  renewTransportChecksum (renewIpChecksum packet ihl) ihl protocol

def translateDestination (ip : UInt32) (port : UInt16) (protocol : UInt8) : List UInt8 :=
  let packet := setField (setField packet 16 4 ip.toNat) (ihl + 2) 2 port.toNat
  renewTransportChecksum (renewIpChecksum packet ihl) ihl protocol

end

/-- What a translation leaves and returns. -/
structure Translated where
  state : NatState
  packet : List UInt8
  ret : Int

/-- The mapping `nat_outbound` uses: the one it finds, or a new one. -/
def outboundMapping (ip : UInt32) (port : UInt16) (protocol : UInt8) : NatState × Except Int Slot :=
  match natLookupSnat s ip port protocol with
  | (s, some i) => (s, .ok i)
  | (s, none) =>
    let (s, ret) := natAddSnat s ip port 0 protocol
    if ret ≠ 0 then (s, .error (-2))
    else
      match natLookupSnat s ip port protocol with
      | (s, some i) => (s, .ok i)
      | (s, none) => (s, .error (-3))

def natOutbound (packet : List UInt8) (protocol : UInt8) : Translated :=
  if packet.length < 24 then ⟨s, packet, -1⟩
  else
    let ihl := headerLength packet
    if packet.length < ihl + 4 then ⟨s, packet, -1⟩
    else
      match outboundMapping s (srcAddr packet) (srcPortAt packet ihl) protocol with
      | (s, .error code) => ⟨s, packet, code⟩
      | (s, .ok i) =>
        let len := UInt64.ofNat packet.length
        let entry := s.table i
        let s := s.setEntry i { entry with
          state := .established
          packetsOut := entry.packetsOut + 1
          bytesOut := entry.bytesOut + len }
        ⟨{ s with
            stats := { s.stats with
              totalPacketsOut := s.stats.totalPacketsOut + 1
              totalBytesOut := s.stats.totalBytesOut + len } },
          translateSource packet ihl entry.externalIp entry.externalPort protocol, 0⟩

def natInbound (packet : List UInt8) (protocol : UInt8) : Translated :=
  if packet.length < 24 then ⟨s, packet, -1⟩
  else
    let ihl := headerLength packet
    if packet.length < ihl + 4 then ⟨s, packet, -1⟩
    else
      match natLookupDnat s (dstAddr packet) (dstPortAt packet ihl) protocol with
      | (s, none) => ⟨s, packet, -2⟩
      | (s, some i) =>
        let len := UInt64.ofNat packet.length
        let entry := s.table i
        let s := s.setEntry i { entry with
          state := .established
          packetsIn := entry.packetsIn + 1
          bytesIn := entry.bytesIn + len }
        ⟨{ s with
            stats := { s.stats with
              totalPacketsIn := s.stats.totalPacketsIn + 1
              totalBytesIn := s.stats.totalBytesIn + len } },
          translateDestination packet ihl entry.internalIp entry.internalPort protocol, 0⟩

/-! ## Clean-up -/

/-- An entry in use that was not active for longer than its timeout. -/
def Expired (now : UInt32) (entry : NatEntry) : Prop :=
  entry.used ∧ entry.timeout < now - entry.lastActive
deriving Decidable

def dropFromStats (now : UInt32) (stats : NatStats) (entry : NatEntry) : NatStats :=
  if Expired now entry then
    { stats with
      snatEntries :=
        if entry.type = .snat ∨ entry.type = .full then stats.snatEntries - 1
        else stats.snatEntries
      dnatEntries :=
        if entry.type = .dnat ∨ entry.type = .full then stats.dnatEntries - 1
        else stats.dnatEntries
      totalEntries := stats.totalEntries - 1 }
  else stats

/-- `nat_cleanup`. What happens to an entry does not depend on the others. -/
def natCleanup : NatState :=
  let (now, s) := getCurrentTick s
  { s with
    table := fun i => if Expired now (s.table i) then zeroEntry else s.table i
    stats := ((List.finRange natTableMax).map s.table).foldl (dropFromStats now) s.stats }

/-! ## Calls -/

inductive Op where
  | addSnat (internalIp : UInt32) (internalPort : UInt16) (externalIp : UInt32) (protocol : UInt8)
  | addDnat (externalIp : UInt32) (externalPort : UInt16) (internalIp : UInt32)
      (internalPort : UInt16) (protocol : UInt8)
  | outbound (packet : List UInt8) (protocol : UInt8)
  | inbound (packet : List UInt8) (protocol : UInt8)
  | cleanup

/-- One call. -/
def step : Op → NatState
  | .addSnat internalIp internalPort externalIp protocol =>
    (natAddSnat s internalIp internalPort externalIp protocol).1
  | .addDnat externalIp externalPort internalIp internalPort protocol =>
    (natAddDnat s externalIp externalPort internalIp internalPort protocol).1
  | .outbound packet protocol => (natOutbound s packet protocol).state
  | .inbound packet protocol => (natInbound s packet protocol).state
  | .cleanup => natCleanup s

end FunsOS.NetNat
