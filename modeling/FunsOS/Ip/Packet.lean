import FunsOS.Foundation.Fields

/-!
# IP packets and their fragments

A model of the sending side of `net/ip.c`: the packed header, its checksum, and
`ip_fragment_send`, which cuts a payload into packets.

The header's fields of two and four bytes are stored in the byte order of the machine,
which is little-endian: the source converts nothing. Two answers from outside are
arguments of the loop for every packet: whether `kmalloc` finds a block and whether
`arp_resolve` finds the next hop.
-/

set_option autoImplicit false

namespace FunsOS.Ip

open Foundation UInt16 Function

def ipFlagMf : UInt16 := 0x2000

/-- `ip_header_t`. -/
structure IpHeader where
  versionIhl : UInt8
  tos : UInt8
  totalLength : UInt16
  identification : UInt16
  flagsFragment : UInt16
  ttl : UInt8
  protocol : UInt8
  checksum : UInt16
  srcIp : UInt32
  dstIp : UInt32
  deriving DecidableEq

/-- `sizeof(ip_header_t)`. -/
def headerSize : Nat := 20

def IpHeader.bytes (hdr : IpHeader) : List UInt8 :=
  [hdr.versionIhl, hdr.tos] ++ fieldBytes 2 hdr.totalLength.toNat ++
    fieldBytes 2 hdr.identification.toNat ++ fieldBytes 2 hdr.flagsFragment.toNat ++
    [hdr.ttl, hdr.protocol] ++ fieldBytes 2 hdr.checksum.toNat ++
    fieldBytes 4 hdr.srcIp.toNat ++ fieldBytes 4 hdr.dstIp.toNat

def readHeader (memory : List UInt8) : IpHeader where
  versionIhl := memory.getD 0 0
  tos := memory.getD 1 0
  totalLength := ofNat (getField memory 2 2)
  identification := ofNat (getField memory 4 2)
  flagsFragment := ofNat (getField memory 6 2)
  ttl := memory.getD 8 0
  protocol := memory.getD 9 0
  checksum := ofNat (getField memory 10 2)
  srcIp := UInt32.ofNat (getField memory 12 4)
  dstIp := UInt32.ofNat (getField memory 16 4)

/-- The words of some bytes, least significant byte first, added up. -/
def sumWords : List UInt8 → Nat
  | [] => 0
  | [a] => a.toNat
  | a :: b :: rest => a.toNat + 256 * b.toNat + sumWords rest

/-- `while (sum >> 16) sum = (sum & 0xFFFF) + (sum >> 16)`; two rounds do for a 32-bit sum. -/
def foldCarry : Nat → Nat → Nat
  | 0, sum => sum
  | rounds + 1, sum =>
    if sum / 65536 = 0 then sum else foldCarry rounds (sum % 65536 + sum / 65536)

def ipChecksum (bytes : List UInt8) : UInt16 := ~~~ofNat (foldCarry 2 (sumWords bytes % 2 ^ 32))

/-- The header with its checksum computed while the field is 0. -/
def IpHeader.sealed (hdr : IpHeader) : IpHeader :=
  { hdr with checksum := ipChecksum { hdr with checksum := 0 }.bytes }

variable {hdr : IpHeader}

@[simp] theorem length_bytes : hdr.bytes.length = headerSize := by
  simp [IpHeader.bytes, headerSize]

theorem word_of_bytes {x : UInt16} {before after : List UInt8} :
    ofNat (getField (before ++ (fieldBytes 2 x.toNat ++ after)) before.length 2) = x := by
  have bound := x.toNat_lt
  rw [← List.append_assoc, getField_fieldBytes, Nat.mod_eq_of_lt (by norm_num; omega)]
  exact UInt16.ofNat_toNat

theorem dword_of_bytes {x : UInt32} {before after : List UInt8} :
    UInt32.ofNat (getField (before ++ (fieldBytes 4 x.toNat ++ after)) before.length 4) = x := by
  have bound := x.toNat_lt
  rw [← List.append_assoc, getField_fieldBytes, Nat.mod_eq_of_lt (by norm_num; omega)]
  exact UInt32.ofNat_toNat

/-- **A header that was written is read back.** -/
theorem readHeader_bytes {rest : List UInt8} : readHeader (hdr.bytes ++ rest) = hdr := by
  obtain ⟨versionIhl, tos, totalLength, identification, flags, ttl, protocol, checksum, src, dst⟩ :=
    hdr
  simp only [readHeader, IpHeader.bytes, IpHeader.mk.injEq, List.append_assoc]
  refine ⟨rfl, rfl, ?_, ?_, ?_, rfl, rfl, ?_, ?_, ?_⟩
  · exact word_of_bytes
  · exact word_of_bytes
  · exact word_of_bytes
  · exact word_of_bytes
  · exact dword_of_bytes
  · exact dword_of_bytes

/-- The receiver's test of the checksum. -/
def IpHeader.Intact (hdr : IpHeader) : Prop :=
  hdr.checksum = ipChecksum { hdr with checksum := 0 }.bytes
deriving Decidable

/-- The header says that the packet is a fragment: more follow, or its offset is not 0. -/
def IpHeader.IsFragment (hdr : IpHeader) : Prop :=
  hdr.flagsFragment &&& 0x1FFF ≠ 0 ∨ (hdr.flagsFragment >>> 13) &&& 0x07 &&& 0x01 ≠ 0
deriving Decidable

/-! ## Sending -/

/-- `net_interface_t`, as far as IP reads it. -/
structure NetInterface where
  ip : UInt32
  mask : UInt32
  gateway : UInt32
  mtu : UInt32

/-- The arguments of `ip_fragment_send` behind the interface. -/
structure Datagram where
  dst : UInt32
  proto : UInt8
  payload : List UInt8
  ttl : UInt8
  tos : UInt8
  ident : UInt16

/-- What the rounds of the loop are told from outside. -/
structure Answers where
  block : Nat → Bool
  resolved : Nat → UInt32 → Bool

/-- `(mtu - sizeof(ip_header_t)) & ~7U`. -/
def maxPayload (mtu : UInt32) : UInt32 := (mtu - 20) &&& ~~~7

def fragmentHeader (iface : NetInterface) (d : Datagram) (id off : UInt16) (chunk : Nat)
    (more : Bool) : IpHeader :=
  IpHeader.sealed
    { versionIhl := 0x45
      tos := d.tos
      totalLength := ofNat (headerSize + chunk)
      identification := id
      flagsFragment := (if more then ipFlagMf else 0) ||| (off &&& 0x1FFF)
      ttl := d.ttl
      protocol := d.proto
      checksum := 0
      srcIp := iface.ip
      dstIp := d.dst }

/-- Where a packet goes first. -/
def nextHop (iface : NetInterface) (dst : UInt32) : UInt32 :=
  if dst &&& iface.mask = iface.ip &&& iface.mask then dst else iface.gateway

/-- The loop of `ip_fragment_send` with `rest` still to send: the packets given to
`ethernet_send`, and the result. The fuel is the length of the payload: each round sends
at least eight bytes or the rest. -/
def fragmentLoop (iface : NetInterface) (d : Datagram) (id : UInt16) (answers : Answers) :
    Nat → Nat → UInt16 → List UInt8 → List (List UInt8) × Int
  | 0, _, _, _ => ([], 0)
  | fuel + 1, round, off, rest =>
    if rest = [] then ([], 0)
    else if answers.block round then
      let chunk := min rest.length (maxPayload iface.mtu).toNat
      let packet := (fragmentHeader iface d id off chunk (chunk < rest.length)).bytes ++
        rest.take chunk
      let later := fragmentLoop iface d id answers fuel (round + 1) (off + ofNat chunk)
        (rest.drop chunk)
      if answers.resolved round (nextHop iface d.dst) then (packet :: later.1, later.2)
      else later
    else ([], -1)

/-- `my_id`. -/
def datagramId (nextIpId : UInt16) (d : Datagram) : UInt16 :=
  if d.ident ≠ 0 then d.ident else nextIpId

/-- `ip_fragment_send`: the packets it sends and its result. -/
def ipFragmentSend (nextIpId : UInt16) (iface : NetInterface) (d : Datagram) (answers : Answers) :
    List (List UInt8) × Int :=
  if iface.mtu = 0 then ([], -1)
  else if maxPayload iface.mtu < 8 then ([], -1)
  else fragmentLoop iface d (datagramId nextIpId d) answers d.payload.length 0 0 d.payload

/-!
## Receiving IP packets

A model of the receiving side of `net/ip.c`: the table of packets that are being
reassembled, and `ip_receive` with its two paths, for packets that are fragments and for
those that are not.

What the upper layer is handed is a `Delivery`. The time, whether allocations succeed and
what the netfilter hooks and the raw sockets say are arguments. A list of fragments holds
their bytes; the fields `holes_end` and `buf_cap`, which nothing reads, do not occur, nor do
statistics, the mutex and the ICMP message about an expired packet.
-/

/-- `sizeof(((net_buffer_t *)0)->data)`. -/
def bufferSize : Nat := 1518
def ipReasmMax : Nat := 32
def ipFragTimeoutMs : UInt32 := 30000

/-- `net_buffer_t`. -/
structure NetBuffer where
  data : List UInt8
  size : data.length = bufferSize
  len : UInt32
  offset : UInt32
  iface : Option NetInterface

def NetBuffer.memory (buf : NetBuffer) : List UInt8 := buf.data.drop buf.offset.toNat

/-- `ip_frag_t`. -/
structure IpFrag where
  offset : UInt16
  data : List UInt8
  more : Bool

/-- `reasm_entry_t`. -/
structure ReasmEntry where
  src : UInt32
  dst : UInt32
  proto : UInt8
  id : UInt16
  used : Bool
  firstMs : UInt32
  totalBytes : UInt32
  complete : Bool
  frags : List IpFrag
  buf : Option NetBuffer

/-- An entry after `memset`. -/
def zeroEntry : ReasmEntry := ⟨0, 0, 0, 0, false, 0, 0, false, [], none⟩

/-- An index into `reasm_table`. -/
abbrev Slot := Fin ipReasmMax

abbrev ReasmTable := Slot → ReasmEntry

/-- Which allocations succeed during a call: the node of a fragment, its bytes, the bytes of
two fragments joined, and the buffer of the whole packet. -/
structure Memory where
  node : Bool
  bytes : Bool
  joined : Bool
  buffer : Bool

inductive Hook where
  | preRouting
  | localIn

/-- What the rest of the stack says to a packet: whether a netfilter hook drops it, and
whether a raw socket takes its protocol. -/
structure Host where
  drops : Hook → NetBuffer → Bool
  rawConsumer : UInt8 → Bool

/-- Where `ip_dispatch_payload` hands a buffer. -/
inductive Handler where
  | rawSock
  | icmp
  | tcp
  | udp
  | udpLite
  | igmp
  deriving DecidableEq

/-- A buffer handed to the upper layer: the bytes from its offset on, as many as its
length says. -/
structure Delivery where
  handler : Handler
  bytes : List UInt8
  deriving DecidableEq

def ipDispatchPayload (host : Host) (proto : UInt8) (bytes : List UInt8) : Option Delivery :=
  if host.rawConsumer proto then some ⟨.rawSock, bytes⟩
  else if proto = 1 then some ⟨.icmp, bytes⟩
  else if proto = 6 then some ⟨.tcp, bytes⟩
  else if proto = 17 then some ⟨.udp, bytes⟩
  else if proto = 136 then some ⟨.udpLite, bytes⟩
  else if proto = 2 then some ⟨.igmp, bytes⟩
  else none

/-! ## The table -/

variable (table : ReasmTable)

def reasmLookup (hdr : IpHeader) : Option Slot :=
  (List.finRange ipReasmMax).find? fun i =>
    (table i).used && (table i).id == hdr.identification && (table i).proto == hdr.protocol &&
      (table i).src == hdr.srcIp && (table i).dst == hdr.dstIp

/-- The entry gives up its fragments and its buffer. -/
def ReasmEntry.release (entry : ReasmEntry) : ReasmEntry :=
  { entry with frags := [], buf := none, used := false }

/-- The first loop of `reasm_alloc`. -/
def reapOld (now : UInt32) : ReasmTable := fun i =>
  if (table i).used ∧ ipFragTimeoutMs < now - (table i).firstMs then (table i).release
  else table i

/-- The last loop of `reasm_alloc`: the entry with the smallest time, the first of them. -/
def oldestSlot : Slot :=
  ((List.finRange ipReasmMax).foldl
    (fun (best : UInt32 × Slot) i =>
      if (table i).firstMs < best.1 then ((table i).firstMs, i) else best)
    (0xFFFFFFFF, ⟨0, by decide⟩)).2

def reasmAlloc (now : UInt32) : ReasmTable × Slot :=
  let table := reapOld table now
  match (List.finRange ipReasmMax).find? fun i => !(table i).used with
  | some i => (table, i)
  | none =>
    let i := oldestSlot table
    (update table i (table i).release, i)

/-- Put a fragment in front of the first one whose offset is not smaller, and join it with
that one if it ends where that one starts. -/
def insertFrag (new : IpFrag) (joins : Bool) : List IpFrag → List IpFrag
  | [] => [new]
  | frag :: rest =>
    if frag.offset < new.offset then frag :: insertFrag new joins rest
    else if new.offset.toNat + new.data.length = frag.offset.toNat ∧ joins then
      { new with data := new.data ++ frag.data } :: rest
    else new :: frag :: rest

def reasmInsert (entry : ReasmEntry) (new : IpFrag) (memory : Memory) : ReasmEntry :=
  if memory.node ∧ memory.bytes then
    { entry with
      frags := insertFrag new memory.joined entry.frags
      totalBytes := entry.totalBytes + UInt32.ofNat new.data.length }
  else entry

/-- `reasm_finalize`: what it hands over. -/
def reasmFinalize (host : Host) (entry : ReasmEntry) (memory : Memory) : Option Delivery :=
  if entry.totalBytes = 0 ∨ 65535 < entry.totalBytes ∨ memory.buffer = false then none
  else if bufferSize < (entry.frags.map fun frag => frag.data.length).sum then none
  else
    match entry.buf.bind (·.iface) with
    | some _ => ipDispatchPayload host entry.proto (entry.frags.flatMap (·.data))
    | none => none

/-! ## `ip_receive` -/

/-- One call of `ip_receive`. -/
structure Call where
  buf : NetBuffer
  ticks : UInt32
  memory : Memory

/-- The entry for a packet none of whose fragments have come yet. -/
def newEntry (hdr : IpHeader) (ticks : UInt32) : ReasmEntry :=
  { zeroEntry with
    src := hdr.srcIp
    dst := hdr.dstIp
    proto := hdr.protocol
    id := hdr.identification
    firstMs := ticks * 10
    buf := none
    used := true }

def reasmSlot (hdr : IpHeader) (ticks : UInt32) : ReasmTable × Slot :=
  match reasmLookup table hdr with
  | some i => (table, i)
  | none =>
    let (table, i) := reasmAlloc table (ticks * 10)
    (update table i (newEntry hdr ticks), i)

/-- The fragmented path of `ip_receive`. -/
def receiveFragment (host : Host) (table : ReasmTable) (hdr : IpHeader) (call : Call)
    (payload : List UInt8) : ReasmTable × Option Delivery :=
  let more : Bool := (hdr.flagsFragment >>> 13) &&& 0x07 &&& 0x01 ≠ 0
  let (table, i) := reasmSlot table hdr call.ticks
  let entry := reasmInsert (table i) ⟨hdr.flagsFragment &&& 0x1FFF, payload, more⟩ call.memory
  let entry := if more then entry else { entry with complete := true }
  if entry.complete then
    (update table i entry.release, reasmFinalize host entry call.memory)
  else (update table i entry, none)

/-- The destination is the address of the buffer's interface, which every received buffer
has, or the broadcast address. -/
def forUs (buf : NetBuffer) (hdr : IpHeader) : Prop :=
  (∃ iface ∈ buf.iface, hdr.dstIp = iface.ip) ∨ hdr.dstIp = 0xFFFFFFFF
deriving Decidable

/-- The length of the header, in bytes. -/
def IpHeader.ihl (hdr : IpHeader) : UInt8 := (hdr.versionIhl &&& 0x0F) * 4

/-- The tests before the payload is looked at. -/
def Admitted (host : Host) (buf : NetBuffer) (hdr : IpHeader) : Prop :=
  (hdr.versionIhl >>> 4) &&& 0x0F = 4 ∧ hdr.Intact ∧ host.drops .preRouting buf = false ∧
    forUs buf hdr ∧ host.drops .localIn buf = false ∧ 1 < hdr.ttl ∧ 20 ≤ hdr.ihl ∧
    hdr.ihl.toNat ≤ hdr.totalLength.toNat
deriving Decidable

/-- The length of the payload, capped by the length of the buffer. -/
def payloadLength (buf : NetBuffer) (hdr : IpHeader) : UInt32 :=
  let length := hdr.totalLength.toUInt32 - hdr.ihl.toUInt32
  if buf.len - hdr.ihl.toUInt32 < length then buf.len - hdr.ihl.toUInt32 else length

def ipReceive (host : Host) (table : ReasmTable) (call : Call) : ReasmTable × Option Delivery :=
  let hdr := readHeader call.buf.memory
  if Admitted host call.buf hdr then
    let payload := (call.buf.memory.drop hdr.ihl.toNat).take (payloadLength call.buf hdr).toNat
    if hdr.IsFragment then receiveFragment host table hdr call payload
    else (table, ipDispatchPayload host hdr.protocol payload)
  else (table, none)

end FunsOS.Ip
