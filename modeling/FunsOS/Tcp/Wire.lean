import FunsOS.Ip.Packet

/-!
# TCP segments on the wire

The packet that `tcp_send_segment` of `net/tcp.c` builds, with its options and its
checksum, and the header decoding at the start of `tcp_receive`.

`tcp_header_t` is packed: 19 bytes, of which one holds both the header length and the
flags. The length in words is shifted by four and the flags have six bits, so `TCP_ACK`
and `TCP_URG` lie on the two low bits of the length. A segment survives the trip exactly
when those two flags are what the length has there (`tcpDecode_segmentBytes`).

Lengths are natural numbers: a packet is in memory, so they stay far below `2 ^ 32`.
-/

set_option autoImplicit false

namespace FunsOS.Tcp

open Foundation Ip List UInt8

def tcpSyn : UInt8 := 0x02
def tcpAck : UInt8 := 0x10
def tcpUrg : UInt8 := 0x20

/-- The fields of `tcp_socket_t` that a segment is built from. -/
structure Endpoint where
  localPort : UInt16
  remotePort : UInt16
  localIp : UInt32
  remoteIp : UInt32
  sndNxt : UInt32
  rcvNxt : UInt32
  rcvWnd : UInt32
  urgPtr : UInt32
  mssLocal : UInt16
  tsOption : Bool
  tsRecent : UInt32

/-- `sizeof(tcp_header_t)`. -/
def tcpHeaderSize : Nat := 19

/-- The bytes of a word, most significant first. -/
def bigEndian (n value : Nat) : List UInt8 := (fieldBytes n value).reverse

/-- `if (i + 2 <= max_len) { out[i++] = TCP_OPT_EOL; }`. -/
def endOptions (maxLen : Nat) (out : List UInt8) : List UInt8 :=
  if out.length + 2 ≤ maxLen then out ++ [0] else out

variable (sock : Endpoint) {flags : UInt8}

/-- `tcp_option_build`: the bytes it stores. -/
def tcpOptionBuild (maxLen : Nat) (syn : Bool) (now : UInt32) : List UInt8 :=
  if syn then
    if maxLen < 4 then []
    else
      let scaled := [2, 4] ++ bigEndian 2 sock.mssLocal.toNat ++ [1, 3, 3, 7]
      if maxLen < 10 then scaled
      else if maxLen < 20 then scaled ++ [4, 2]
      else endOptions maxLen (scaled ++ [4, 2] ++ [8, 10] ++ bigEndian 4 now.toNat ++ [0, 0, 0, 0])
  else if sock.tsOption then
    if maxLen < 12 then []
    else
      endOptions maxLen ([1, 1, 8, 10] ++ bigEndian 4 now.toNat ++ bigEndian 4 sock.tsRecent.toNat)
  else endOptions maxLen []

/-- `tcp_checksum` with the protocol `IP_PROTO_TCP`. -/
def tcpChecksum (src dst : UInt32) (bytes : List UInt8) : UInt16 :=
  let pseudo := src.toNat / 65536 + src.toNat % 65536 + dst.toNat / 65536 + dst.toNat % 65536
  ~~~UInt16.ofNat (foldCarry 2 ((pseudo + 6 + bytes.length + sumWords bytes) % 2 ^ 32))

/-- The header up to its checksum. -/
def headerFront (offsetFlags : UInt8) : List UInt8 :=
  fieldBytes 2 sock.localPort.toNat ++ fieldBytes 2 sock.remotePort.toNat ++
    fieldBytes 4 sock.sndNxt.toNat ++ fieldBytes 4 sock.rcvNxt.toNat ++ [offsetFlags] ++
    fieldBytes 2 (min sock.rcvWnd.toNat 65535)

/-- The byte `data_offset_flags`. -/
def offsetFlags (words flags : UInt8) : UInt8 := words <<< 4 ||| flags &&& 0x3F

/-- A packet with its checksum, which is computed while the field is 0. -/
def sealSegment (byte : UInt8) (after : List UInt8) : List UInt8 :=
  let packet checksum := headerFront sock byte ++ fieldBytes 2 checksum ++ after
  packet (tcpChecksum sock.localIp sock.remoteIp (packet 0)).toNat

/-- The packet of `tcp_send_segment`. -/
def segmentBytes (flags : UInt8) (data : List UInt8) (now : UInt32) : List UInt8 :=
  let opt := tcpOptionBuild sock 40 (flags &&& tcpSyn != 0) now
  let words := ofNat ((tcpHeaderSize + opt.length + 3) / 4)
  let urgent := if flags &&& tcpUrg != 0 then sock.urgPtr.toNat else 0
  sealSegment sock (offsetFlags words flags) (fieldBytes 2 urgent ++ opt ++ data)

/-- The header length in words. -/
def offsetWords (byte : UInt8) : UInt8 := (byte >>> 4) &&& 0x0F

/-- The start of `tcp_receive`: the flags and the payload of a packet that is not dropped. -/
def tcpDecode (ifaceIp srcIp : UInt32) (buf : List UInt8) : Option (UInt8 × List UInt8) :=
  let byte := buf.getD 12 0
  let hdrLen := (offsetWords byte).toNat * 4
  if buf.length < tcpHeaderSize ∨ hdrLen < tcpHeaderSize ∨ buf.length < hdrLen then none
  else if getField buf 15 2 ≠ (tcpChecksum ifaceIp srcIp (setField buf 15 2 0)).toNat then none
  else some (byte &&& 0x3F, buf.drop hdrLen)

/-! ## The way back -/

/-- The two addresses have the same part in the checksum. -/
theorem tcpChecksum_comm {src dst : UInt32} {bytes : List UInt8} :
    tcpChecksum src dst bytes = tcpChecksum dst src bytes := by
  have sum : src.toNat / 65536 + src.toNat % 65536 + dst.toNat / 65536 + dst.toNat % 65536 =
      dst.toNat / 65536 + dst.toNat % 65536 + src.toNat / 65536 + src.toNat % 65536 := by omega
  simp only [tcpChecksum, sum]

/-- A packet passes the test of its checksum. What it decodes to depends on the length its
header gives. -/
theorem tcpDecode_sealSegment {byte : UInt8} {after : List UInt8}
    (enough : tcpHeaderSize ≤ (offsetWords byte).toNat * 4) :
    tcpDecode sock.remoteIp sock.localIp (sealSegment sock byte after) =
      if 17 + after.length < (offsetWords byte).toNat * 4 then none
      else some (byte &&& 0x3F, after.drop ((offsetWords byte).toNat * 4 - 17)) := by
  have read (checksum : Nat) :
      (headerFront sock byte ++ fieldBytes 2 checksum ++ after).getD 12 0 = byte := rfl
  have size : (headerFront sock byte).length = 15 := rfl
  have front (checksum : Nat) : (headerFront sock byte ++ fieldBytes 2 checksum).length = 17 := by
    rw [length_append, size, length_fieldBytes]
  have length (checksum : Nat) :
      (headerFront sock byte ++ fieldBytes 2 checksum ++ after).length = 17 + after.length := by
    rw [length_append, front]
  simp only [tcpDecode, sealSegment, read, length]
  have stored (checksum : UInt16) :
      getField (headerFront sock byte ++ fieldBytes 2 checksum.toNat ++ after) 15 2 =
        checksum.toNat := by
    rw [← size, getField_fieldBytes]
    exact Nat.mod_eq_of_lt checksum.toNat_lt
  have cleared (checksum : Nat) :
      setField (headerFront sock byte ++ fieldBytes 2 checksum ++ after) 15 2 0 =
        headerFront sock byte ++ fieldBytes 2 0 ++ after := by
    rw [← size]
    exact setField_fieldBytes _ _ 2 _ 0
  rw [stored, cleared, tcpChecksum_comm, if_neg (not_not_intro rfl)]
  by_cases short : 17 + after.length < (offsetWords byte).toNat * 4
  · rw [if_pos short, if_pos (.inr (.inr short))]
  · have header : tcpHeaderSize = 19 := rfl
    rw [if_neg short, if_neg (by omega), drop_append, front, drop_eq_nil_of_le, nil_append]
    rw [front]
    omega

/-- The options fill the header up to a whole number of words. -/
theorem length_tcpOptionBuild (syn : Bool) (now : UInt32) :
    (tcpOptionBuild sock 40 syn now).length =
      if syn then 21 else if sock.tsOption then 13 else 1 := by
  cases syn <;> cases ts : sock.tsOption <;> simp [tcpOptionBuild, endOptions, bigEndian, ts]

/-- What is read from the shared byte: never a smaller length, and both parts exactly when
the flags have the low bits of the length. -/
theorem offsetFlags_decode : ∀ words ∈ [10, 8, 5], words ≤ offsetWords (offsetFlags words flags) ∧
    (offsetWords (offsetFlags words flags) = words ∧
        offsetFlags words flags &&& 0x3F = flags &&& 0x3F ↔
      flags &&& (tcpUrg ||| tcpAck) = (words &&& 3) <<< 4) := by
  -- only the lower six bits of the flags matter
  have all : ∀ n < 64, ∀ words ∈ [(10 : UInt8), 8, 5], words ≤ offsetWords (words <<< 4 ||| ofNat n) ∧
      (offsetWords (words <<< 4 ||| ofNat n) = words ∧ (words <<< 4 ||| ofNat n) &&& 0x3F = ofNat n ↔
        ofNat n &&& (tcpUrg ||| tcpAck) = (words &&& 3) <<< 4) := by decide +kernel
  have low : (flags &&& 0x3F).toNat < 64 := Nat.lt_succ_of_le Nat.and_le_right
  have shared : flags &&& 0x3F &&& (tcpUrg ||| tcpAck) = flags &&& (tcpUrg ||| tcpAck) :=
    UInt8.and_assoc ..
  simpa only [offsetFlags, UInt8.ofNat_toNat, shared] using all _ low

/-- A packet whose options fill up its header decodes to its own flags and payload exactly
when the flags have the low bits of the length. -/
theorem tcpDecode_sealSegment_iff {words : UInt8} {opt : List UInt8} {urgent : Nat}
    {data : List UInt8} (known : words ∈ [10, 8, 5])
    (filled : tcpHeaderSize + opt.length = words.toNat * 4) : tcpDecode sock.remoteIp sock.localIp
        (sealSegment sock (offsetFlags words flags) (fieldBytes 2 urgent ++ opt ++ data)) =
      some (flags &&& 0x3F, data) ↔ flags &&& (tcpUrg ||| tcpAck) = (words &&& 3) <<< 4 := by
  obtain ⟨atLeast, agree⟩ := offsetFlags_decode words known
  have le : words.toNat ≤ (offsetWords (offsetFlags words flags)).toNat := atLeast
  rw [← agree, tcpDecode_sealSegment _ (by omega)]
  simp only [tcpHeaderSize] at filled
  have front : (fieldBytes 2 urgent ++ opt).length = words.toNat * 4 - 17 := by
    rw [length_append, length_fieldBytes]
    omega
  constructor
  · intro decoded
    obtain ⟨notShort, same⟩ := Option.ite_none_left_eq_some.mp decoded
    obtain ⟨sameFlags, sameData⟩ := Prod.mk.inj (Option.some.inj same)
    refine ⟨?_, sameFlags⟩
    have lengths := congrArg List.length sameData
    rw [length_drop, length_append, front] at lengths
    rw [length_append, front] at notShort
    apply UInt8.toNat_inj.mp
    omega
  · rintro ⟨sameWords, sameFlags⟩
    rw [sameWords, sameFlags, ← front, drop_left, if_neg]
    rw [length_append, front]
    omega

/-- The flags that lie on the header length are what the length has there: its low bits are
`10` with the options of a SYN, `00` with a timestamp and `01` without options. -/
def SharedBitsAgree (flags : UInt8) : Prop :=
  flags &&& (tcpUrg ||| tcpAck) =
    if flags &&& tcpSyn != 0 then tcpUrg else if sock.tsOption then 0 else tcpAck

/-- **A segment is decoded to its flags and its payload exactly when the flags that lie on
the header length agree with it.** -/
theorem tcpDecode_segmentBytes (sock : Endpoint) (flags : UInt8) (data : List UInt8)
    (now : UInt32) :
    tcpDecode sock.remoteIp sock.localIp (segmentBytes sock flags data now) =
      some (flags &&& 0x3F, data) ↔ SharedBitsAgree sock flags := by
  have length := length_tcpOptionBuild sock (flags &&& tcpSyn != 0) now
  unfold segmentBytes SharedBitsAgree
  cases syn : flags &&& tcpSyn != 0 <;> cases ts : sock.tsOption
  all_goals
    rw [syn, ts] at length
    simp only [length]
    exact tcpDecode_sealSegment_iff sock (by decide) (by rw [length]; rfl)

/-- A SYN+ACK is dropped: its header claims 44 bytes and the packet has 40. -/
theorem tcpDecode_synAck :
    tcpDecode 0 0 (segmentBytes ⟨0, 0, 0, 0, 0, 0, 0, 0, 0, false, 0⟩ (tcpSyn ||| tcpAck) [] 0) =
      none := by
  decide

end FunsOS.Tcp
