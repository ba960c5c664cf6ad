import FunsOS.Ip.RoundTrip

/-!
# Forwarded and dispatched packets

`ip_forward` of `net/ip.c` lowers the TTL and adjusts the checksum. It adds the old TTL to the
complement of the checksum, and the sum is right for two checksums per TTL only
(`forwarded_intact_iff`).

`ip_receive` hands a packet that is not a fragment on as a window of its buffer. The length of the
header comes from the packet, and the window ends behind the received bytes when that is more than
was received (`dispatched_inside_iff`).
-/

set_option autoImplicit false

namespace FunsOS.Ip

open Foundation

/-! ## The checksum of a forwarded packet -/

/-- What `ip_forward` does to the header before its hooks run; `none` when the TTL expires. -/
def forwardHeader (hdr : IpHeader) : Option IpHeader :=
  if hdr.ttl ≤ 1 then none
  else
    let ttl := hdr.ttl - 1
    let mask : UInt32 := 0xFFFF
    let csumAdj := (~~~hdr.checksum.toUInt32 &&& mask) + ((ttl.toUInt32 + 1) &&& mask)
    let folded := ((csumAdj &&& mask) + (csumAdj >>> 16)) &&& mask
    some { hdr with ttl, checksum := folded.toUInt16 }

theorem toNat_and_low {x : UInt32} : (x &&& 0xFFFF).toNat = x.toNat % 65536 := by
  rw [UInt32.toNat_and]
  exact Nat.and_two_pow_sub_one_eq_mod x.toNat 16

variable {hdr : IpHeader}

theorem sumWords_ttl :
    sumWords hdr.bytes = sumWords { hdr with ttl := 0 }.bytes + hdr.ttl.toNat := by
  simp [IpHeader.bytes, fieldBytes, sumWords]
  omega

theorem sumWords_bytes_le : sumWords hdr.bytes ≤ 10 * 65535 := by
  have := hdr.versionIhl.toNat_lt
  have := hdr.tos.toNat_lt
  have := hdr.ttl.toNat_lt
  have := hdr.protocol.toNat_lt
  simp [IpHeader.bytes, fieldBytes, sumWords]
  omega

theorem ipChecksum_bytes (alive : 0 < hdr.ttl.toNat) :
    (ipChecksum hdr.bytes).toNat = 65534 - (sumWords hdr.bytes - 1) % 65535 := by
  have small := @sumWords_bytes_le hdr
  have ttl := @sumWords_ttl hdr
  have fold : foldCarry 2 (sumWords hdr.bytes % 2 ^ 32) = (sumWords hdr.bytes - 1) % 65535 + 1 := by
    rw [Nat.mod_eq_of_lt (by omega)]
    simp only [foldCarry]
    split_ifs <;> omega
  rw [ipChecksum, fold, UInt16.toNat_not, UInt16.toNat_ofNat']
  simp only [UInt16.size]
  omega

/-- **The adjusted checksum is right** exactly for two checksums, by the parity of the TTL. -/
theorem forwarded_intact_iff (intact : hdr.Intact) (alive : 2 ≤ hdr.ttl) :
    (∃ new ∈ forwardHeader hdr, new.Intact) ↔
      2 * hdr.checksum.toNat = 65534 + hdr.ttl.toNat ∨
        2 * hdr.checksum.toNat + 1 = hdr.ttl.toNat := by
  have two : 2 ≤ hdr.ttl.toNat := alive
  have byte := hdr.ttl.toNat_lt
  have lower : (hdr.ttl - 1).toNat = hdr.ttl.toNat - 1 := by
    rw [UInt8.toNat_sub_of_le _ _ (UInt8.le_trans (by decide) alive)]
    rfl
  have old := congrArg UInt16.toNat intact
  rw [ipChecksum_bytes (by dsimp only; omega), sumWords_ttl] at old
  rw [forwardHeader, if_neg (UInt8.not_le.mpr alive)]
  simp only [Option.mem_def, Option.some.injEq, exists_eq_left', IpHeader.Intact]
  rw [← UInt16.toNat_inj, ipChecksum_bytes (by dsimp only; omega), sumWords_ttl]
  dsimp only at old ⊢
  rw [lower]
  generalize sumWords _ = others at *
  have stored := hdr.checksum.toNat_lt
  simp only [UInt32.toNat_toUInt16, toNat_and_low, UInt32.toNat_add, UInt32.toNat_shiftRight,
    UInt32.toNat_not, UInt16.toNat_toUInt32, UInt8.toNat_toUInt32, lower, UInt32.size,
    UInt32.reduceToNat, Nat.reduceMod, Nat.shiftRight_eq_div_pow]
  generalize hdr.checksum.toNat = c at *
  have sum : ((4294967296 - 1 - c) % 65536 + (hdr.ttl.toNat - 1 + 1) % 2 ^ 32 % 65536) % 2 ^ 32 =
      65535 - c + hdr.ttl.toNat := by
    omega
  have right : 65534 - (others + (hdr.ttl.toNat - 1) - 1) % 65535 =
      if c = 65534 then 0 else c + 1 := by
    split <;> omega
  have fold : ((65535 - c + hdr.ttl.toNat) % 65536 + (65535 - c + hdr.ttl.toNat) / 2 ^ 16) %
      2 ^ 32 % 65536 % 2 ^ 16 =
      if hdr.ttl.toNat ≤ c then 65535 - c + hdr.ttl.toNat else hdr.ttl.toNat - c := by
    split <;> omega
  rw [sum, right, fold]
  split <;> split <;> omega

/-- The header of a datagram from one host of the network to another. -/
def udpHeader (ttl : UInt8) (id : UInt16) : IpHeader :=
  fragmentHeader (lan 0x0A000003 1500) { udpDatagram [1, 2, 3] with ttl } id 0 3 false

/-- A packet with a TTL of 255 goes out right when its checksum is 127. -/
theorem forwarded_right : ∃ new ∈ forwardHeader (udpHeader 255 0xD920), new.Intact :=
  (forwarded_intact_iff (by decide) (by decide)).mpr (.inr (by decide))

/-- The checksum of a packet with a TTL of 64 is wrong once it is forwarded. -/
theorem forwarded_broken :
    (udpHeader 64 7).Intact ∧ ¬∃ new ∈ forwardHeader (udpHeader 64 7), new.Intact := by
  decide

/-! ## The window of a dispatched packet -/

/-- The offset and the length with which `ip_receive` dispatches a packet that is no fragment. -/
def dispatchedWindow (buf : NetBuffer) (hdr : IpHeader) : UInt32 × UInt32 :=
  (buf.offset + hdr.ihl.toUInt32, payloadLength buf hdr)

theorem toNat_payloadLength {buf : NetBuffer} (small : buf.len.toNat < 65536)
    (header : hdr.ihl.toNat ≤ hdr.totalLength.toNat) :
    (payloadLength buf hdr).toNat =
      if hdr.ihl.toNat ≤ buf.len.toNat then
        min (buf.len.toNat - hdr.ihl.toNat) (hdr.totalLength.toNat - hdr.ihl.toNat)
      else hdr.totalLength.toNat - hdr.ihl.toNat := by
  have ihl := hdr.ihl.toNat_lt
  have word := hdr.totalLength.toNat_lt
  simp only [payloadLength, UInt32.lt_iff_toNat_lt, apply_ite UInt32.toNat, UInt32.toNat_sub,
    UInt8.toNat_toUInt32, UInt16.toNat_toUInt32]
  split_ifs <;> omega

/-- **A packet is dispatched with received bytes only** exactly when its header was received, or
when the header says that nothing follows it. -/
theorem dispatched_inside_iff {host : Host} {call : Call}
    (room : call.buf.offset.toNat + call.buf.len.toNat ≤ bufferSize)
    (isHdr : readHeader call.buf.memory = hdr) (admitted : Admitted host call.buf hdr)
    (whole : ¬hdr.IsFragment) (table : ReasmTable) :
    let start := (dispatchedWindow call.buf hdr).1.toNat
    let length := (dispatchedWindow call.buf hdr).2.toNat
    ipReceive host table call =
        (table, ipDispatchPayload host hdr.protocol ((call.buf.data.drop start).take length)) ∧
      ((∀ i, start ≤ i → i < start + length → call.buf.offset.toNat ≤ i ∧
          i < call.buf.offset.toNat + call.buf.len.toNat) ↔
        hdr.ihl.toNat ≤ call.buf.len.toNat ∨ hdr.totalLength.toNat = hdr.ihl.toNat) := by
  have ihl := hdr.ihl.toNat_lt
  have header : hdr.ihl.toNat ≤ hdr.totalLength.toNat := admitted.2.2.2.2.2.2.2
  rw [bufferSize] at room
  have start : (dispatchedWindow call.buf hdr).1.toNat = call.buf.offset.toNat + hdr.ihl.toNat := by
    rw [dispatchedWindow, UInt32.toNat_add, UInt8.toNat_toUInt32]
    omega
  have length := @toNat_payloadLength hdr call.buf (by omega) header
  refine ⟨?_, ?_⟩
  · rw [start, ← List.drop_drop]
    simp only [ipReceive, isHdr, if_pos admitted, if_neg whole]
    rfl
  · rw [start]
    simp only [dispatchedWindow, length]
    constructor
    · intro inside
      by_contra! outside
      have := inside (call.buf.offset.toNat + hdr.ihl.toNat) (le_refl _)
        (by rw [if_neg (by omega)]; omega)
      omega
    · rintro received i lower upper
      split at upper <;> omega

/-- A received packet is dispatched with received bytes. -/
theorem payload_dispatched :
    let buf := (callOf (lan 0x0A000002 1500) ((udpHeader 64 7).bytes ++ [1, 2, 3])).buf
    let window := dispatchedWindow buf (udpHeader 64 7)
    ∀ i, window.1.toNat ≤ i → i < window.1.toNat + window.2.toNat →
      buf.offset.toNat ≤ i ∧ i < buf.offset.toNat + buf.len.toNat :=
  (@dispatched_inside_iff (udpHeader 64 7) plainHost (callOf (lan 0x0A000002 1500) _) (by decide)
    (by decide +kernel) (by decide +kernel) (by decide) fun _ => zeroEntry).2.mpr
    (.inl (by decide))

/-- A packet of 20 bytes says that its header has 24 and that 4 bytes follow. These 4 are handed
out, and none of them was received. -/
theorem unreceived_bytes_dispatched :
    let hdr := { udpHeader 64 7 with versionIhl := 0x46, totalLength := 28 }.sealed
    let call := callOf (lan 0x0A000002 1500) hdr.bytes
    call.buf.offset = 0 ∧ call.buf.len = 20 ∧ dispatchedWindow call.buf hdr = (24, 4) ∧
      (ipReceive plainHost (fun _ => zeroEntry) call).2 = some ⟨.udp, [0, 0, 0, 0]⟩ := by
  decide +kernel

end FunsOS.Ip
