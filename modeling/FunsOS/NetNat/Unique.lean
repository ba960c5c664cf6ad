import FunsOS.Foundation.Runs
import FunsOS.NetNat.Table

/-!
# Unique bindings

An entry in use binds an external endpoint: an address, a port and a protocol. Of
what a call does to the table, only this matters here: it binds one new endpoint in a
free slot, or it binds none, and the other entries keep theirs or are freed
(`step_binds`).

No call looks whether the endpoint it binds is bound already. So the bindings stay
unique exactly if that never is the case (`bindings_unique_iff`). While they are, a
packet to an endpoint that a destination mapping binds goes to the host of that
mapping.
-/

set_option autoImplicit false

namespace FunsOS.NetNat

open Foundation Function NatEntry

/-- An external endpoint. -/
structure Endpoint where
  ip : UInt32
  port : UInt16
  protocol : UInt8
  deriving DecidableEq

def NatEntry.binding (entry : NatEntry) : Option Endpoint :=
  if entry.used then some ⟨entry.externalIp, entry.externalPort, entry.protocol⟩ else none

variable {entry : NatEntry} {s : NatState}

theorem binding_eq_some {e : Endpoint} :
    entry.binding = some e ↔ entry.used ∧ entry.externalIp = e.ip ∧
      entry.externalPort = e.port ∧ entry.protocol = e.protocol := by
  obtain ⟨ip, port, protocol⟩ := e
  rw [binding]
  split
  · rename_i used
    simp [used]
  · rename_i unused
    simp [unused]

variable (s)

def bindings (i : Slot) : Option Endpoint := (s.table i).binding

/-! ## What a call binds -/

def snatBinding (externalIp : UInt32) (protocol : UInt8) : Option Endpoint :=
  if (findFreeSlot s).isSome then
    some ⟨snatExternalIp s externalIp, s.nextEphemeralPort, protocol⟩
  else none

def dnatBinding (externalIp : UInt32) (externalPort : UInt16) (protocol : UInt8) :
    Option Endpoint :=
  if (findFreeSlot s).isSome then some ⟨externalIp, externalPort, protocol⟩ else none

/-- The endpoint `nat_outbound` binds: when it gets to the lookup and finds no mapping. -/
def outboundBinding (packet : List UInt8) (protocol : UInt8) : Option Endpoint :=
  if packet.length < 24 ∨ packet.length < headerLength packet + 4 then none
  else if (findEntry s fun entry => MatchesSnat entry (srcAddr packet)
      (srcPortAt packet (headerLength packet)) protocol).isSome then none
  else snatBinding s 0 protocol

def newBinding : Op → Option Endpoint
  | .addSnat _ _ externalIp protocol => snatBinding s externalIp protocol
  | .addDnat externalIp externalPort _ _ protocol => dnatBinding s externalIp externalPort protocol
  | .outbound packet protocol => outboundBinding s packet protocol
  | .inbound _ _ => none
  | .cleanup => none

variable {s} {i : Slot}

/-- The new bindings are the old ones, some of which may be freed, and `new`, if there is
one, in a slot that was free. -/
def Binds (before : Slot → Option Endpoint) (new : Option Endpoint)
    (after : Slot → Option Endpoint) : Prop :=
  match new with
  | none => ∀ i, after i = before i ∨ after i = none
  | some e => ∃ slot, before slot = none ∧ after = Function.update before slot (some e)

theorem Binds.same {before : Slot → Option Endpoint} : Binds before none before := fun _ => .inl rfl

/-! ## One call -/

theorem bindings_setEntry : bindings (s.setEntry i entry) = update (bindings s) i entry.binding :=
  comp_update binding s.table i entry

theorem bindings_kept (same : entry.binding = (s.table i).binding) :
    bindings (s.setEntry i entry) = bindings s :=
  bindings_setEntry.trans (update_eq_self_iff.mpr same)

theorem touch_none : touch s none = s := rfl

theorem bindings_touch (s : NatState) (found : Option Slot) :
    bindings (touch s found) = bindings s := by
  cases found with
  | none => rfl
  | some i => exact bindings_kept rfl

/-- A free slot binds nothing. -/
theorem findFreeSlot_spec {slot : Slot} (found : findFreeSlot s = some slot) :
    bindings s slot = none := by
  have free := List.find?_some found
  simp only [Bool.not_eq_eq_eq_not, Bool.not_true] at free
  rw [bindings, binding, if_neg (by rw [free]; exact Bool.false_ne_true)]

variable (s)

theorem natAddSnat_binds (internalIp : UInt32) (internalPort : UInt16) (externalIp : UInt32)
    (protocol : UInt8) :
    Binds (bindings s) (snatBinding s externalIp protocol)
      (bindings (natAddSnat s internalIp internalPort externalIp protocol).1) := by
  unfold natAddSnat snatBinding
  cases found : findFreeSlot s with
  | none => exact Binds.same
  | some slot => exact ⟨slot, findFreeSlot_spec found, bindings_setEntry⟩

theorem natAddDnat_binds {externalIp : UInt32} {externalPort : UInt16} {internalIp : UInt32}
    {internalPort : UInt16} {protocol : UInt8} :
    Binds (bindings s) (dnatBinding s externalIp externalPort protocol)
      (bindings (natAddDnat s externalIp externalPort internalIp internalPort protocol).1) := by
  unfold natAddDnat dnatBinding
  cases found : findFreeSlot s with
  | none => exact Binds.same
  | some slot => exact ⟨slot, findFreeSlot_spec found, bindings_setEntry⟩

/-- The mapping an outbound packet uses is found, or added. -/
theorem outboundMapping_binds (ip : UInt32) (port : UInt16) (protocol : UInt8) :
    Binds (bindings s)
      (if (findEntry s fun entry => MatchesSnat entry ip port protocol).isSome then none
        else snatBinding s 0 protocol)
      (bindings (outboundMapping s ip port protocol).1) := by
  cases found : findEntry s fun entry => MatchesSnat entry ip port protocol with
  | some i =>
    simp only [outboundMapping, natLookupSnat, found, Option.isSome_some, if_true]
    rw [bindings_touch]
    exact Binds.same
  | none =>
    have added := natAddSnat_binds s ip port 0 protocol
    simp only [outboundMapping, natLookupSnat, found, touch_none, Option.isSome_none,
      Bool.false_eq_true, if_false]
    split
    · exact added
    · cases findEntry (natAddSnat s ip port 0 protocol).1 fun entry =>
          MatchesSnat entry ip port protocol with
      | none => exact added
      | some i => exact (bindings_touch _ (some i)).symm ▸ added

/-- **One call** binds the endpoint `newBinding` says, and no other. -/
theorem step_binds (op : Op) : Binds (bindings s) (newBinding s op) (bindings (step s op)) := by
  cases op with
  | addSnat internalIp internalPort externalIp protocol =>
    exact natAddSnat_binds s internalIp internalPort externalIp protocol
  | addDnat externalIp externalPort internalIp internalPort protocol =>
    exact natAddDnat_binds s
  | outbound packet protocol =>
    simp only [newBinding, outboundBinding, step, natOutbound]
    by_cases short : packet.length < 24
    · simp only [short, true_or, if_true]
      exact Binds.same
    by_cases cut : packet.length < headerLength packet + 4
    · simp only [short, cut, or_true, if_true, if_false]
      exact Binds.same
    simp only [short, cut, or_self, if_false]
    have mapped := outboundMapping_binds s (srcAddr packet)
      (srcPortAt packet (headerLength packet)) protocol
    cases result : outboundMapping s (srcAddr packet)
        (srcPortAt packet (headerLength packet)) protocol with
    | mk next mapping =>
      rw [result] at mapped
      cases mapping with
      | error code => exact mapped
      | ok i =>
        have kept : bindings (next.setEntry i { next.table i with
            state := .established
            packetsOut := (next.table i).packetsOut + 1
            bytesOut := (next.table i).bytesOut + UInt64.ofNat packet.length }) =
            bindings next := bindings_kept rfl
        exact kept ▸ mapped
  | inbound packet protocol =>
    simp only [newBinding, step, natInbound]
    by_cases short : packet.length < 24
    · simp only [short, if_true]
      exact Binds.same
    by_cases cut : packet.length < headerLength packet + 4
    · simp only [short, cut, if_true, if_false]
      exact Binds.same
    simp only [short, cut, if_false, natLookupDnat]
    cases found : findEntry s fun entry => MatchesDnat entry (dstAddr packet)
        (dstPortAt packet (headerLength packet)) protocol with
    | none => exact Binds.same
    | some i =>
      have kept : bindings ((touch s (some i)).setEntry i { (touch s (some i)).table i with
          state := .established
          packetsIn := ((touch s (some i)).table i).packetsIn + 1
          bytesIn := ((touch s (some i)).table i).bytesIn + UInt64.ofNat packet.length }) =
          bindings (touch s (some i)) := bindings_kept rfl
      rw [bindings_touch] at kept
      exact kept ▸ Binds.same
  | cleanup =>
    intro i
    show (if Expired _ (s.table i) then zeroEntry else s.table i).binding = _ ∨
      (if Expired _ (s.table i) then zeroEntry else s.table i).binding = _
    split
    · exact .inr rfl
    · exact .inl rfl

/-! ## Runs -/

/-- No two entries in use have the same external address, port and protocol. -/
def Unique : Prop :=
  ∀ i j, (s.table i).used → (s.table j).used → (s.table i).externalIp = (s.table j).externalIp →
    (s.table i).externalPort = (s.table j).externalPort →
    (s.table i).protocol = (s.table j).protocol → i = j

/-- A packet to the endpoint of a destination mapping is given to that mapping. -/
def Delivers : Prop :=
  ∀ i, (s.table i).used → (s.table i).type = .dnat ∨ (s.table i).type = .full →
    (natLookupDnat s (s.table i).externalIp (s.table i).externalPort (s.table i).protocol).2 = some i

variable {s}

theorem unique_iff : Unique s ↔ ∀ i j e, bindings s i = some e → bindings s j = some e → i = j := by
  constructor
  · intro unique i j e bindsI bindsJ
    obtain ⟨usedI, ipI, portI, protocolI⟩ := binding_eq_some.mp bindsI
    obtain ⟨usedJ, ipJ, portJ, protocolJ⟩ := binding_eq_some.mp bindsJ
    exact unique i j usedI usedJ (ipI.trans ipJ.symm) (portI.trans portJ.symm)
      (protocolI.trans protocolJ.symm)
  · intro apart i j usedI usedJ ip port protocol
    have bindsI : bindings s i = some ⟨(s.table i).externalIp, (s.table i).externalPort,
        (s.table i).protocol⟩ := binding_eq_some.mpr ⟨usedI, rfl, rfl, rfl⟩
    exact apart i j _ bindsI (binding_eq_some.mpr ⟨usedJ, ip.symm, port.symm, protocol.symm⟩)

/-- With unique bindings the first match of a lookup is the only one. -/
theorem Unique.delivers (unique : Unique s) : Delivers s := by
  intro i used type
  have matches_ : MatchesDnat (s.table i) (s.table i).externalIp (s.table i).externalPort
      (s.table i).protocol := ⟨used, type, rfl, rfl, rfl⟩
  show (findEntry s fun entry => MatchesDnat entry (s.table i).externalIp
    (s.table i).externalPort (s.table i).protocol) = some i
  cases found : findEntry s fun entry => MatchesDnat entry (s.table i).externalIp
      (s.table i).externalPort (s.table i).protocol with
  | none => exact absurd matches_ (findEntry_none found)
  | some j =>
    have passes := List.find?_some found
    obtain ⟨usedJ, -, ip, port, protocol⟩ := of_decide_eq_true passes
    rw [unique j i usedJ used ip port protocol]

/-- The endpoint a call binds is not bound. -/
def Fresh (s : NatState) (op : Op) : Prop :=
  ∀ i, newBinding s op = none ∨ bindings s i ≠ newBinding s op
deriving Decidable

/-- A call keeps the bindings unique exactly if the endpoint it binds was free. -/
theorem unique_step_iff {op : Op} (unique : Unique s) : Unique (step s op) ↔ Fresh s op := by
  have binds := step_binds s op
  rw [unique_iff] at unique ⊢
  rw [Fresh]
  cases new : newBinding s op with
  | none =>
    rw [new] at binds
    refine ⟨fun _ _ => .inl rfl, fun _ i j e bindsI bindsJ => unique i j e ?_ ?_⟩
    · rcases binds i with same | freed
      · exact same ▸ bindsI
      · cases freed.symm.trans bindsI
    · rcases binds j with same | freed
      · exact same ▸ bindsJ
      · cases freed.symm.trans bindsJ
  | some e =>
    rw [new] at binds
    obtain ⟨slot, free, after⟩ := binds
    rw [after]
    constructor
    · intro apart i
      refine .inr fun bound => ?_
      have other : i ≠ slot := by
        rintro rfl
        cases free.symm.trans bound
      refine other (apart i slot e ?_ (update_self _ _ _))
      rw [update_of_ne other, bound]
    · intro fresh i j e' bindsI bindsJ
      have never : ∀ k, bindings s k ≠ some e := fun k =>
        (fresh k).resolve_left (by simp)
      by_cases isI : i = slot
      · by_cases isJ : j = slot
        · rw [isI, isJ]
        · subst isI
          rw [update_self] at bindsI
          rw [update_of_ne isJ] at bindsJ
          cases bindsI
          exact absurd bindsJ (never j)
      · by_cases isJ : j = slot
        · subst isJ
          rw [update_self] at bindsJ
          rw [update_of_ne isI] at bindsI
          cases bindsJ
          exact absurd bindsI (never i)
        · rw [update_of_ne isI] at bindsI
          rw [update_of_ne isJ] at bindsJ
          exact unique i j e' bindsI bindsJ

/-- The module after `nat_init` and `nat_set_external_ip`. -/
def started (s : NatState) (ip : UInt32) : NatState := natSetExternalIp (natInit s) ip

theorem started_unique {ip : UInt32} : Unique (started s ip) :=
  fun _ _ used => absurd used Bool.false_ne_true

/-- **Unique bindings.** In every state of a run from `nat_init`, no two entries in use
bind the same external endpoint, and packets to the endpoint of a destination mapping
are given to that mapping, if every call binds an endpoint that is free; and only then
are the bindings unique throughout. -/
theorem bindings_unique_iff (s : NatState) (ip : UInt32) (ops : List Op) :
    (∀ before, before <+: ops → Unique (before.foldl step (started s ip)) ∧
      Delivers (before.foldl step (started s ip))) ↔
    Meets step Fresh (started s ip) ops := by
  rw [meets_iff_invariant (fun s op unique => unique_step_iff unique) started_unique]
  constructor
  · exact fun both before isPrefix => (both before isPrefix).1
  · exact fun unique before isPrefix => ⟨unique before isPrefix, (unique before isPrefix).delivers⟩

/-! ## A static mapping and an outbound packet -/

/-- The module before its first use. -/
def blank : NatState := ⟨fun _ => zeroEntry, 0, 0, 0, ⟨0, 0, 0, 0, 0, 0, 0⟩⟩

/-- A UDP packet from 10.0.0.5, port 4000, to 8.8.8.8, port 53, with four bytes of data. -/
def query : List UInt8 :=
  [0x45, 0, 0, 28, 0, 1, 0, 0, 64, 17, 0, 0, 10, 0, 0, 5, 8, 8, 8, 8,
    0x0F, 0xA0, 0, 53, 0, 12, 0, 0, 1, 2, 3, 4]

/-- **Two hosts behind one endpoint.** Port 49152 of the gateway is forwarded to one
host; the first outbound UDP packet of another host gets the same port. A reply to
it goes to the first host. -/
theorem forwarded_port_is_given_out :
    ∃ i j, i ≠ j ∧
      bindings ([Op.addDnat 0x01020304 49152 0x0A000002 80 17, .outbound query 17].foldl step
        (started blank 0x01020304)) i = some ⟨0x01020304, 49152, 17⟩ ∧
      bindings ([Op.addDnat 0x01020304 49152 0x0A000002 80 17, .outbound query 17].foldl step
        (started blank 0x01020304)) j = some ⟨0x01020304, 49152, 17⟩ ∧
      ¬ Unique ([Op.addDnat 0x01020304 49152 0x0A000002 80 17, .outbound query 17].foldl step
        (started blank 0x01020304)) := by
  let last := [Op.addDnat 0x01020304 49152 0x0A000002 80 17, .outbound query 17].foldl step
    (started blank 0x01020304)
  have first : bindings last ⟨0, by decide⟩ = some ⟨0x01020304, 49152, 17⟩ := by decide +kernel
  have second : bindings last ⟨1, by decide⟩ = some ⟨0x01020304, 49152, 17⟩ := by decide +kernel
  have apart : (⟨0, by decide⟩ : Slot) ≠ ⟨1, by decide⟩ := by decide
  exact ⟨_, _, apart, first, second, fun unique => apart (unique_iff.mp unique _ _ _ first second)⟩

/-- With a static mapping below the dynamic ports, the outbound packet gets a free port. -/
theorem low_port_is_unique :
    Meets step Fresh (started blank 0x01020304)
        [Op.addDnat 0x01020304 80 0x0A000002 80 17, .outbound query 17, .cleanup] ∧
      ∀ before, before <+: [Op.addDnat 0x01020304 80 0x0A000002 80 17, .outbound query 17,
          .cleanup] →
        Unique (before.foldl step (started blank 0x01020304)) ∧
          Delivers (before.foldl step (started blank 0x01020304)) := by
  have meets : Meets step Fresh (started blank 0x01020304)
      [Op.addDnat 0x01020304 80 0x0A000002 80 17, .outbound query 17, .cleanup] := by
    decide +kernel
  exact ⟨meets, (bindings_unique_iff blank 0x01020304 _).mpr meets⟩

end FunsOS.NetNat
