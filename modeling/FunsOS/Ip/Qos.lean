import FunsOS.Ip.RoundTrip

/-!
# Rate limiting of queued packets

`net/ip.c` queues packets in three bands. `qos_dequeue` first adds the tokens for the time since
the last update, and a packet costs as many tokens as it has bytes. All of this is computed in 32
bits; what wraps around is lost, never gained, so that no run dequeues more than the burst and the
rate allow (`dequeued_within_rate`).

The statistics and the queue discipline, which nothing here reads, are left out.
-/

set_option autoImplicit false

namespace FunsOS.Ip

/-- `tbf_params_t`. -/
structure TbfParams where
  rate : UInt32
  burst : UInt32
  tokens : UInt32
  lastUpdateMs : UInt32

structure Qos where
  queues : Fin 3 → List NetBuffer
  queueCount : UInt32
  tbf : TbfParams

def qosDscpToBand (dscp : UInt8) : Fin 3 :=
  let dscp := dscp &&& 0x3F
  if 40 ≤ dscp then 2 else if 24 ≤ dscp then 1 else 0

/-- `allocated` says whether `kmalloc` has room for the node. -/
def qosEnqueue (s : Qos) (buf : Option NetBuffer) (tos : UInt8) (allocated : Bool) : Qos × Int :=
  match buf with
  | none => (s, -1)
  | some buf =>
    if 256 ≤ s.queueCount ∨ allocated = false then (s, -1)
    else
      let band := qosDscpToBand (tos &&& 0xFC)
      ({ s with
        queues := Function.update s.queues band (s.queues band ++ [buf])
        queueCount := s.queueCount + 1 }, 0)

/-- The first part of `qos_dequeue`. -/
def replenish (tbf : TbfParams) (ticks : UInt32) : TbfParams :=
  let now := ticks * 10
  let elapsed := now - tbf.lastUpdateMs
  if 0 < elapsed ∧ 0 < tbf.rate then
    let tokens := tbf.tokens + tbf.rate * elapsed / 1000
    { tbf with tokens := if tbf.burst < tokens then tbf.burst else tokens, lastUpdateMs := now }
  else tbf

/-- The loop of `qos_dequeue` over the bands. -/
def dequeueFrom (s : Qos) : List (Fin 3) → Qos × Option NetBuffer
  | [] => (s, none)
  | band :: bands =>
    match s.queues band with
    | [] => dequeueFrom s bands
    | result :: queue =>
      if 0 < s.tbf.rate ∧ s.tbf.tokens < result.len then dequeueFrom s bands
      else
        let tokens := if 0 < s.tbf.rate ∧ result.len ≤ s.tbf.tokens then s.tbf.tokens - result.len
          else s.tbf.tokens
        ({ s with
          queues := Function.update s.queues band queue
          queueCount := s.queueCount - 1
          tbf := { s.tbf with tokens } }, some result)

def qosDequeue (s : Qos) (ticks : UInt32) : Qos × Option NetBuffer :=
  dequeueFrom { s with tbf := replenish s.tbf ticks } [2, 1, 0]

def qosSetRateLimit (s : Qos) (rateBps burstBytes ticks : UInt32) : Qos :=
  { s with tbf := ⟨rateBps, burstBytes, burstBytes, ticks * 10⟩ }

inductive QosCall where
  | enqueue (buf : Option NetBuffer) (tos : UInt8) (allocated : Bool)
  | dequeue

def bytesOf (result : Option NetBuffer) : Nat := result.elim 0 (·.len.toNat)

/-- The bytes that the calls dequeue. Each comes with its time in ticks, of which the timer keeps
32 bits. -/
def dequeuedBytes : Qos → List (Nat × QosCall) → Nat
  | _, [] => 0
  | s, (_, .enqueue buf tos allocated) :: calls =>
    dequeuedBytes (qosEnqueue s buf tos allocated).1 calls
  | s, (ticks, .dequeue) :: calls =>
    let (s, result) := qosDequeue s (.ofNat ticks)
    bytesOf result + dequeuedBytes s calls

variable {s : Qos} {calls : List (Nat × QosCall)} {last ticks t : Nat}

theorem dequeueFrom_spec (limited : 0 < s.tbf.rate) (bands : List (Fin 3)) :
    let out := dequeueFrom s bands
    out.1.tbf.rate = s.tbf.rate ∧ out.1.tbf.lastUpdateMs = s.tbf.lastUpdateMs ∧
      bytesOf out.2 + out.1.tbf.tokens.toNat = s.tbf.tokens.toNat := by
  induction bands with
  | nil => simp [dequeueFrom, bytesOf]
  | cons band bands ih =>
    rw [dequeueFrom]
    split
    · exact ih
    next result _ _ =>
      by_cases short : s.tbf.tokens < result.len
      · rwa [if_pos ⟨limited, short⟩]
      · have enough := UInt32.not_lt.mp short
        simpa [short, limited, enough, bytesOf, UInt32.toNat_sub_of_le _ _ enough] using
          Nat.add_sub_of_le enough

section

variable (limited : 0 < s.tbf.rate) (updated : s.tbf.lastUpdateMs = .ofNat last * 10)
include limited updated

theorem replenish_spec (later : last ≤ ticks) :
    let tbf := replenish s.tbf (.ofNat ticks)
    tbf.rate = s.tbf.rate ∧ tbf.lastUpdateMs = .ofNat ticks * 10 ∧
      tbf.tokens.toNat ≤ s.tbf.tokens.toNat + s.tbf.rate.toNat * (10 * (ticks - last)) / 1000 := by
  have passed : (.ofNat ticks * 10 - s.tbf.lastUpdateMs).toNat ≤ 10 * (ticks - last) := by
    simp only [updated, UInt32.toNat_sub, UInt32.toNat_mul, UInt32.toNat_ofNat', UInt32.reduceToNat]
    omega
  have gained : (s.tbf.rate * (.ofNat ticks * 10 - s.tbf.lastUpdateMs) / 1000).toNat ≤
      s.tbf.rate.toNat * (10 * (ticks - last)) / 1000 := by
    rw [UInt32.toNat_div, UInt32.toNat_mul]
    apply Nat.div_le_div_right
    exact (Nat.mod_le _ _).trans (Nat.mul_le_mul_left _ passed)
  rw [replenish]
  split_ifs with runs
  · refine ⟨rfl, rfl, ?_⟩
    generalize s.tbf.rate * _ / 1000 = gain at gained
    have sum : (s.tbf.tokens + gain).toNat ≤ s.tbf.tokens.toNat + gain.toNat := by
      rw [UInt32.toNat_add]
      exact Nat.mod_le _ _
    dsimp only
    split_ifs with above
    · exact (UInt32.lt_iff_toNat_lt.mp above).le.trans (by omega)
    · omega
  · have none : .ofNat ticks * 10 - s.tbf.lastUpdateMs = 0 := by
      simpa [limited, eq_comm] using runs
    rw [UInt32.sub_eq_iff_eq_add, UInt32.zero_add] at none
    exact ⟨rfl, none.symm, Nat.le_add_right _ _⟩

theorem dequeuedBytes_le (ordered : (last :: calls.map (·.1)).Pairwise (· ≤ ·))
    (past : ∀ call ∈ calls, call.1 ≤ t) :
    dequeuedBytes s calls ≤ s.tbf.tokens.toNat + s.tbf.rate.toNat * (10 * (t - last)) / 1000 := by
  induction calls generalizing s last with
  | nil => exact Nat.zero_le _
  | cons call calls ih =>
    obtain ⟨ticks, call⟩ := call
    obtain ⟨now, others⟩ := List.forall_mem_cons.mp past
    cases call with
    | enqueue buf tos allocated =>
      have sameTbf : (qosEnqueue s buf tos allocated).1.tbf = s.tbf := by
        cases buf <;> simp only [qosEnqueue]
        split <;> rfl
      rw [dequeuedBytes, ← sameTbf]
      exact ih (by rwa [sameTbf]) (by rwa [sameTbf])
        (ordered.sublist (.cons_cons _ (.cons _ (.refl _)))) others
    | dequeue =>
      have later : last ≤ ticks := List.rel_of_pairwise_cons ordered (List.mem_cons_self ..)
      obtain ⟨sameRate, refilled, gained⟩ := replenish_spec limited updated later
      rw [← sameRate] at limited
      obtain ⟨rate, kept, spent⟩ :=
        @dequeueFrom_spec { s with tbf := replenish s.tbf (.ofNat ticks) } limited [2, 1, 0]
      have rest := ih (by rwa [rate]) (kept.trans refilled) ordered.tail others
      rw [rate, sameRate] at rest
      have whole : s.tbf.rate.toNat * (10 * (ticks - last)) +
          s.tbf.rate.toNat * (10 * (t - ticks)) = s.tbf.rate.toNat * (10 * (t - last)) := by
        rw [← Nat.mul_add, ← Nat.mul_add, Nat.add_comm, Nat.sub_add_sub_cancel now later]
      simp only [dequeuedBytes, qosDequeue] at spent ⊢
      omega

end

/-- **No run after `qos_set_rate_limit` dequeues more** than the burst and what the rate gives. -/
theorem dequeued_within_rate {rate : UInt32} (limited : 0 < rate) (burst : UInt32) (s : Qos)
    (ordered : (last :: calls.map (·.1)).Pairwise (· ≤ ·)) (past : ∀ call ∈ calls, call.1 ≤ t) :
    dequeuedBytes (qosSetRateLimit s rate burst (.ofNat last)) calls ≤
      burst.toNat + rate.toNat * (10 * t - 10 * last) / 1000 := by
  rw [← Nat.mul_sub]
  exact dequeuedBytes_le limited rfl ordered past

/-- With a thousand bytes a second and a burst of three bytes, two packets of three bytes within
a tick. -/
theorem six_bytes_in_a_tick :
    let buf := (callOf (lan 0x0A000002 1500) [1, 2, 3]).buf
    let start := qosSetRateLimit ⟨fun _ => [buf, buf], 6, ⟨0, 0, 0, 0⟩⟩ 1000 3 7
    let calls := [(7, .dequeue), (7, .dequeue), (8, .dequeue), (8, .dequeue)]
    dequeuedBytes start calls = 6 ∧ dequeuedBytes start calls ≤ 13 :=
  ⟨by decide +kernel, @dequeued_within_rate _ 7 8 1000 (by decide) 3 _ (by decide) (by decide)⟩

end FunsOS.Ip
