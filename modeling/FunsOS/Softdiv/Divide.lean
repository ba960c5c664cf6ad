import Mathlib.Tactic.Ring

/-!
# Division of 64-bit integers in software

`__udivdi3` of `lib/softdiv.c` shifts the divisor left until it is above the dividend or its top
bit is set, and then subtracts it while it is shifted back. Both loops end, and with the signed
wrappers they compute the quotient and the remainder (`division_correct`).
-/

set_option autoImplicit false

namespace FunsOS.Softdiv

abbrev Word := BitVec 64

/-- The loop that aligns `den` with `num`; `none` when the fuel does not suffice. -/
def alignLoop (num : Word) : Nat → Word → Word → Option (Word × Word)
  | 0, _, _ => none
  | fuel + 1, den, bit =>
    if den ≤ num ∧ den &&& 1 <<< 63 = 0 then alignLoop num fuel (den <<< 1) (bit <<< 1)
    else some (den, bit)

/-- The loop that subtracts `den` and shifts it back. -/
def subtractLoop : Nat → Word → Word → Word → Word → Option Word
  | 0, _, _, _, _ => none
  | fuel + 1, num, den, bit, quot =>
    if bit = 0 then some quot
    else if den ≤ num then subtractLoop fuel (num - den) (den >>> 1) (bit >>> 1) (quot ||| bit)
    else subtractLoop fuel num (den >>> 1) (bit >>> 1) quot

/-- `__udivdi3`. -/
def udivdi3 (num den : Word) : Option Word :=
  if den = 0 then some 0
  else do
    let (den, bit) ← alignLoop num 64 den 1
    subtractLoop 65 num den bit 0

/-- `__umoddi3`. -/
def umoddi3 (num den : Word) : Option Word :=
  if den = 0 then some 0 else (udivdi3 num den).map fun quot => num - quot * den

/-- `__divdi3`; a word is negative when its top bit is set. -/
def divdi3 (num den : Word) : Option Word :=
  (udivdi3 num.abs den.abs).map fun result => if num.msb != den.msb then -result else result

/-- `__moddi3`. -/
def moddi3 (num den : Word) : Option Word :=
  (umoddi3 num.abs den.abs).map fun result => if num.msb then -result else result

variable {num den bit quot : Word}

theorem and_top : den &&& 1 <<< 63 = 0 ↔ den.toNat < 2 ^ 63 := by
  have top : (1 <<< 63 : Word) = BitVec.twoPow 64 63 := by decide
  have bit := BitVec.msb_eq_decide den
  rw [BitVec.msb_eq_getLsbD_last] at bit
  rw [top, BitVec.and_twoPow, bit, ← Nat.not_le]
  simp

theorem mul_two_pow_succ {d k : Nat} : d * 2 ^ (k + 1) = 2 * (d * 2 ^ k) := by
  ring

/-- Aligned, the divisor and the bit are shifted by the same number, and twice the divisor is
above the dividend. -/
theorem alignLoop_spec {fuel k d : Nat} (enough : 64 ≤ fuel + k) (few : k < 64)
    (isDen : den.toNat = d * 2 ^ k) (isBit : bit.toNat = 2 ^ k) (positive : 0 < d) :
    ∃ j < 64, ∃ den' bit', alignLoop num fuel den bit = some (den', bit') ∧
      den'.toNat = d * 2 ^ j ∧ bit'.toNat = 2 ^ j ∧ num.toNat < 2 * (d * 2 ^ j) := by
  induction fuel generalizing k den bit with
  | zero => omega
  | succ fuel ih =>
    rw [alignLoop]
    split_ifs with more
    · have below := and_top.mp more.2
      have shift : 2 ^ (k + 1) < 2 ^ 64 := by
        have := Nat.le_mul_of_pos_left (2 ^ k) positive
        omega
      refine @ih _ _ (k + 1) (by omega) ((Nat.pow_lt_pow_iff_right (by decide)).mp shift) ?_ ?_
      · rw [mul_two_pow_succ, BitVec.toNat_shiftLeft, Nat.shiftLeft_eq]
        omega
      · rw [BitVec.toNat_shiftLeft, Nat.shiftLeft_eq, isBit]
        exact Nat.mod_eq_of_lt shift
    · refine ⟨k, few, den, bit, rfl, isDen, isBit, ?_⟩
      rw [and_top, not_and_or, BitVec.le_def] at more
      have := num.isLt
      omega

/-- With `left` rounds to go, the loop adds the quotient to the bits that are already set. -/
theorem subtractLoop_spec {fuel left d q : Nat} (enough : left < fuel)
    (isDen : den.toNat = d * 2 ^ left / 2) (isBit : bit.toNat = 2 ^ left / 2)
    (isQuot : quot.toNat = 2 ^ left * q) (small : num.toNat < d * 2 ^ left) :
    ∃ out, subtractLoop fuel num den bit quot = some out ∧
      out.toNat = quot.toNat + num.toNat / d := by
  induction fuel generalizing left num den bit quot q with
  | zero => omega
  | succ fuel ih => cases left with
    | zero =>
      refine ⟨quot, if_pos (BitVec.eq_of_toNat_eq isBit), ?_⟩
      rw [Nat.div_eq_of_lt (by simpa using small), Nat.add_zero]
    | succ left =>
      have isDen : den.toNat = d * 2 ^ left := by rw [mul_two_pow_succ] at isDen; omega
      have isBit : bit.toNat = 2 ^ left := by omega
      have running : bit ≠ 0 := fun zero => (Nat.two_pow_pos left).ne (by rw [← isBit, zero]; rfl)
      have shifted {x : Word} : (x >>> 1).toNat = x.toNat / 2 := BitVec.toNat_ushiftRight ..
      rw [subtractLoop, if_neg running]
      split_ifs with fits
      · have isSet : (quot ||| bit).toNat = quot.toNat + 2 ^ left := by
          rw [BitVec.toNat_or, isBit, isQuot]
          exact (Nat.two_pow_add_eq_or_of_lt (Nat.pow_lt_pow_succ Nat.one_lt_two) q).symm
        have rest : (num - den).toNat = num.toNat - d * 2 ^ left := by
          rw [BitVec.toNat_sub_of_le fits, isDen]
        rw [BitVec.le_def, isDen] at fits
        obtain ⟨out, divided, isOut⟩ := @ih (num - den) (den >>> 1) (bit >>> 1) (quot ||| bit) left
          (2 * q + 1) (by omega) (by rw [shifted, isDen]) (by rw [shifted, isBit])
          (by rw [isSet, isQuot]; ring) (by rw [mul_two_pow_succ] at small; omega)
        refine ⟨out, divided, ?_⟩
        have : 2 ^ left ≤ num.toNat / d :=
          (Nat.le_div_iff_mul_le (Nat.pos_of_lt_mul_right small)).mpr (by rwa [Nat.mul_comm])
        rw [isOut, isSet, rest, Nat.sub_mul_div]
        omega
      · rw [BitVec.le_def] at fits
        exact @ih num (den >>> 1) (bit >>> 1) quot left (2 * q) (by omega)
          (by rw [shifted, isDen]) (by rw [shifted, isBit]) (by rw [isQuot]; ring) (by omega)

theorem udivdi3_eq (nonzero : den ≠ 0) : udivdi3 num den = some (num / den) := by
  obtain ⟨j, few, den', bit', aligned, isDen, isBit, small⟩ :=
    @alignLoop_spec num den 1 64 0 den.toNat (by decide) (by decide) (by simp) rfl
      (BitVec.toNat_pos_of_ne_zero nonzero)
  rw [← mul_two_pow_succ] at small
  obtain ⟨out, divided, isOut⟩ := @subtractLoop_spec num den' bit' 0 65 (j + 1) den.toNat 0
    (by omega) (by rw [mul_two_pow_succ]; omega) (by omega) rfl small
  rw [udivdi3, if_neg nonzero, aligned]
  exact divided.trans (congrArg some (BitVec.eq_of_toNat_eq (by simpa using isOut)))

theorem umoddi3_eq (nonzero : den ≠ 0) : umoddi3 num den = some (num % den) := by
  have below := Nat.div_mul_le_self num.toNat den.toNat
  have rest := @Nat.mod_eq_sub_div_mul num.toNat den.toNat
  have word := num.isLt
  rw [umoddi3, if_neg nonzero, udivdi3_eq nonzero, Option.map_some, Option.some_inj,
    ← BitVec.toNat_inj, BitVec.toNat_sub, BitVec.toNat_mul, BitVec.toNat_udiv, BitVec.toNat_umod,
    rest, Nat.mod_eq_of_lt (below.trans_lt word)]
  omega

theorem abs_ne_zero (nonzero : den ≠ 0) : den.abs ≠ 0 := by
  rw [BitVec.abs_eq]
  split
  · exact mt BitVec.neg_eq_zero_iff.mp nonzero
  · exact nonzero

theorem divdi3_eq (nonzero : den ≠ 0) : divdi3 num den = some (num.sdiv den) := by
  rw [divdi3, udivdi3_eq (abs_ne_zero nonzero), BitVec.sdiv_eq, BitVec.abs_eq, BitVec.abs_eq]
  cases num.msb <;> cases den.msb <;> rfl

theorem moddi3_eq (nonzero : den ≠ 0) : moddi3 num den = some (num.srem den) := by
  rw [moddi3, umoddi3_eq (abs_ne_zero nonzero), BitVec.srem_eq, BitVec.abs_eq, BitVec.abs_eq]
  cases num.msb <;> cases den.msb <;> rfl

/-- **The divisions are right.** -/
theorem division_correct (nonzero : den ≠ 0) :
    (∃ q r, udivdi3 num den = some q ∧ umoddi3 num den = some r ∧
      q.toNat = num.toNat / den.toNat ∧ r.toNat = num.toNat % den.toNat) ∧
    (num ≠ BitVec.intMin 64 ∨ den ≠ -1 → ∃ q r, divdi3 num den = some q ∧
      moddi3 num den = some r ∧ q.toInt = num.toInt.tdiv den.toInt ∧
      num.toInt = q.toInt * den.toInt + r.toInt ∧ r.toInt.natAbs < den.toInt.natAbs ∧
      0 ≤ r.toInt * num.toInt) := by
  refine ⟨⟨_, _, udivdi3_eq nonzero, umoddi3_eq nonzero, rfl, rfl⟩, fun fits => ?_⟩
  refine ⟨_, _, divdi3_eq nonzero, moddi3_eq nonzero, ?_⟩
  have positive : 0 < den.toInt.natAbs :=
    Int.natAbs_pos.mpr fun zero => nonzero (BitVec.eq_of_toInt_eq zero)
  rw [BitVec.toInt_sdiv_of_ne_or_ne _ _ fits, BitVec.toInt_srem, Int.natAbs_tmod]
  refine ⟨rfl, (Int.tdiv_mul_add_tmod ..).symm, Nat.mod_lt _ positive, ?_⟩
  obtain up | down := Int.le_total 0 num.toInt
  · exact Int.mul_nonneg (Int.tmod_nonneg _ up) up
  · have := Int.tmod_nonneg den.toInt (Int.neg_nonneg_of_nonpos down)
    rw [Int.neg_tmod] at this
    exact Int.mul_nonneg_of_nonpos_of_nonpos (by omega) down

/-- Minus seven divided by two, rounded towards zero, leaves minus one. -/
theorem minus_seven_by_two :
    ∃ q r, divdi3 (-7) 2 = some q ∧ moddi3 (-7) 2 = some r ∧ q.toInt = (-7 : Word).toInt.tdiv 2 ∧
      (-7 : Word).toInt = q.toInt * 2 + r.toInt ∧ r.toInt.natAbs < 2 ∧
      0 ≤ r.toInt * (-7 : Word).toInt :=
  (@division_correct (-7) 2 (by decide)).2 (.inl (by decide))

end FunsOS.Softdiv
