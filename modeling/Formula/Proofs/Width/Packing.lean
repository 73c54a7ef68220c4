import Mathlib

/-!
The bits of floating-point numbers, for both widths at once. A pattern of bits is a sign, an
exponent and a mantissa. Unpacking a pattern and packing it again gives the same bits, two
changes of the sign cancel, and multiplying by one changes nothing.
-/

set_option autoImplicit false

namespace Formula.Packing

open Float.Model (Format UnpackedFloat totalExponent)
open Float.Model.UnpackedFloat

variable {spec : Format}

theorem ofBitVec_toBitVec (s : Sign) : Sign.ofBitVec s.toBitVec = s := by
  cases s <;> rfl

theorem toBitVec_ofBitVec (b : BitVec 1) : (Sign.ofBitVec b).toBitVec = b := by
  revert b
  decide

theorem neg_neg_sign (s : Sign) : - -s = s := by
  cases s <;> rfl

theorem unpackSign_packComponents (s : Sign) (e : BitVec spec.exponentBits)
    (m : BitVec spec.mantissaBitsWithoutImplicit) :
    unpackSign (packComponents spec s e m) = s.toBitVec := by
  ext i hi
  obtain rfl : i = 0 := by omega
  simp [unpackSign, packComponents, BitVec.getLsbD_append, BitVec.getElem_append]

theorem packComponents_unpack (b : BitVec spec.numBits) :
    packComponents spec (Sign.ofBitVec (unpackSign b)) (unpackExponent b) (unpackMantissa b) =
      b := by
  have hm := spec.hm
  have he := spec.he
  apply BitVec.eq_of_getLsbD_eq
  intro i hi
  simp only [packComponents, toBitVec_ofBitVec, BitVec.getLsbD_append, unpackMantissa,
    unpackExponent, unpackSign, BitVec.getLsbD_cast, BitVec.getLsbD_extractLsb]
  have hbits : spec.numBits = 1 + spec.exponentBits + spec.mantissaBitsWithoutImplicit := rfl
  by_cases hmantissa : i < spec.mantissaBitsWithoutImplicit
  · simp only [hmantissa, if_true, Nat.zero_add, Bool.and_eq_right_iff_imp, decide_eq_true_eq]
    intro _
    omega
  · by_cases hexponent : i - spec.mantissaBitsWithoutImplicit < spec.exponentBits
    · simp only [hmantissa, hexponent, if_true, if_false]
      have hsum :
          spec.mantissaBitsWithoutImplicit + (i - spec.mantissaBitsWithoutImplicit) = i := by
        omega
      rw [hsum]
      simp
      omega
    · simp only [hmantissa, hexponent, if_false]
      rw [show spec.mantissaBitsWithoutImplicit + spec.exponentBits +
          (i - spec.mantissaBitsWithoutImplicit - spec.exponentBits) = i by omega]
      simp
      omega

theorem bias_eq (spec : Format) : (spec.exponentBias : Int) = 2 ^ (spec.exponentBits - 1) - 1 := by
  have hpos : 0 < 2 ^ (spec.exponentBits - 1) := Nat.two_pow_pos _
  unfold Format.exponentBias
  push_cast [Nat.cast_sub hpos]
  rfl

theorem minExponent_eq (spec : Format) :
    spec.minExponent = 1 - (spec.exponentBias + spec.mantissaBitsWithoutImplicit) := by
  rw [bias_eq]
  simp only [Format.minExponent, Format.mantissaBits]
  push_cast
  ring

theorem toNat_implicit_append {n : Nat} (m : BitVec n) : (1#1 ++ m).toNat = 2 ^ n + m.toNat := by
  rw [BitVec.toNat_append, ← Nat.shiftLeft_add_eq_or_of_lt m.isLt]
  simp [Nat.shiftLeft_eq]

theorem log2_implicit_append {n : Nat} (m : BitVec n) : (1#1 ++ m).toNat.log2 = n := by
  rw [toNat_implicit_append, Nat.log2_eq_iff (by positivity)]
  have := m.isLt
  rw [Nat.pow_succ]
  omega

/-- The exponent of a finite number is the one that its format asks for. -/
def Settled (spec : Format) : UnpackedFloat → Prop
  | .finite _ m e _ => spec.targetExponent (totalExponent m e) = e
  | _ => True

theorem ofNat_implicit_append {n : Nat} (m : BitVec n) :
    BitVec.ofNat n (1#1 ++ m).toNat = m := by
  apply BitVec.eq_of_toNat_eq
  rw [BitVec.toNat_ofNat, toNat_implicit_append, Nat.add_mod_left, Nat.mod_eq_of_lt m.isLt]

theorem log2_subnormal_lt {n : Nat} {m : BitVec n} (nonzero : ¬m = 0#n) : m.toNat.log2 < n := by
  rw [Nat.log2_lt]
  · exact m.isLt
  · simpa [← BitVec.toNat_inj] using nonzero

theorem settled_unpack (b : BitVec spec.numBits) : Settled spec (unpack spec b) := by
  fun_cases unpack spec b with
  | case1 => trivial
  | case2 => trivial
  | case3 => trivial
  | case4 mantissa exponent e sign s special zero nonzero =>
      have hlog := log2_subnormal_lt nonzero
      simp only [Settled, Format.targetExponent, totalExponent, minExponent_eq,
        Format.mantissaBits, e, zero, BitVec.toNat_zero]
      omega
  | case5 mantissa exponent e sign s special nonzero =>
      have hpos : 0 < exponent.toNat := by
        simpa [BitVec.toNat_pos, BitVec.pos_iff_ne_zero] using nonzero
      simp only [Settled, Format.targetExponent, totalExponent, log2_implicit_append,
        minExponent_eq, Format.mantissaBits, e]
      omega

/-- Packing is inverse to unpacking, given at least two bits for the exponent. -/
theorem pack_unpack (wide : 2 ≤ spec.exponentBits) {b : BitVec spec.numBits}
    (valid : spec.Valid b) : pack spec (unpack spec b) = b := by
  have hparts := packComponents_unpack b
  have hfour : 2 ^ 2 ≤ 2 ^ spec.exponentBits := Nat.pow_le_pow_right (by decide) wide
  fun_cases unpack spec b with
  | case1 mantissa exponent sign s special zero =>
      refine Eq.trans ?_ hparts
      change packComponents spec s _ _ = packComponents spec s exponent mantissa
      rw [special, zero]
      rfl
  | case2 mantissa exponent special nonzero =>
      exact (valid.eq_packedNaN special nonzero).symm
  | case3 mantissa exponent sign s special subnormal zero =>
      refine Eq.trans ?_ hparts
      change packComponents spec s _ _ = packComponents spec s exponent mantissa
      rw [subnormal, zero]
      rfl
  | case4 mantissa exponent e sign s special subnormal nonzero =>
      have hlog := log2_subnormal_lt nonzero
      have hbiased : (e + 1 + spec.exponentBias + spec.mantissaBitsWithoutImplicit).toNat = 1 := by
        simp only [e, subnormal, BitVec.toNat_zero]
        omega
      have hshort : mantissa.toNat.log2 + 1 ≠ spec.mantissaBits := by
        unfold Format.mantissaBits
        omega
      refine Eq.trans ?_ hparts
      simp only [pack, hbiased]
      rw [if_neg (by omega), if_neg hshort]
      change packComponents spec s _ _ = packComponents spec s exponent mantissa
      rw [subnormal, BitVec.ofNat_toNat, BitVec.setWidth_eq]
  | case5 mantissa exponent e sign s special normal =>
      have hbiased :
          (e + spec.exponentBias + spec.mantissaBitsWithoutImplicit).toNat = exponent.toNat := by
        simp only [e]
        omega
      have hfull : (1#1 ++ mantissa).toNat.log2 + 1 = spec.mantissaBits := by
        rw [log2_implicit_append, Format.mantissaBits, Nat.add_comm]
      have hfinite : ¬2 ^ spec.exponentBits ≤ exponent.toNat + 1 := by
        have hlt := exponent.isLt
        have hne : exponent.toNat ≠ 2 ^ spec.exponentBits - 1 := by
          simpa [← BitVec.toNat_inj, BitVec.neg_one_eq_allOnes] using special
        omega
      refine Eq.trans ?_ hparts
      simp only [pack, hbiased]
      rw [if_neg hfinite, if_pos hfull]
      change packComponents spec s _ _ = packComponents spec s exponent mantissa
      rw [BitVec.ofNat_toNat, BitVec.setWidth_eq, ofNat_implicit_append]

theorem exists_unpack_eq_neg {b : BitVec spec.numBits} (valid : spec.Valid b) :
    ∃ b', spec.Valid b' ∧ unpack spec b' = neg (unpack spec b) := by
  by_cases nan : unpackExponent b = -1#_ ∧ unpackMantissa b ≠ 0#_
  · exact ⟨b, valid, by simp [unpack, nan, neg]⟩
  · refine ⟨packComponents spec (-Sign.ofBitVec (unpackSign b)) (unpackExponent b)
      (unpackMantissa b), ⟨fun special nonzero => ?_⟩, ?_⟩
    · rw [unpackExponent_packComponents] at special
      rw [unpackMantissa_packComponents] at nonzero
      exact absurd ⟨special, nonzero⟩ nan
    · simp only [unpack, unpackMantissa_packComponents, unpackExponent_packComponents,
        unpackSign_packComponents, ofBitVec_toBitVec]
      split_ifs <;> rfl

theorem unpack_pack_neg (wide : 2 ≤ spec.exponentBits) {b : BitVec spec.numBits}
    (valid : spec.Valid b) :
    unpack spec (pack spec (neg (unpack spec b))) = neg (unpack spec b) := by
  obtain ⟨b', valid', hneg⟩ := exists_unpack_eq_neg valid
  rw [← hneg, pack_unpack wide valid']

theorem neg_neg (u : UnpackedFloat) : neg (neg u) = u := by
  cases u <;> simp [neg, neg_neg_sign]

theorem shiftRight_two_pow_mul (k m : Nat) :
    (⟨2 ^ k * m, false, false⟩ : ExtendedMantissa) >>> k = ⟨m, false, false⟩ := by
  induction k generalizing m with
  | zero => simp [HShiftRight.hShiftRight, Nat.repeat]
  | succ k ih =>
      change ((⟨2 ^ (k + 1) * m, false, false⟩ : ExtendedMantissa) >>> k).shiftRightOne = _
      rw [Nat.pow_succ, Nat.mul_assoc, ih]
      simp [ExtendedMantissa.shiftRightOne]

theorem log2_two_pow_mul (k : Nat) {m : Nat} (hm : m ≠ 0) : (2 ^ k * m).log2 = m.log2 + k := by
  induction k with
  | zero => simp
  | succ k ih =>
      have hpos : 2 ^ k * m ≠ 0 := by positivity
      rw [Nat.pow_succ, Nat.mul_right_comm, Nat.mul_comm, Nat.log2_two_mul hpos, ih]
      rfl

/-- A number of zeros below a mantissa are shifted out without a trace. -/
theorem shiftToTargetExponent_of_settled {m : Nat} {e : Int} (hm : 0 < m)
    (settled : spec.targetExponent (totalExponent m e) = e) (k : Nat) :
    shiftToTargetExponent spec (2 ^ k * m) (e - k) .exact = (⟨m, false, false⟩, e) := by
  have htotal : totalExponent (2 ^ k * m) (e - k) = totalExponent m e := by
    simp only [totalExponent, log2_two_pow_mul k (by omega : m ≠ 0)]
    omega
  have hshift : (e - (e - (k : Int))).toNat = k := by omega
  simp only [shiftToTargetExponent, shiftToExponent, htotal, settled, hshift,
    ExtendedMantissa.ofMantissaAndAccuracy, shiftRight_two_pow_mul, sub_add_cancel]

theorem roundWithAccuracy_of_settled {m : Nat} {e : Int} (hm : 0 < m)
    (settled : spec.targetExponent (totalExponent m e) = e) (s : Sign) (k : Nat) :
    roundWithAccuracy spec s (2 ^ k * m) (e - k) .exact = .finite s m e hm := by
  have hfirst := shiftToTargetExponent_of_settled hm settled k
  have hsecond : shiftToTargetExponent spec m e .exact = (⟨m, false, false⟩, e) := by
    simpa using shiftToTargetExponent_of_settled hm settled 0
  simp only [roundWithAccuracy, hfirst]
  change (if h : _ then _ else _) = _
  have hrounded : (⟨m, false, false⟩ : ExtendedMantissa).roundedMantissa = m := rfl
  simp only [hrounded, hsecond]
  rw [dif_neg (by omega)]

theorem one_mul_sign (s : Sign) : Sign.positive * s = s := by
  cases s <;> rfl

/-- The one of a format is neutral for settled numbers. -/
theorem one_mul_of_settled {u : UnpackedFloat} (settled : Settled spec u) (k : Nat)
    (hone : 0 < 2 ^ k) : mul spec (.finite .positive (2 ^ k) (-k) hone) u = u := by
  cases u with
  | infinity s => simp [mul, one_mul_sign]
  | notANumber => rfl
  | zero s => simp [mul, one_mul_sign]
  | finite s m e hm =>
      simp only [mul, one_mul_sign]
      rw [← roundWithAccuracy_of_settled hm settled s k]
      congr 1
      omega

theorem mul_comm_sign (s t : Sign) : s * t = t * s := by
  cases s <;> cases t <;> rfl

theorem mul_comm (a b : UnpackedFloat) : mul spec a b = mul spec b a := by
  cases a <;> cases b <;> simp only [mul, mul_comm_sign, Nat.mul_comm, Int.add_comm]

end Formula.Packing
