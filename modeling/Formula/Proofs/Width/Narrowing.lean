import Formula.Proofs.Width.Special

/-!
Narrowing to single precision and signs. The sign of a number is one bit of it in either width, and
the rounding between the widths leaves that bit alone. So whatever is done to the sign only, as by
the negative and the absolute value, may be done before narrowing as well as after it.
-/

set_option autoImplicit false

namespace Formula

open Float.Model (Format UnpackedFloat)
open Float.Model.UnpackedFloat

/-- Replaces the highest bit of a pattern, that of a weight, by what `sign` makes of it. -/
def resign (weight : Nat) (sign : Bool → Bool) (n : Nat) : Nat :=
  (sign (weight ≤ n)).toNat * weight + n % weight

theorem resign_add {weight low : Nat} (lt : low < weight) (sign : Bool → Bool) (negative : Bool) :
    resign weight sign (negative.toNat * weight + low) =
      (sign negative).toNat * weight + low := by
  have rest : (negative.toNat * weight + low) % weight = low := by
    rw [Nat.mul_add_mod_self_right, Nat.mod_eq_of_lt lt]
  have top : decide (weight ≤ negative.toNat * weight + low) = negative := by
    cases negative with
    | false => simpa using lt
    | true => simp
  rw [resign, rest, top]

namespace Packing

variable {spec : Format} {b : BitVec spec.numBits}

def ofNegative (negative : Bool) : Sign := if negative then .negative else .positive

def isNegative : Sign → Bool
  | .negative => true
  | .positive => false

/-- Changes the sign of a number. What is no number has none. -/
def mapSign (sign : Bool → Bool) : UnpackedFloat → UnpackedFloat
  | .infinity s => .infinity (ofNegative (sign (isNegative s)))
  | .notANumber => .notANumber
  | .zero s => .zero (ofNegative (sign (isNegative s)))
  | .finite s m e hm => .finite (ofNegative (sign (isNegative s))) m e hm

theorem neg_eq_mapSign (u : UnpackedFloat) : neg u = mapSign (! ·) u := by
  cases u with
  | notANumber => rfl
  | infinity s => cases s <;> rfl
  | zero s => cases s <;> rfl
  | finite s => cases s <;> rfl

theorem abs_eq_mapSign (u : UnpackedFloat) : UnpackedFloat.abs u = mapSign (fun _ => false) u := by
  cases u <;> rfl

theorem toNat_toBitVec (s : Sign) : s.toBitVec.toNat = (isNegative s).toNat := by
  cases s <;> rfl

theorem isNegative_ofNegative (negative : Bool) : isNegative (ofNegative negative) = negative := by
  cases negative <;> rfl

/-- That the bits are those of a number. -/
def Number (spec : Format) (b : BitVec spec.numBits) : Prop :=
  ¬ (unpackExponent b = -1#_ ∧ unpackMantissa b ≠ 0#_)

theorem toNat_packComponents (s : Sign) (e : BitVec spec.exponentBits)
    (m : BitVec spec.mantissaBitsWithoutImplicit) :
    (packComponents spec s e m).toNat =
      (isNegative s).toNat * 2 ^ (spec.exponentBits + spec.mantissaBitsWithoutImplicit) +
        (e.toNat * 2 ^ spec.mantissaBitsWithoutImplicit + m.toNat) := by
  rw [packComponents, BitVec.toNat_append, BitVec.toNat_append, toNat_toBitVec,
    ← Nat.shiftLeft_add_eq_or_of_lt m.isLt, ← Nat.shiftLeft_add_eq_or_of_lt e.isLt]
  simp only [Nat.shiftLeft_eq, Nat.pow_add]
  ring

/-- Another sign of a number leaves the other bits as they are. -/
theorem pack_mapSign_unpack (wide : 2 ≤ spec.exponentBits) (number : Number spec b)
    (sign : Bool → Bool) :
    pack spec (mapSign sign (unpack spec b)) =
      packComponents spec (ofNegative (sign (isNegative (Sign.ofBitVec (unpackSign b)))))
        (unpackExponent b) (unpackMantissa b) := by
  have valid : spec.Valid (packComponents spec
      (ofNegative (sign (isNegative (Sign.ofBitVec (unpackSign b))))) (unpackExponent b)
      (unpackMantissa b)) := by
    refine ⟨fun special nonzero => absurd ⟨?_, ?_⟩ number⟩
    · rwa [unpackExponent_packComponents] at special
    · rwa [unpackMantissa_packComponents] at nonzero
  rw [← pack_unpack wide valid]
  congr 1
  simp only [unpack, unpackMantissa_packComponents, unpackExponent_packComponents,
    unpackSign_packComponents, ofBitVec_toBitVec]
  split_ifs with special zero subnormal zero'
  · rfl
  · exact absurd ⟨special, zero⟩ number
  · rfl
  · rfl
  · rfl

theorem toNat_pack_mapSign (wide : 2 ≤ spec.exponentBits) (number : Number spec b)
    (sign : Bool → Bool) :
    (pack spec (mapSign sign (unpack spec b))).toNat =
      resign (2 ^ (spec.exponentBits + spec.mantissaBitsWithoutImplicit)) sign b.toNat := by
  have own : b.toNat = _ := congrArg BitVec.toNat (packComponents_unpack b).symm
  have low : (unpackExponent b).toNat * 2 ^ spec.mantissaBitsWithoutImplicit +
      (unpackMantissa b).toNat < 2 ^ (spec.exponentBits + spec.mantissaBitsWithoutImplicit) := by
    have exponent := Nat.mul_le_mul_right (2 ^ spec.mantissaBitsWithoutImplicit)
      (unpackExponent b).isLt
    have mantissa := (unpackMantissa b).isLt
    rw [Nat.succ_mul] at exponent
    rw [Nat.pow_add]
    omega
  rw [pack_mapSign_unpack wide number, own, toNat_packComponents, toNat_packComponents,
    isNegative_ofNegative, resign_add low]

end Packing

namespace Binary

def Value.mapSign (sign : Bool → Bool) : Value → Value
  | .nan => .nan
  | .infinite negative => .infinite (sign negative)
  | .finite negative significand exponent => .finite (sign negative) significand exponent

theorem Value.mapSign_id (v : Value) : v.mapSign id = v := by
  cases v <;> rfl

namespace Format

variable {f : Binary.Format}

theorem decode_resign (positive : 0 < f.signBit) (sign : Bool → Bool) (n : Nat) :
    f.decode (resign f.signBit sign n) = (f.decode n).mapSign sign := by
  have low := Nat.mod_lt n positive
  have magnitude : resign f.signBit sign n % f.signBit = n % f.signBit := by
    rw [resign, Nat.mul_add_mod_self_right, Nat.mod_mod]
  have negative : decide (f.signBit ≤ resign f.signBit sign n) = sign (f.signBit ≤ n) := by
    rw [resign]
    cases sign (f.signBit ≤ n) with
    | false => simpa using low
    | true => simp
  unfold decode
  simp only [magnitude, negative]
  split_ifs <;> rfl

theorem nearest_le (num den : Nat) : f.nearest num den ≤ f.infinityBits := by
  unfold nearest
  split
  · exact Nat.zero_le _
  · exact Nat.min_le_right _ _

/-- The bits of a value are its sign and a magnitude that is no more than that of infinity. -/
theorem exists_encode_mapSign (f : Binary.Format) {v : Value} (number : v ≠ .nan) :
    ∃ (negative : Bool) (magnitude : Nat), magnitude ≤ f.infinityBits ∧
      ∀ sign : Bool → Bool,
        f.encode (v.mapSign sign) = (sign negative).toNat * f.signBit + magnitude := by
  have weigh (negative : Bool) :
      (if negative then f.signBit else 0) = negative.toNat * f.signBit := by
    cases negative <;> simp
  cases v with
  | nan => exact absurd rfl number
  | infinite negative =>
      refine ⟨negative, _, Nat.le_refl _, fun sign => ?_⟩
      rw [Value.mapSign, encode, weigh]
  | finite negative significand exponent =>
      refine ⟨negative, f.nearest (significand <<< exponent.toNat) (1 <<< (-exponent).toNat),
        nearest_le _ _, fun sign => ?_⟩
      rw [Value.mapSign, encode, weigh]

end Format

end Binary

namespace DoublePrecision

def mapSign (sign : Bool → Bool) (a : Float) : Float :=
  .ofModel (.pack (Packing.mapSign sign a.toModel.unpack))

theorem neg_eq_mapSign (a : Float) : -a = mapSign (! ·) a :=
  congrArg (fun u => Float.ofModel (.pack u)) (Packing.neg_eq_mapSign a.toModel.unpack)

theorem abs_eq_mapSign (a : Float) : a.abs = mapSign (fun _ => false) a :=
  congrArg (fun u => Float.ofModel (.pack u)) (Packing.abs_eq_mapSign a.toModel.unpack)

theorem toBits_mapSign {a : Float} (number : Binary.ofFloat a ≠ .nan) (sign : Bool → Bool) :
    (mapSign sign a).toBits.toNat = resign Binary.Format.binary64.signBit sign a.toBits.toNat := by
  obtain ⟨⟨⟨bits⟩, valid⟩⟩ := a
  refine @Packing.toNat_pack_mapSign .binary64 bits (by decide) ?_ sign
  rintro ⟨special, nonzero⟩
  obtain rfl := valid.eq_packedNaN special nonzero
  exact number rfl

theorem ofFloat_mapSign {a : Float} (number : Binary.ofFloat a ≠ .nan) (sign : Bool → Bool) :
    Binary.ofFloat (mapSign sign a) = (Binary.ofFloat a).mapSign sign := by
  rw [Binary.ofFloat, toBits_mapSign number, Binary.Format.decode_resign (by decide),
    Binary.ofFloat]

end DoublePrecision

namespace SinglePrecision

def mapSign (sign : Bool → Bool) (a : Float32) : Float32 :=
  .ofModel (.pack (Packing.mapSign sign a.toModel.unpack))

theorem neg_eq_mapSign (a : Float32) : -a = mapSign (! ·) a :=
  congrArg (fun u => Float32.ofModel (.pack u)) (Packing.neg_eq_mapSign a.toModel.unpack)

theorem abs_eq_mapSign (a : Float32) : a.abs = mapSign (fun _ => false) a :=
  congrArg (fun u => Float32.ofModel (.pack u)) (Packing.abs_eq_mapSign a.toModel.unpack)

theorem eq_of_toBits {a b : Float32} (heq : a.toBits.toNat = b.toBits.toNat) : a = b := by
  obtain ⟨⟨bits, valid⟩⟩ := a
  obtain ⟨⟨bits', valid'⟩⟩ := b
  obtain rfl : bits = bits' := UInt32.toNat_inj.mp heq
  rfl

theorem number_of_le {bits : BitVec 32} (le : bits.toNat % 0x80000000 ≤ 0x7f800000) :
    Packing.Number .binary32 bits := by
  rintro ⟨special, nonzero⟩
  have exponent : bits.toNat >>> 23 % 2 ^ 8 = 255 := congrArg BitVec.toNat special
  apply nonzero
  apply BitVec.eq_of_toNat_eq
  change bits.toNat >>> 0 % 2 ^ 23 = 0
  rw [Nat.shiftRight_eq_div_pow] at exponent
  rw [Nat.shiftRight_zero]
  omega

theorem toBits_mapSign {a : Float32} (number : a.toBits.toNat % 0x80000000 ≤ 0x7f800000)
    (sign : Bool → Bool) :
    (mapSign sign a).toBits.toNat = resign Binary.Format.binary32.signBit sign a.toBits.toNat := by
  obtain ⟨⟨⟨bits⟩, valid⟩⟩ := a
  exact @Packing.toNat_pack_mapSign .binary32 bits (by decide) (number_of_le number) sign

theorem toBits_ofBits {bits : UInt32} (number : bits.toNat % 0x80000000 ≤ 0x7f800000) :
    (Float32.ofBits bits).toBits = bits := by
  have valid : Format.Valid .binary32 bits.toBitVec :=
    ⟨fun special nonzero => absurd ⟨special, nonzero⟩ (number_of_le number)⟩
  exact congrArg UInt32.ofBitVec (Packing.pack_unpack (by decide) valid)

/-- A value that is a number is one in single precision too, and has its bits. -/
theorem toBits_toFloat32 {v : Binary.Value} (number : v ≠ .nan) :
    v.toFloat32.toBits.toNat = Binary.Format.binary32.encode v ∧
      v.toFloat32.toBits.toNat % 0x80000000 ≤ 0x7f800000 := by
  have weight : Binary.Format.binary32.signBit = 0x80000000 := by decide
  have infinity : Binary.Format.binary32.infinityBits = 0x7f800000 := by decide
  obtain ⟨negative, magnitude, le, bits⟩ :=
    Binary.Format.exists_encode_mapSign .binary32 number
  have encoded : Binary.Format.binary32.encode v = negative.toNat * 0x80000000 + magnitude := by
    rw [← weight, ← v.mapSign_id]
    exact bits id
  have top := Bool.toNat_le negative
  rw [infinity] at le
  have toNat : (UInt32.ofNat (Binary.Format.binary32.encode v)).toNat =
      Binary.Format.binary32.encode v := by
    apply UInt32.toNat_ofNat_of_lt'
    rw [encoded, UInt32.size]
    omega
  have bounded : (UInt32.ofNat (Binary.Format.binary32.encode v)).toNat % 0x80000000 ≤
      0x7f800000 := by
    rw [toNat, encoded]
    omega
  rw [Binary.Value.toFloat32, toBits_ofBits bounded]
  exact ⟨toNat, bounded⟩

/-- What is done to the sign of a value only may be done before rounding as well as after it. -/
theorem toFloat32_mapSign {v : Binary.Value} (number : v ≠ .nan) (sign : Bool → Bool) :
    (v.mapSign sign).toFloat32 = mapSign sign v.toFloat32 := by
  have number' : v.mapSign sign ≠ .nan := by
    cases v with
    | nan => exact absurd rfl number
    | infinite negative => nofun
    | finite negative significand exponent => nofun
  obtain ⟨negative, magnitude, le, encoded⟩ :=
    Binary.Format.exists_encode_mapSign .binary32 number
  have lt : magnitude < Binary.Format.binary32.signBit := Nat.lt_of_le_of_lt le (by decide)
  have own : Binary.Format.binary32.encode v =
      (id negative).toNat * Binary.Format.binary32.signBit + magnitude := by
    rw [← encoded id, v.mapSign_id]
  obtain ⟨before, -⟩ := toBits_toFloat32 number'
  obtain ⟨after, bounded⟩ := toBits_toFloat32 number
  apply eq_of_toBits
  rw [before, encoded, toBits_mapSign bounded, after, own, id, resign_add lt]

theorem ofFloat_mapSign {c : Float} (number : Binary.ofFloat c ≠ .nan) (sign : Bool → Bool) :
    (Width.ofFloat (DoublePrecision.mapSign sign c) : Float32) =
      mapSign sign (Width.ofFloat c) := by
  change (Binary.ofFloat (DoublePrecision.mapSign sign c)).toFloat32 = _
  rw [DoublePrecision.ofFloat_mapSign number]
  exact toFloat32_mapSign number sign

theorem ofFloat_neg (c : Float) : (Width.ofFloat (-c) : Float32) = -Width.ofFloat c := by
  by_cases number : Binary.ofFloat c = .nan
  · rw [DoublePrecision.eq_of_ofFloat_eq_nan number]
    rfl
  · rw [DoublePrecision.neg_eq_mapSign, neg_eq_mapSign]
    exact ofFloat_mapSign number _

theorem ofFloat_abs (c : Float) :
    (Width.ofFloat c.abs : Float32) = (Width.ofFloat c : Float32).abs := by
  by_cases number : Binary.ofFloat c = .nan
  · rw [DoublePrecision.eq_of_ofFloat_eq_nan number]
    rfl
  · rw [DoublePrecision.abs_eq_mapSign, abs_eq_mapSign]
    exact ofFloat_mapSign number _

end SinglePrecision

end Formula
