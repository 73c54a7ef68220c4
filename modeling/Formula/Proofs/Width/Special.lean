import Formula.Proofs.Width.Lawful

/-!
The numbers of double precision that are not finite. There is one infinity for each sign, and one
that is no number.
-/

set_option autoImplicit false

namespace Formula.DoublePrecision

open Float.Model.UnpackedFloat

theorem eq_of_toBits {a b : Float} (heq : a.toBits.toNat = b.toBits.toNat) : a = b := by
  obtain ⟨⟨bits, valid⟩⟩ := a
  obtain ⟨⟨bits', valid'⟩⟩ := b
  obtain rfl : bits = bits' := UInt64.toNat_inj.mp heq
  rfl

theorem eq_of_ofFloat_eq_infinite {a : Float} {negative : Bool}
    (heq : Binary.ofFloat a = .infinite negative) :
    a = if negative then -1 / 0 else 1 / 0 := by
  have hlt := a.toBits.toNat_lt
  have hsign : Binary.Format.binary64.signBit = 0x8000000000000000 := by decide
  have hinfinity : Binary.Format.binary64.infinityBits = 0x7ff0000000000000 := by decide
  simp only [Binary.ofFloat, Binary.Format.decode, hsign, hinfinity] at heq
  split_ifs at heq with large infinite zero
  cases heq
  by_cases negative : 0x8000000000000000 ≤ a.toBits.toNat
  · rw [decide_eq_true negative, if_pos rfl]
    apply eq_of_toBits
    have hbits : (-1 / 0 : Float).toBits.toNat = 0xfff0000000000000 := rfl
    omega
  · rw [decide_eq_false negative, if_neg (by decide)]
    apply eq_of_toBits
    have hbits : (1 / 0 : Float).toBits.toNat = 0x7ff0000000000000 := rfl
    omega

theorem eq_of_ofFloat_eq_nan {a : Float} (heq : Binary.ofFloat a = .nan) : a = 0 / 0 := by
  have hlt := a.toBits.toNat_lt
  have hsign : Binary.Format.binary64.signBit = 0x8000000000000000 := by decide
  have hinfinity : Binary.Format.binary64.infinityBits = 0x7ff0000000000000 := by decide
  simp only [Binary.ofFloat, Binary.Format.decode, hsign, hinfinity] at heq
  split_ifs at heq with large infinite zero
  obtain ⟨⟨bits, valid⟩⟩ := a
  change 0x7ff0000000000000 < bits.toNat % 0x8000000000000000 at large
  have canonical : bits.toBitVec = packedNaN .binary64 := by
    apply valid.eq_packedNaN
    · apply BitVec.eq_of_toNat_eq
      change bits.toNat >>> 52 % 2 ^ 11 = 2047
      rw [Nat.shiftRight_eq_div_pow]
      omega
    · intro mantissa
      have hmod : bits.toNat >>> 0 % 2 ^ 52 = 0 := congrArg BitVec.toNat mantissa
      rw [Nat.shiftRight_zero] at hmod
      omega
  apply eq_of_toBits
  have hbits : (0 / 0 : Float).toBits.toNat = (packedNaN .binary64).toNat := rfl
  rw [hbits, ← canonical]
  rfl

end Formula.DoublePrecision
