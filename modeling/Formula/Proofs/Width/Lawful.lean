import Formula.Proofs.Width.Packing
import Formula.Width

/-!
The laws of arithmetic on which the optimiser relies, and that both widths obey them. Numbers
that are no numbers are one value here, so the laws are equations.
-/

set_option autoImplicit false

namespace Formula

/-- What the optimiser takes for granted of a width: two signs cancel, and three integer powers
are other operations. -/
class Width.Lawful (α : Type) [Width α] : Prop where
  neg_neg (a : α) : - -a = a
  powInt_one (a : α) : Width.powInt a 1 = a
  powInt_two (a : α) : Width.powInt a 2 = a * a
  powInt_neg_one (a : α) : Width.powInt a (-1) = Width.reciprocal a

section Squaring

variable {α : Type} [Mul α] [Div α] {one : α} (one_mul : ∀ a : α, one * a = a)
include one_mul

theorem squaringPow_one (a : α) : squaringPow one a 1 = a := by
  change one * a = a
  exact one_mul a

theorem squaringPow_two (a : α) : squaringPow one a 2 = a * a := by
  change one * (a * a) = a * a
  exact one_mul (a * a)

theorem squaringPow_neg_one (a : α) : squaringPow one a (-1) = one / a := by
  change one / (one * a) = one / a
  rw [one_mul]

end Squaring

open Float.Model.UnpackedFloat

namespace DoublePrecision

theorem pack_unpack (x : Float.Model) : Float.Model.pack x.unpack = x := by
  obtain ⟨bits, valid⟩ := x
  simp only [Float.Model.pack, Float.Model.unpack]
  congr 1
  rw [Packing.pack_unpack (by decide) valid]

theorem neg_neg (a : Float) : - -a = a := by
  obtain ⟨x⟩ := a
  change Float.ofModel (Float.Model.pack (neg (Float.Model.pack (neg x.unpack)).unpack)) = _
  have hneg : (Float.Model.pack (neg x.unpack)).unpack = neg x.unpack :=
    Packing.unpack_pack_neg (by decide) x.valid
  rw [hneg, Packing.neg_neg, pack_unpack]

theorem one_mul (a : Float) : 1 * a = a := by
  obtain ⟨x⟩ := a
  have hmul : mul .binary64 (.finite .positive (2 ^ 52) (-52) (by decide)) x.unpack = x.unpack :=
    Packing.one_mul_of_settled (Packing.settled_unpack _) 52 (by decide)
  change Float.ofModel (Float.Model.pack (mul _ (.finite .positive (2 ^ 52) (-52) _) _)) = _
  rw [hmul, pack_unpack]

theorem mul_one (a : Float) : a * 1 = a := by
  have commuted : a * 1 = 1 * a :=
    congrArg (fun u => Float.ofModel (Float.Model.pack u)) (Packing.mul_comm _ _)
  rw [commuted, one_mul]

end DoublePrecision

namespace SinglePrecision

theorem pack_unpack (x : Float32.Model) : Float32.Model.pack x.unpack = x := by
  obtain ⟨bits, valid⟩ := x
  simp only [Float32.Model.pack, Float32.Model.unpack]
  congr 1
  rw [Packing.pack_unpack (by decide) valid]

theorem neg_neg (a : Float32) : - -a = a := by
  obtain ⟨x⟩ := a
  change Float32.ofModel (Float32.Model.pack (neg (Float32.Model.pack (neg x.unpack)).unpack)) = _
  have hneg : (Float32.Model.pack (neg x.unpack)).unpack = neg x.unpack :=
    Packing.unpack_pack_neg (by decide) x.valid
  rw [hneg, Packing.neg_neg, pack_unpack]

theorem one_mul (a : Float32) : 1 * a = a := by
  obtain ⟨x⟩ := a
  have hmul : mul .binary32 (.finite .positive (2 ^ 23) (-23) (by decide)) x.unpack = x.unpack :=
    Packing.one_mul_of_settled (Packing.settled_unpack _) 23 (by decide)
  change Float32.ofModel (Float32.Model.pack (mul _ (.finite .positive (2 ^ 23) (-23) _) _)) = _
  rw [hmul, pack_unpack]

end SinglePrecision

instance : Width.Lawful Float where
  neg_neg := DoublePrecision.neg_neg
  powInt_one := squaringPow_one DoublePrecision.one_mul
  powInt_two := squaringPow_two DoublePrecision.one_mul
  powInt_neg_one := squaringPow_neg_one DoublePrecision.one_mul

instance : Width.Lawful Float32 where
  neg_neg := SinglePrecision.neg_neg
  powInt_one := squaringPow_one SinglePrecision.one_mul
  powInt_two := squaringPow_two SinglePrecision.one_mul
  powInt_neg_one := squaringPow_neg_one SinglePrecision.one_mul

end Formula
