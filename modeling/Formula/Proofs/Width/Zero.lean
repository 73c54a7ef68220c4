import Formula.Proofs.Width.Special

/-!
Zeros, and the value that is no number. Together they absorb: a product with one of them is one of
them again, whatever the other factor, and so are sums of them, quotients above them, and what
becomes of them in another width. What comes out is no number only where it has to be, and is a zero
otherwise.
-/

set_option autoImplicit false

namespace Formula

open Float.Model (Format UnpackedFloat)
open Float.Model.UnpackedFloat

namespace Packing

/-- A zero of either sign, or no number. -/
inductive Null : UnpackedFloat → Prop where
  | zero (s : Sign) : Null (.zero s)
  | notANumber : Null .notANumber

namespace Null

variable {spec : Format} {a b : UnpackedFloat}

theorem neg (null : Null a) : Null (neg a) := by
  cases null <;> constructor

theorem add (left : Null a) (right : Null b) : Null (add spec a b) := by
  cases left with
  | notANumber => exact .notANumber
  | zero s =>
      cases right with
      | notANumber => exact .notANumber
      | zero t => cases s <;> cases t <;> exact .zero _

theorem sub (left : Null a) (right : Null b) : Null (sub spec a b) := by
  cases left with
  | notANumber => exact .notANumber
  | zero s =>
      cases right with
      | notANumber => exact .notANumber
      | zero t => cases s <;> cases t <;> exact .zero _

theorem mul_left (null : Null a) : Null (mul spec a b) := by
  cases null with
  | notANumber => exact .notANumber
  | zero s => cases b <;> constructor

theorem mul_right (null : Null b) : Null (mul spec a b) := by
  cases null with
  | notANumber => cases a <;> exact .notANumber
  | zero s => cases a <;> constructor

/-- A zero factor leaves no number exactly beside an infinite factor, or one that is no number. -/
theorem isNaN_mul_left (null : Null a) : (mul spec a b).isNaN = (a.isNaN || !b.isFinite) := by
  cases null <;> cases b <;> rfl

theorem isNaN_mul_right (null : Null b) : (mul spec a b).isNaN = (b.isNaN || !a.isFinite) := by
  cases null <;> cases a <;> rfl

theorem isNaN_div (null : Null a) :
    (UnpackedFloat.div spec a b).isNaN = (a.isNaN || b.isNaN || b.beq (.zero .positive)) := by
  cases null with
  | notANumber => rfl
  | zero s =>
      cases b with
      | infinity t => cases t <;> rfl
      | finite t => cases t <;> rfl
      | _ => rfl

theorem div (null : Null a) : Null (div spec a b) := by
  cases null with
  | notANumber => exact .notANumber
  | zero s => cases b <;> constructor

end Null

end Packing

/-- A zero of either sign, or no number. -/
def Width.Null {α : Type} [Width α] (a : α) : Prop := a = 0 ∨ a = -0 ∨ a = Width.nan

/-- That zeros and what is no number stay among themselves. -/
class Width.Absorbing (α : Type) [Width α] : Prop where
  neg {a : α} : Null a → Null (-a)
  add {a b : α} : Null a → Null b → Null (a + b)
  sub {a b : α} : Null a → Null b → Null (a - b)
  mul_left {a : α} (b : α) : Null a → Null (a * b)
  mul_right {b : α} (a : α) : Null b → Null (a * b)
  div {a : α} (b : α) : Null a → Null (a / b)
  ofFloat {c : Float} : Null c → Null (Width.ofFloat c : α)

namespace DoublePrecision

theorem unpack_pack_of_null {u : UnpackedFloat} (null : Packing.Null u) :
    (Float.Model.pack u).unpack = u := by
  cases null with
  | zero s => cases s <;> rfl
  | notANumber => rfl

theorem null_iff {a : Float} : Width.Null a ↔ Packing.Null a.toModel.unpack := by
  constructor
  · rintro (rfl | rfl | rfl)
    · exact .zero .positive
    · exact .zero .negative
    · exact .notANumber
  · obtain ⟨x⟩ := a
    intro null
    change Packing.Null x.unpack at null
    rw [← pack_unpack x]
    generalize x.unpack = u at null
    cases null with
    | zero s =>
        cases s with
        | positive => exact .inl rfl
        | negative => exact .inr (.inl rfl)
    | notANumber => exact .inr (.inr rfl)

/-- What is computed to be null is null. -/
theorem null_of_pack {u : UnpackedFloat} (null : Packing.Null u) :
    Width.Null (Float.ofModel (Float.Model.pack u)) := by
  rw [null_iff]
  change Packing.Null (Float.Model.pack u).unpack
  rwa [unpack_pack_of_null null]

instance : Width.Absorbing Float where
  neg null := null_of_pack (null_iff.mp null).neg
  add left right := null_of_pack ((null_iff.mp left).add (null_iff.mp right))
  sub left right := null_of_pack ((null_iff.mp left).sub (null_iff.mp right))
  mul_left _ null := null_of_pack (null_iff.mp null).mul_left
  mul_right _ null := null_of_pack (null_iff.mp null).mul_right
  div _ null := null_of_pack (null_iff.mp null).div
  ofFloat null := null

section

variable {a b : Float}

theorem isNaN_of_pack {u : UnpackedFloat} (null : Packing.Null u) :
    (Float.ofModel (Float.Model.pack u)).isNaN = u.isNaN :=
  congrArg isNaN (unpack_pack_of_null null)

theorem isNaN_mul_left (null : Width.Null a) : (a * b).isNaN = (a.isNaN || !b.isFinite) :=
  (isNaN_of_pack (null_iff.mp null).mul_left).trans (null_iff.mp null).isNaN_mul_left

theorem isNaN_mul_right (null : Width.Null b) : (a * b).isNaN = (b.isNaN || !a.isFinite) :=
  (isNaN_of_pack (null_iff.mp null).mul_right).trans (null_iff.mp null).isNaN_mul_right

theorem isNaN_div (null : Width.Null a) : (a / b).isNaN = (a.isNaN || b.isNaN || b == 0) :=
  (isNaN_of_pack (null_iff.mp null).div).trans (null_iff.mp null).isNaN_div

theorem isNaN_neg (null : Width.Null a) : (-a).isNaN = a.isNaN := by
  rcases null with rfl | rfl | rfl <;> rfl

theorem isNaN_add (left : Width.Null a) (right : Width.Null b) :
    (a + b).isNaN = (a.isNaN || b.isNaN) := by
  rcases left with rfl | rfl | rfl <;> rcases right with rfl | rfl | rfl <;> rfl

theorem isNaN_sub (left : Width.Null a) (right : Width.Null b) :
    (a - b).isNaN = (a.isNaN || b.isNaN) := by
  rcases left with rfl | rfl | rfl <;> rcases right with rfl | rfl | rfl <;> rfl

theorem beq_zero_of_null (null : Width.Null a) : (a == 0) = !a.isNaN := by
  rcases null with rfl | rfl | rfl <;> rfl

theorem beq_one_of_null (null : Width.Null a) : (a == 1) = false := by
  rcases null with rfl | rfl | rfl <;> rfl

theorem beq_neg_one_of_null (null : Width.Null a) : (a == -1) = false := by
  rcases null with rfl | rfl | rfl <;> rfl

theorem not_null_of_pos (pos : 0 < a) : (a.isNaN || a == 0) = false := by
  obtain ⟨x⟩ := a
  have below : (UnpackedFloat.zero .positive).lt x.unpack = true := of_decide_eq_true pos
  change (x.unpack.isNaN || x.unpack.beq (.zero .positive)) = false
  generalize x.unpack = u at below
  cases u with
  | finite s => cases s <;> rfl
  | infinity s => cases s <;> rfl
  | _ => contradiction

end

end DoublePrecision

namespace SinglePrecision

theorem unpack_pack_of_null {u : UnpackedFloat} (null : Packing.Null u) :
    (Float32.Model.pack u).unpack = u := by
  cases null with
  | zero s => cases s <;> rfl
  | notANumber => rfl

theorem null_iff {a : Float32} : Width.Null a ↔ Packing.Null a.toModel.unpack := by
  constructor
  · rintro (rfl | rfl | rfl)
    · exact .zero .positive
    · exact .zero .negative
    · exact .notANumber
  · obtain ⟨x⟩ := a
    intro null
    change Packing.Null x.unpack at null
    rw [← pack_unpack x]
    generalize x.unpack = u at null
    cases null with
    | zero s =>
        cases s with
        | positive => exact .inl rfl
        | negative => exact .inr (.inl rfl)
    | notANumber => exact .inr (.inr rfl)

/-- What is computed to be null is null. -/
theorem null_of_pack {u : UnpackedFloat} (null : Packing.Null u) :
    Width.Null (Float32.ofModel (Float32.Model.pack u)) := by
  rw [null_iff]
  change Packing.Null (Float32.Model.pack u).unpack
  rwa [unpack_pack_of_null null]

instance : Width.Absorbing Float32 where
  neg null := null_of_pack (null_iff.mp null).neg
  add left right := null_of_pack ((null_iff.mp left).add (null_iff.mp right))
  sub left right := null_of_pack ((null_iff.mp left).sub (null_iff.mp right))
  mul_left _ null := null_of_pack (null_iff.mp null).mul_left
  mul_right _ null := null_of_pack (null_iff.mp null).mul_right
  div _ null := null_of_pack (null_iff.mp null).div
  ofFloat null := by
    rcases null with rfl | rfl | rfl
    · exact .inl rfl
    · exact .inr (.inl rfl)
    · exact .inr (.inr rfl)

end SinglePrecision

end Formula
