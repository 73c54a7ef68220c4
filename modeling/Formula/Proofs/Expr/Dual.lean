import Mathlib.Algebra.DualNumber
import Mathlib.Tactic
import Formula.Expr.Derivative

/-!
The derivative of an expression against dual numbers `a + a' * ε` with `ε * ε = 0`. Rounding is set
aside: the numbers are those of an exact arithmetic. Evaluating an expression once over dual numbers
carries the derivative along with no tree put together, and the symbolic derivative has to agree.
-/

set_option autoImplicit false

namespace Formula

/-- Numbers without rounding: a commutative ring with a division of which `a / 1 = a` is known, a
power that is known at the exponents zero and one, and any functions at all. -/
class Exact (K : Type) extends Coefficient K, CommRing K where
  beq_iff (a b : K) : (a == b) = true ↔ a = b
  two_eq : Coefficient.two = (2 : K)
  three_eq : Coefficient.three = (3 : K)
  over_one (a : K) : a / 1 = a
  power_zero (a : K) : Arithmetic.pow a 0 = 1
  power_one (a : K) : Arithmetic.pow a 1 = a

/-- Every field is exact, whatever power and functions are chosen for it. -/
abbrev Exact.ofField {K : Type} [Field K] [DecidableEq K] (pow : K → K → K)
    (apply : UnaryFn → K → K) (ln2 ln10 : K) (power_zero : ∀ a, pow a 0 = 1)
    (power_one : ∀ a, pow a 1 = a) : Exact K where
  pow := pow
  apply := apply
  div := (· / ·)
  beq a b := a = b
  two := 2
  three := 3
  ln2 := ln2
  ln10 := ln10
  beq_iff := fun _ _ => decide_eq_true_iff
  two_eq := rfl
  three_eq := rfl
  over_one := div_one
  power_zero := power_zero
  power_one := power_one

instance Exact.lawfulBEq {K : Type} [Exact K] : LawfulBEq K where
  rfl := (Exact.beq_iff _ _).mpr rfl
  eq_of_beq := (Exact.beq_iff _ _).mp

namespace Expr

/-- The value at a point, by the plain reading of every node. -/
def valueAt {α : Type} [Arithmetic α] (point : Nat → α) : Expr α → α
  | const c => c
  | var _ slot => point slot
  | neg body => -body.valueAt point
  | binary op left right => op.eval (left.valueAt point) (right.valueAt point)
  | call f argument => Arithmetic.apply f (argument.valueAt point)

variable {K : Type} [Exact K] (point : Nat → K)

@[simp] theorem valueAt_const (c : K) : (const c).valueAt point = c := rfl

@[simp] theorem valueAt_negative (e : Expr K) :
    (negative e).valueAt point = -e.valueAt point := by
  cases e with
  | neg body => exact (neg_neg _).symm
  | _ => rfl

@[simp] theorem valueAt_sum (l r : Expr K) :
    (sum l r).valueAt point = l.valueAt point + r.valueAt point := by
  unfold sum
  split
  · rfl
  · split
    · rename_i zero
      rw [eq_of_beq zero, valueAt_const, zero_add]
    · rfl
  · split
    · rename_i zero
      rw [eq_of_beq zero, valueAt_const, add_zero]
    · rfl
  · rfl

@[simp] theorem valueAt_difference (l r : Expr K) :
    (difference l r).valueAt point = l.valueAt point - r.valueAt point := by
  unfold difference
  split
  · rfl
  · split
    · rename_i zero
      rw [eq_of_beq zero, valueAt_const, sub_zero]
    · rfl
  · split
    · rename_i zero
      rw [eq_of_beq zero, valueAt_const, zero_sub, valueAt_negative]
    · rfl
  · rfl

@[simp] theorem valueAt_product (l r : Expr K) :
    (product l r).valueAt point = l.valueAt point * r.valueAt point := by
  unfold product
  split
  · rfl
  · split_ifs with zero one minusOne
    · rw [eq_of_beq zero, valueAt_const, zero_mul]
    · rw [eq_of_beq one, valueAt_const, one_mul]
    · rw [eq_of_beq minusOne, valueAt_const, neg_one_mul, valueAt_negative]
    · rfl
  · split_ifs with zero one minusOne
    · rw [eq_of_beq zero, valueAt_const, mul_zero]
    · rw [eq_of_beq one, valueAt_const, mul_one]
    · rw [eq_of_beq minusOne, valueAt_const, mul_neg_one, valueAt_negative]
    · rfl
  · rfl

@[simp] theorem valueAt_quotient (l r : Expr K) :
    (quotient l r).valueAt point = l.valueAt point / r.valueAt point := by
  unfold quotient
  split
  · rfl
  · split
    · rename_i one
      rw [eq_of_beq one, valueAt_const, Exact.over_one]
    · rfl
  · rfl

@[simp] theorem valueAt_power (b e : Expr K) :
    (power b e).valueAt point = Arithmetic.pow (b.valueAt point) (e.valueAt point) := by
  unfold power
  split
  · rfl
  · split_ifs with zero one
    · rw [eq_of_beq zero, valueAt_const, valueAt_const, Exact.power_zero]
    · rw [eq_of_beq one, valueAt_const, Exact.power_one]
    · rfl
  · rfl

@[simp] theorem valueAt_applied (f : UnaryFn) (e : Expr K) :
    (applied f e).valueAt point = Arithmetic.apply f (e.valueAt point) := by
  cases e <;> rfl

end Expr

open Arithmetic (apply pow)
open DualNumber TrivSqZeroExt

variable {K : Type} [Exact K]

/-- The derivative of a function as a function, by the table of rules. -/
def UnaryFn.slope (f : UnaryFn) (a : K) : K :=
  match f with
  | .sin => apply .cos a
  | .cos => -apply .sin a
  | .tan => 1 / (apply .cos a * apply .cos a)
  | .asin => 1 / apply .sqrt (1 - a ^ 2)
  | .acos => -(1 / apply .sqrt (1 - a ^ 2))
  | .atan => 1 / (1 + a ^ 2)
  | .sinh => apply .cosh a
  | .cosh => apply .sinh a
  | .tanh => 1 - apply .tanh a ^ 2
  | .exp => apply .exp a
  | .ln => 1 / a
  | .log2 => 1 / (a * Coefficient.ln2)
  | .log10 => 1 / (a * Coefficient.ln10)
  | .sqrt => 1 / (2 * apply .sqrt a)
  | .cbrt => 1 / (3 * apply .cbrt a ^ 2)
  | .abs => apply .signum a
  | .fract => 1
  | .signum | .round | .floor | .ceil | .trunc => 0

@[simp] theorem UnaryFn.valueAt_derivativeAt (f : UnaryFn) (e : Expr K) (point : Nat → K) :
    (f.derivativeAt e).valueAt point = f.slope (e.valueAt point) := by
  cases f <;> simp [derivativeAt, slope, pow_two, Exact.two_eq, Exact.three_eq]

theorem UnaryFn.slope_of_isStep {f : UnaryFn} (step : f.isStep = true) (a : K) :
    f.slope a = 0 := by
  cases f <;> first | rfl | contradiction

namespace Dual

def quotient (a b : K[ε]) : K[ε] :=
  inl (a.fst / b.fst) + inr ((a.snd * b.fst - a.fst * b.snd) / (b.fst * b.fst))

def raise (u : K[ε]) (c : K) : K[ε] :=
  inl (pow u.fst c) + inr (c * pow u.fst (c - 1) * u.snd)

/-- A dual number to the power of another one. -/
def power (u v : K[ε]) : K[ε] :=
  inl (pow u.fst v.fst) +
    inr (pow u.fst v.fst * (v.snd * apply .ln u.fst + v.fst * (u.snd / u.fst)))

def applied (f : UnaryFn) (u : K[ε]) : K[ε] :=
  inl (apply f u.fst) + inr (f.slope u.fst * u.snd)

@[simp] theorem fst_quotient (a b : K[ε]) : (quotient a b).fst = a.fst / b.fst := by
  simp [quotient]

@[simp] theorem snd_quotient (a b : K[ε]) :
    (quotient a b).snd = (a.snd * b.fst - a.fst * b.snd) / (b.fst * b.fst) := by
  simp [quotient]

@[simp] theorem fst_raise (u : K[ε]) (c : K) : (raise u c).fst = pow u.fst c := by
  simp [raise]

@[simp] theorem snd_raise (u : K[ε]) (c : K) :
    (raise u c).snd = c * pow u.fst (c - 1) * u.snd := by
  simp [raise]

@[simp] theorem fst_power (u v : K[ε]) : (power u v).fst = pow u.fst v.fst := by
  simp [power]

@[simp] theorem snd_power (u v : K[ε]) :
    (power u v).snd =
      pow u.fst v.fst * (v.snd * apply .ln u.fst + v.fst * (u.snd / u.fst)) := by
  simp [power]

/-- Over a field the quotient in the rule of a power may be taken last: `v * u' / u`. -/
theorem snd_power_ofField {F : Type} [Field F] [DecidableEq F] (raise : F → F → F)
    (functions : UnaryFn → F → F) (ln2 ln10 : F) (raise_zero : ∀ a, raise a 0 = 1)
    (raise_one : ∀ a, raise a 1 = a) (u v : F[ε]) :
    let _ : Exact F := .ofField raise functions ln2 ln10 raise_zero raise_one
    (power u v).snd =
      raise u.fst v.fst * (v.snd * functions .ln u.fst + v.fst * u.snd / u.fst) := by
  intro _
  rw [snd_power, mul_div_assoc]
  rfl

@[simp] theorem fst_applied (f : UnaryFn) (u : K[ε]) : (applied f u).fst = apply f u.fst := by
  simp [applied]

@[simp] theorem snd_applied (f : UnaryFn) (u : K[ε]) :
    (applied f u).snd = f.slope u.fst * u.snd := by
  simp [applied]

end Dual

namespace Expr

def dualAt (point : Nat → K[ε]) : Expr K → K[ε]
  | const c => inl c
  | var _ slot => point slot
  | neg body => -body.dualAt point
  | binary .add left right => left.dualAt point + right.dualAt point
  | binary .sub left right => left.dualAt point - right.dualAt point
  | binary .mul left right => left.dualAt point * right.dualAt point
  | binary .div left right => Dual.quotient (left.dualAt point) (right.dualAt point)
  | binary .pow base (const c) => Dual.raise (base.dualAt point) c
  | binary .pow base exponent => Dual.power (base.dualAt point) (exponent.dualAt point)
  | call f argument => Dual.applied f (argument.dualAt point)

/-- The point over dual numbers at which the variable of one slot moves and all others rest. -/
def seed (slot : Nat) (point : Nat → K) (s : Nat) : K[ε] :=
  if s = slot then inl (point s) + ε else inl (point s)

@[simp] theorem fst_seed (slot : Nat) (point : Nat → K) (s : Nat) :
    (seed slot point s).fst = point s := by
  unfold seed
  split <;> simp

@[simp] theorem fst_dualAt_seed (e : Expr K) (slot : Nat) (point : Nat → K) :
    (e.dualAt (seed slot point)).fst = e.valueAt point := by
  induction e with
  | const c => rfl
  | var name s => exact fst_seed slot point s
  | neg body ih => exact congrArg (-·) ih
  | binary op left right ihleft ihright =>
      have general : (Dual.power (left.dualAt (seed slot point))
          (right.dualAt (seed slot point))).fst =
          (binary .pow left right).valueAt point := by
        rw [Dual.fst_power, ihleft, ihright]
        rfl
      cases op with
      | add => exact congrArg₂ (· + ·) ihleft ihright
      | sub => exact congrArg₂ (· - ·) ihleft ihright
      | mul => exact congrArg₂ (· * ·) ihleft ihright
      | div =>
          rw [dualAt, Dual.fst_quotient, ihleft, ihright]
          rfl
      | pow =>
          cases right with
          | const c =>
              rw [dualAt, Dual.fst_raise, ihleft]
              rfl
          | _ => exact general
  | call f argument ih =>
      rw [dualAt, Dual.fst_applied, ih]
      rfl

/-- The symbolic derivative has the value that dual numbers carry along. -/
theorem valueAt_derivative (e : Expr K) (slot : Nat) (point : Nat → K) :
    (e.derivative slot).valueAt point = (e.dualAt (seed slot point)).snd := by
  induction e with
  | const c => rfl
  | var name s =>
      rw [derivative, dualAt, seed]
      split <;> simp
  | neg body ih =>
      rw [derivative, valueAt_negative, ih, dualAt, snd_neg]
  | binary op left right ihleft ihright =>
      have general : (product (power left right)
          (sum (product (right.derivative slot) (applied .ln left))
            (product right (quotient (left.derivative slot) left)))).valueAt point =
          (Dual.power (left.dualAt (seed slot point)) (right.dualAt (seed slot point))).snd := by
        simp [ihleft, ihright]
      cases op with
      | add => rw [derivative, valueAt_sum, ihleft, ihright, dualAt, snd_add]
      | sub => rw [derivative, valueAt_difference, ihleft, ihright, dualAt, snd_sub]
      | mul =>
          rw [derivative, valueAt_sum, valueAt_product, valueAt_product, ihleft, ihright, dualAt,
            DualNumber.snd_mul, fst_dualAt_seed, fst_dualAt_seed, add_comm]
      | div => simp [derivative, dualAt, ihleft, ihright]
      | pow =>
          cases right with
          | const c => simp [derivative, dualAt, ihleft]
          | _ => exact general
  | call f argument ih =>
      rw [derivative, dualAt, Dual.snd_applied, fst_dualAt_seed, ← ih]
      split
      · rename_i step
        rw [UnaryFn.slope_of_isStep step, zero_mul, valueAt_const]
      · rw [valueAt_product, UnaryFn.valueAt_derivativeAt]

/-- The cube of `x` times the size of `y` at `x = 2` and `y = -5`, by `x` and by `y`. Rational
numbers raise to integer exponents here, and of the functions they have size and sign. -/
theorem valueAt_derivative_cube_mul_abs :
    let _ : Exact ℚ := .ofField (fun a b => a ^ b.num)
      (fun f a => if f = .abs then |a| else if f = .signum then a.num.sign else a) 1 2
      (fun a => by simp) (fun a => by simp)
    let e : Expr ℚ :=
      .binary .mul (.binary .pow (.var "x" 0) (.const 3)) (.call .abs (.var "y" 1))
    let point (slot : Nat) : ℚ := if slot = 0 then 2 else -5
    (e.derivative 0).valueAt point = 60 ∧ (e.derivative 1).valueAt point = -8 := by
  intro _ e point
  rw [valueAt_derivative e 0 point, valueAt_derivative e 1 point]
  decide +kernel

end Expr

end Formula
