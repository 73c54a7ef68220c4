import Formula.Proofs.Expr.Dual

/-!
Second derivatives in exact arithmetic. Deriving by one variable simplifies the tree in one way and
deriving by another one in another way, so that the two orders lead to different trees. Their values
agree: each way to put a tree together has a rule by which the value of its derivative is got from
those of its parts, whatever was simplified.
-/

set_option autoImplicit false

namespace Formula

open Arithmetic (apply pow)

variable {K : Type} [Exact K]

namespace Expr

/-- The value of the derivative by the variable in a slot. -/
def tangent (slot : Nat) (point : Nat → K) (e : Expr K) : K := (e.derivative slot).valueAt point

section Rules

variable (slot : Nat) (point : Nat → K)

@[simp] theorem tangent_const (c : K) : (const c).tangent slot point = 0 := rfl

@[simp] theorem tangent_negative (e : Expr K) :
    (negative e).tangent slot point = -e.tangent slot point := by
  cases e with
  | const c => exact neg_zero.symm
  | neg body =>
      have signed : (neg body).tangent slot point = -body.tangent slot point :=
        valueAt_negative point _
      rw [signed, neg_neg]
      rfl
  | _ => exact valueAt_negative point _

@[simp] theorem tangent_sum (l r : Expr K) :
    (sum l r).tangent slot point = l.tangent slot point + r.tangent slot point := by
  unfold sum
  split
  · simp
  · split
    · simp
    · exact valueAt_sum point _ _
  · split
    · simp
    · exact valueAt_sum point _ _
  · exact valueAt_sum point _ _

@[simp] theorem tangent_difference (l r : Expr K) :
    (difference l r).tangent slot point = l.tangent slot point - r.tangent slot point := by
  unfold difference
  split
  · simp
  · split
    · simp
    · exact valueAt_difference point _ _
  · split
    · simp
    · exact valueAt_difference point _ _
  · exact valueAt_difference point _ _

theorem tangent_mul (l r : Expr K) :
    (binary .mul l r).tangent slot point =
      l.tangent slot point * r.valueAt point + l.valueAt point * r.tangent slot point := by
  simp [tangent, derivative]

@[simp] theorem tangent_product (l r : Expr K) :
    (product l r).tangent slot point =
      l.tangent slot point * r.valueAt point + l.valueAt point * r.tangent slot point := by
  unfold product
  split
  · simp
  · split_ifs with zero one minusOne
    · simp [eq_of_beq zero]
    · simp [eq_of_beq one]
    · simp [eq_of_beq minusOne]
    · exact tangent_mul slot point _ _
  · split_ifs with zero one minusOne
    · simp [eq_of_beq zero]
    · simp [eq_of_beq one]
    · simp [eq_of_beq minusOne]
    · exact tangent_mul slot point _ _
  · exact tangent_mul slot point _ _

theorem tangent_pow_const (u : Expr K) (c : K) :
    (binary .pow u (const c)).tangent slot point =
      c * pow (u.valueAt point) (c - 1) * u.tangent slot point := by
  simp [tangent, derivative]

@[simp] theorem tangent_power_const (u : Expr K) (c : K) :
    (power u (const c)).tangent slot point =
      c * pow (u.valueAt point) (c - 1) * u.tangent slot point := by
  cases u with
  | const a => simp [power]
  | _ =>
      simp only [power]
      split_ifs with zero one
      · simp [eq_of_beq zero]
      · simp [eq_of_beq one, Exact.power_zero]
      · exact tangent_pow_const slot point _ c

theorem tangent_power (u : Expr K) {v : Expr K} (other : ∀ c, v ≠ const c) :
    (power u v).tangent slot point =
      (power u v).valueAt point * (v.tangent slot point * apply .ln (u.valueAt point) +
        v.valueAt point * (u.tangent slot point / u.valueAt point)) := by
  have kept : power u v = binary .pow u v := by
    cases v with
    | const c => exact absurd rfl (other c)
    | _ => cases u <;> rfl
  rw [kept, tangent, derivative_pow slot u other, kept]
  simp [tangent]

@[simp] theorem tangent_applied (f : UnaryFn) (e : Expr K) :
    (applied f e).tangent slot point = f.slope (e.valueAt point) * e.tangent slot point := by
  have kept : (call f e).tangent slot point = f.slope (e.valueAt point) * e.tangent slot point := by
    rw [tangent, derivative]
    split
    · rename_i step
      rw [UnaryFn.slope_of_isStep step, zero_mul, valueAt_const]
    · rw [valueAt_product, UnaryFn.valueAt_derivativeAt, tangent]
  cases e with
  | const c => simp [applied]
  | _ => exact kept

variable {inverse : K → K} (division : ∀ a b : K, a / b = a * inverse b)
include division

theorem tangent_quotient (l r : Expr K) :
    (quotient l r).tangent slot point =
      (l.tangent slot point * r.valueAt point - l.valueAt point * r.tangent slot point) /
        (r.valueAt point * r.valueAt point) := by
  unfold quotient
  split
  · simp [division]
  · split
    · rename_i one
      simp [eq_of_beq one, Exact.over_one]
    · simp [tangent, derivative]
  · simp [tangent, derivative]

end Rules

/-- That the derivatives of one expression are those of another one, times a factor which is the
same for all variables. An expression with this property depends on the variables through the
other one only. -/
def Through (point : Nat → K) (e d : Expr K) : Prop :=
  ∃ factor, ∀ slot, d.tangent slot point = factor * e.tangent slot point

namespace Through

variable {point : Nat → K} {e l r : Expr K}

theorem refl (e : Expr K) : Through point e e := ⟨1, fun _ => (one_mul _).symm⟩

theorem const (c : K) : Through point e (.const c) := ⟨0, fun _ => (zero_mul _).symm⟩

theorem negative (body : Through point e l) : Through point e (.negative l) := by
  obtain ⟨k, body⟩ := body
  refine ⟨-k, fun slot => ?_⟩
  rw [tangent_negative, body, neg_mul]

theorem sum (left : Through point e l) (right : Through point e r) :
    Through point e (.sum l r) := by
  obtain ⟨k, left⟩ := left
  obtain ⟨m, right⟩ := right
  refine ⟨k + m, fun slot => ?_⟩
  rw [tangent_sum, left, right, add_mul]

theorem difference (left : Through point e l) (right : Through point e r) :
    Through point e (.difference l r) := by
  obtain ⟨k, left⟩ := left
  obtain ⟨m, right⟩ := right
  refine ⟨k - m, fun slot => ?_⟩
  rw [tangent_difference, left, right, sub_mul]

theorem product (left : Through point e l) (right : Through point e r) :
    Through point e (.product l r) := by
  obtain ⟨k, left⟩ := left
  obtain ⟨m, right⟩ := right
  refine ⟨k * r.valueAt point + l.valueAt point * m, fun slot => ?_⟩
  rw [tangent_product, left, right]
  ring

theorem applied (f : UnaryFn) (argument : Through point e l) : Through point e (.applied f l) := by
  obtain ⟨k, argument⟩ := argument
  refine ⟨f.slope (l.valueAt point) * k, fun slot => ?_⟩
  rw [tangent_applied, argument, mul_assoc]

variable {inverse : K → K} (division : ∀ a b : K, a / b = a * inverse b)
include division

theorem quotient (left : Through point e l) (right : Through point e r) :
    Through point e (.quotient l r) := by
  obtain ⟨k, left⟩ := left
  obtain ⟨m, right⟩ := right
  refine ⟨(k * r.valueAt point - l.valueAt point * m) / (r.valueAt point * r.valueAt point),
    fun slot => ?_⟩
  rw [tangent_quotient slot point division, left, right, division, division]
  ring

theorem derivativeAt (f : UnaryFn) (e : Expr K) : Through point e (f.derivativeAt e) := by
  have self : Through point e e := .refl e
  have one : Through point e (.const 1) := .const 1
  have inverse_of {body : Expr K} (through : Through point e body) :
      Through point e (.quotient (.const 1) body) := one.quotient division through
  have square (g : UnaryFn) : Through point e (.product (.applied g e) (.applied g e)) :=
    (self.applied g).product (self.applied g)
  cases f with
  | sin | sinh | cosh | exp | abs => exact self.applied _
  | cos => exact (self.applied _).negative
  | tan => exact inverse_of (square .cos)
  | asin => exact inverse_of ((one.difference (self.product self)).applied .sqrt)
  | acos => exact (inverse_of ((one.difference (self.product self)).applied .sqrt)).negative
  | atan => exact inverse_of (one.sum (self.product self))
  | tanh => exact one.difference (square .tanh)
  | ln => exact inverse_of self
  | log2 | log10 => exact inverse_of (self.product (.const _))
  | sqrt => exact inverse_of ((const _).product (self.applied .sqrt))
  | cbrt => exact inverse_of ((const _).product (square .cbrt))
  | fract | signum | round | floor | ceil | trunc => exact .const _

end Through

/-- A power whose exponent is no constant. What the logarithm of the base gives by the one variable
is what the ratio gives by the other one. -/
theorem tangent_derivative_pow_comm {inverse : K → K}
    (division : ∀ a b : K, a / b = a * inverse b) {u v : Expr K} (other : ∀ c, v ≠ const c)
    {i j : Nat} {point : Nat → K}
    (base : (u.derivative i).tangent j point = (u.derivative j).tangent i point)
    (exponent : (v.derivative i).tangent j point = (v.derivative j).tangent i point) :
    ((binary .pow u v).derivative i).tangent j point =
      ((binary .pow u v).derivative j).tangent i point := by
  rw [derivative_pow i u other, derivative_pow j u other]
  simp only [tangent_product, tangent_power _ point u other, tangent_sum, tangent_applied,
    tangent_quotient _ point division, valueAt_sum, valueAt_product, valueAt_applied,
    valueAt_quotient, UnaryFn.slope, base, exponent, division]
  simp only [tangent]
  ring

/-- The mixed second derivatives of an expression have one value, in whichever order they are
taken. -/
theorem valueAt_mixed_comm {inverse : K → K} (division : ∀ a b : K, a / b = a * inverse b)
    (e : Expr K) (i j : Nat) (point : Nat → K) :
    ((e.derivative i).derivative j).valueAt point =
      ((e.derivative j).derivative i).valueAt point := by
  change (e.derivative i).tangent j point = (e.derivative j).tangent i point
  induction e with
  | const c => rfl
  | var name slot =>
      have constant (i j : Nat) : ((var name slot).derivative i).tangent j point = 0 := by
        rw [derivative]
        split <;> rfl
      rw [constant, constant]
  | neg body ih => rw [derivative, derivative, tangent_negative, tangent_negative, ih]
  | binary op l r ihl ihr =>
      cases op with
      | add => rw [derivative, derivative, tangent_sum, tangent_sum, ihl, ihr]
      | sub => rw [derivative, derivative, tangent_difference, tangent_difference, ihl, ihr]
      | mul =>
          simp only [derivative, tangent_sum, tangent_product, ihl, ihr]
          simp only [tangent]
          ring
      | div =>
          simp only [derivative, tangent_quotient _ point division, tangent_difference,
            tangent_product, valueAt_difference, valueAt_product, ihl, ihr]
          simp only [tangent]
          congr 1
          ring
      | pow =>
          cases r with
          | const c =>
              simp only [derivative, tangent_product, tangent_power_const, tangent_const,
                valueAt_product, valueAt_power, valueAt_const, ihl]
              simp only [tangent]
              ring
          | _ => exact tangent_derivative_pow_comm division (by rintro c ⟨⟩) ihl ihr
  | call f e ih =>
      -- The outer factor moves with the argument alone, at one rate for both variables.
      obtain ⟨curvature, outer⟩ := Through.derivativeAt division f e
      rw [derivative, derivative]
      split
      · rfl
      · rw [tangent_product, tangent_product, outer, outer, ih]
        simp only [tangent]
        ring

/-- The power of `x` to `y` at `x = 2` and `y = 3`. Deriving by `x` and then by `y` gives another
tree than deriving by `y` and then by `x`, and the same value. Rational numbers raise to integer
exponents here, and the logarithm is taken to be the number itself. -/
theorem valueAt_mixed_comm_power :
    let _ : Exact ℚ := .ofField (fun a b => a ^ b.num) (fun _ a => a) 1 2
      (fun a => by simp) (fun a => by simp)
    let e : Expr ℚ := .binary .pow (.var "x" 0) (.var "y" 1)
    let point (slot : Nat) : ℚ := if slot = 0 then 2 else 3
    ((e.derivative 0).derivative 1 == (e.derivative 1).derivative 0) = false ∧
      ((e.derivative 0).derivative 1).valueAt point = 28 ∧
      ((e.derivative 1).derivative 0).valueAt point = 28 := by
  intro _ e point
  have same := valueAt_mixed_comm (div_eq_mul_inv (G := ℚ)) e 0 1 point
  have value : ((e.derivative 0).derivative 1).valueAt point = 28 := by decide +kernel
  exact ⟨by decide +kernel, value, same ▸ value⟩

end Expr

end Formula
