import Formula.Compiled
import Mathlib.Tactic

/-!
The value of an expression by recursion on its tree, without any program. It is the meaning that
a compiled expression is held against.
-/

set_option autoImplicit false

namespace Formula

/-- The rational number that a finite value is. -/
def Binary.Value.toRat? : Binary.Value → Option ℚ
  | .finite negative significand exponent =>
      some ((if negative then -1 else 1) * (significand * 2 ^ exponent))
  | _ => none

theorem Binary.shift_div_shift (significand : Nat) (exponent : Int) :
    ((significand <<< exponent.toNat : Nat) : ℚ) / (1 <<< (-exponent).toNat : Nat) =
      significand * 2 ^ exponent := by
  simp only [Nat.shiftLeft_eq, one_mul]
  push_cast
  obtain ⟨k, rfl | rfl⟩ := exponent.eq_nat_or_neg
  · simp
  · simp [div_eq_mul_inv]

theorem natCast_div_eq_intCast_iff {num den : Nat} (hden : 0 < den) {n : Int} :
    (num : ℚ) / den = n ↔ num % den = 0 ∧ n = (num / den : Nat) := by
  have hden' : (den : ℚ) ≠ 0 := by positivity
  constructor
  · intro heq
    rw [div_eq_iff hden'] at heq
    have hint : (num : Int) = n * den := by exact_mod_cast heq
    have hdvd : den ∣ num := Int.natCast_dvd_natCast.mp ⟨n, by rw [hint, mul_comm]⟩
    refine ⟨Nat.mod_eq_zero_of_dvd hdvd, ?_⟩
    rw [Int.natCast_div, hint, Int.mul_ediv_cancel _ (by positivity)]
  · rintro ⟨hmod, rfl⟩
    rw [div_eq_iff hden']
    exact_mod_cast (Nat.div_mul_cancel (Nat.dvd_of_mod_eq_zero hmod)).symm

/-- A value is an integer to the program exactly if the rational number that it is is one. -/
theorem Binary.Value.toInt?_eq_some_iff {v : Binary.Value} {n : Int} :
    v.toInt? = some n ↔ v.toRat? = some (n : ℚ) := by
  cases v with
  | nan => simp [toInt?, toRat?]
  | infinite negative => simp [toInt?, toRat?]
  | finite negative significand exponent =>
      have hden : 0 < 1 <<< (-exponent).toNat := by
        rw [Nat.shiftLeft_eq]
        positivity
      simp only [toInt?, toRat?, ← shift_div_shift]
      have hiff (m : Int) : (significand <<< exponent.toNat : Nat) / _ = (m : ℚ) ↔ _ :=
        natCast_div_eq_intCast_iff hden
      cases negative with
      | false =>
          simp only [Bool.false_eq_true, if_false, one_mul, Option.some.injEq, hiff n]
          split
          · rename_i hmod
            simp [hmod, eq_comm]
          · rename_i hmod
            simp [hmod]
      | true =>
          simp only [if_true, neg_one_mul, Option.some.injEq, neg_eq_iff_eq_neg, ← Int.cast_neg,
            hiff (-n)]
          split
          · rename_i hmod
            simp only [hmod, true_and, Option.some.injEq]
            omega
          · rename_i hmod
            simp [hmod]

variable {α : Type} [Width α]

/-- Raises a value to a literal exponent: by an integer power if the exponent is an integer of at
most 31 bits, and otherwise by the general power. -/
def Width.raise (a : α) (c : Float) : α :=
  match (Binary.ofFloat c).toRat? with
  | some q =>
      if q.den = 1 ∧ |q| ≤ 2147483647 then Width.powInt a q.num
      else Arithmetic.pow a (Width.ofFloat c)
  | none => Arithmetic.pow a (Width.ofFloat c)

def Width.raiseGenerally (a : α) (c : Float) : α := Arithmetic.pow a (Width.ofFloat c)

theorem UnaryOp.eval_ofExponent (c : Float) (a : α) :
    (UnaryOp.ofExponent c).eval a = Width.raise a c := by
  unfold ofExponent Width.raise
  cases hint : (Binary.ofFloat c).toInt? with
  | some n =>
      rw [Binary.Value.toInt?_eq_some_iff] at hint
      have hsmall : |(n : ℚ)| ≤ 2147483647 ↔ n.natAbs ≤ maxIntExponent := by
        rw [← Int.cast_abs, Int.abs_eq_natAbs]
        norm_cast
      simp only [hint, Rat.den_intCast, Rat.num_intCast, true_and, hsmall]
      split <;> rfl
  | none =>
      cases hrat : (Binary.ofFloat c).toRat? with
      | none => rfl
      | some q =>
          have hden : q.den ≠ 1 := by
            intro hden
            have hq : (q.num : ℚ) = q := Rat.den_eq_one_iff q |>.mp hden
            rw [← hq, ← Binary.Value.toInt?_eq_some_iff, hint] at hrat
            contradiction
          simp only [hden, false_and, if_false]
          rfl

namespace Expr

def hasVariable {β : Type} : Expr β → Bool
  | const _ => false
  | var _ _ => true
  | neg body => body.hasVariable
  | binary _ left right => left.hasVariable || right.hasVariable
  | call _ argument => argument.hasVariable

/-- The value at a point, where `raise` raises to literal exponents. Constants are narrowed to
the width, and a slot that the point does not have holds no number. -/
def evalBy (raise : α → Float → α) (point : List α) : Expr Float → α
  | const c => Width.ofFloat c
  | var _ slot => point[slot]?.getD Width.nan
  | neg body => -body.evalBy raise point
  | binary .pow base (const c) => raise (base.evalBy raise point) c
  | binary op left right => op.eval (left.evalBy raise point) (right.evalBy raise point)
  | call f argument => Arithmetic.apply f (argument.evalBy raise point)

/-- The value at a point. In an expression without variables every power is the general one. -/
def value (point : List α) (e : Expr Float) : α :=
  e.evalBy (if e.hasVariable then Width.raise else Width.raiseGenerally) point

/-- Induction that tells a power with a literal exponent from the other operations, as compiling
does. -/
@[elab_as_elim]
theorem induction_on_powers {motive : Expr Float → Prop} (const : ∀ c, motive (const c))
    (var : ∀ name slot, motive (var name slot)) (neg : ∀ body, motive body → motive (neg body))
    (power : ∀ base c, motive base → motive (binary .pow base (.const c)))
    (binary : ∀ op left right, (∀ c, op = .pow → right ≠ .const c) → motive left → motive right →
      motive (binary op left right))
    (call : ∀ f argument, motive argument → motive (call f argument)) (e : Expr Float) :
    motive e := by
  induction e with
  | const c => exact const c
  | var name slot => exact var name slot
  | neg body ih => exact neg body ih
  | binary op left right ihleft ihright =>
      by_cases literal : ∃ c, op = .pow ∧ right = .const c
      · obtain ⟨c, rfl, rfl⟩ := literal
        exact power left c ihleft
      · exact binary op left right (fun c pow heq => literal ⟨c, pow, heq⟩) ihleft ihright
  | call f argument ih => exact call f argument ih

section

variable {op : Operator} {left right : Expr Float} (plain : ∀ c, op = .pow → right ≠ const c)
include plain

theorem emit_binary (next : List (Instr α)) :
    (binary op left right).emit next = left.emit (right.emit (.binary op :: next)) := by
  rw [emit]
  exact plain

theorem evalBy_binary {raise : α → Float → α} {point : List α} :
    (binary op left right).evalBy raise point =
      op.eval (left.evalBy raise point) (right.evalBy raise point) := by
  rw [evalBy]
  exact plain

end

theorem evalBy_raiseGenerally_binary (op : Operator) (left right : Expr Float) (point : List α) :
    (binary op left right).evalBy Width.raiseGenerally point =
      op.eval (left.evalBy Width.raiseGenerally point)
        (right.evalBy Width.raiseGenerally point) := by
  cases op <;> cases right <;> rfl

theorem constantValue?_eq (e : Expr Float) (point : List α) :
    e.constantValue? =
      if e.hasVariable then none else some (e.evalBy Width.raiseGenerally point) := by
  induction e with
  | const c => rfl
  | var name slot => rfl
  | neg body ih =>
      rw [constantValue?, ih, hasVariable]
      split <;> rfl
  | binary op left right ihleft ihright =>
      simp only [constantValue?, ihleft, ihright, hasVariable, evalBy_raiseGenerally_binary]
      cases left.hasVariable <;> cases right.hasVariable <;> rfl
  | call f argument ih =>
      rw [constantValue?, ih, hasVariable]
      split <;> rfl

end Expr

end Formula
