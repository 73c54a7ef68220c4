import Formula.Operator
import Formula.UnaryFn

/-!
What a type of numbers offers to expressions. Nothing is assumed of the operations here: the
laws that a statement needs are its hypotheses.
-/

set_option autoImplicit false

namespace Formula

/-- The operators and functions of a formula on one type of numbers. -/
class Arithmetic (α : Type) extends Add α, Sub α, Mul α, Div α, Neg α where
  pow : α → α → α
  apply : UnaryFn → α → α

/-- The numbers that stand as constants in expression trees. Equality is a test, which need not
agree with equality in the logic. -/
class Coefficient (α : Type) extends Arithmetic α, Zero α, One α, BEq α where
  two : α
  three : α
  ln2 : α
  ln10 : α

def Operator.eval {α : Type} [Arithmetic α] : Operator → α → α → α
  | add, a, b => a + b
  | sub, a, b => a - b
  | mul, a, b => a * b
  | div, a, b => a / b
  | pow, a, b => Arithmetic.pow a b

namespace Operator

variable {α : Type} [Arithmetic α] (a b : α)

@[simp] theorem eval_add : add.eval a b = a + b := rfl

@[simp] theorem eval_sub : sub.eval a b = a - b := rfl

@[simp] theorem eval_mul : mul.eval a b = a * b := rfl

@[simp] theorem eval_div : div.eval a b = a / b := rfl

@[simp] theorem eval_pow : pow.eval a b = Arithmetic.pow a b := rfl

end Operator

/-- The steps of raising to a power by repeated squaring: `result` has gathered the factors of
the binary digits that are done, and `a` is the factor of the next one. -/
def squaring {α : Type} [Mul α] : (digits : Nat) → (result a : α) → (n : Nat) → α
  | 0, result, _, _ => result
  | digits + 1, result, a, n =>
      squaring digits (if n % 2 = 1 then result * a else result) (a * a) (n / 2)

/-- An integer power by repeated squaring, one square for each binary digit of the exponent. The
power of a negative exponent is the inverse of the positive one. -/
def squaringPow {α : Type} [Mul α] [Div α] (one a : α) (n : Int) : α :=
  let power := squaring (n.natAbs.log2 + 1) one a n.natAbs
  if n < 0 then one / power else power

end Formula
