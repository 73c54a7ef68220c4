import Formula.Expr

/-!
Symbolic differentiation. The derivative of an expression is again an expression over the same
variables.
-/

set_option autoImplicit false

namespace Formula

variable {α : Type} [Coefficient α]

/-- The derivative of a function at an expression, the outer factor of the chain rule. A step
function counts as constant, at its jumps too. -/
def UnaryFn.derivativeAt (f : UnaryFn) (e : Expr α) : Expr α :=
  let one : Expr α := .const 1
  match f with
  | .sin => .applied .cos e
  | .cos => .negative (.applied .sin e)
  | .tan => .quotient one (.product (.applied .cos e) (.applied .cos e))
  | .asin => .quotient one (.applied .sqrt (.difference one (.product e e)))
  | .acos => .negative (.quotient one (.applied .sqrt (.difference one (.product e e))))
  | .atan => .quotient one (.sum one (.product e e))
  | .sinh => .applied .cosh e
  | .cosh => .applied .sinh e
  | .tanh => .difference one (.product (.applied .tanh e) (.applied .tanh e))
  | .exp => .applied .exp e
  | .ln => .quotient one e
  | .log2 => .quotient one (.product e (.const Coefficient.ln2))
  | .log10 => .quotient one (.product e (.const Coefficient.ln10))
  | .sqrt => .quotient one (.product (.const Coefficient.two) (.applied .sqrt e))
  | .cbrt =>
      .quotient one
        (.product (.const Coefficient.three) (.product (.applied .cbrt e) (.applied .cbrt e)))
  | .abs => .applied .signum e
  | .fract => one
  | .signum | .round | .floor | .ceil | .trunc => .const 0

/-- The derivative by the variable in a slot. A power with a literal exponent follows the rule
`c * u ^ (c - 1) * u'`; any other one has a logarithm in it, which is no number unless the base
is positive. -/
def Expr.derivative (slot : Nat) : Expr α → Expr α
  | const _ => const 0
  | var _ s => if s = slot then const 1 else const 0
  | neg body => negative (body.derivative slot)
  | binary .add l r => sum (l.derivative slot) (r.derivative slot)
  | binary .sub l r => difference (l.derivative slot) (r.derivative slot)
  | binary .mul l r => sum (product (l.derivative slot) r) (product l (r.derivative slot))
  | binary .div l r =>
      quotient (difference (product (l.derivative slot) r) (product l (r.derivative slot)))
        (product r r)
  | binary .pow u (const c) =>
      product (product (const c) (power u (const (c - 1)))) (u.derivative slot)
  | binary .pow u v =>
      product (power u v)
        (sum (product (v.derivative slot) (applied .ln u))
          (product v (quotient (u.derivative slot) u)))
  | call f e => if f.isStep then const 0 else product (f.derivativeAt e) (e.derivative slot)

theorem Expr.derivative_pow (slot : Nat) (u : Expr α) {v : Expr α} (other : ∀ c, v ≠ const c) :
    (binary .pow u v).derivative slot =
      product (power u v) (sum (product (v.derivative slot) (applied .ln u))
        (product v (quotient (u.derivative slot) u))) := by
  cases v with
  | const c => exact absurd rfl (other c)
  | _ => rfl

end Formula
