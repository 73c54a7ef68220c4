import Formula.Arithmetic

/-!
Expression trees over a type of constants, in which every variable has its slot, and the ways to
put a tree together. The nouns (`sum`, `product`, `power`, …) simplify at the root: they fold
constants and leave out neutral operands, so that derivatives do not fill up with `0 * …` and
`… * 1`. `foldRoot` does no more than to fold constants.
-/

set_option autoImplicit false

namespace Formula

/-- An expression. A variable carries its name and the slot of its value in a point. -/
inductive Expr (α : Type) where
  | const (value : α)
  | var (name : String) (slot : Nat)
  | neg (body : Expr α)
  | binary (op : Operator) (left right : Expr α)
  | call (f : UnaryFn) (argument : Expr α)
  deriving BEq

namespace Expr

variable {α : Type}

def dependsOn (slot : Nat) : Expr α → Bool
  | const _ => false
  | var _ s => s == slot
  | neg body => body.dependsOn slot
  | binary _ left right => left.dependsOn slot || right.dependsOn slot
  | call _ argument => argument.dependsOn slot

def nodeCount : Expr α → Nat
  | const _ | var _ _ => 1
  | neg body => 1 + body.nodeCount
  | binary _ left right => 1 + left.nodeCount + right.nodeCount
  | call _ argument => 1 + argument.nodeCount

def maxSlot? : Expr α → Option Nat
  | const _ => none
  | var _ slot => some slot
  | neg body => body.maxSlot?
  | binary _ left right =>
      match left.maxSlot?, right.maxSlot? with
      | some l, some r => some (max l r)
      | some l, none => some l
      | none, r => r
  | call _ argument => argument.maxSlot?

/-- Carries out the operation at the root when all its operands are constants. -/
def foldRoot [Arithmetic α] : Expr α → Expr α
  | neg (const c) => const (-c)
  | binary op (const a) (const b) => const (op.eval a b)
  | call f (const c) => const (Arithmetic.apply f c)
  | e => e

variable [Coefficient α]

/-- The negative of an expression. Two signs cancel. -/
def negative : Expr α → Expr α
  | const c => const (-c)
  | neg body => body
  | e => neg e

/-- The sum of two expressions. A zero is left out. -/
def sum : Expr α → Expr α → Expr α
  | const a, const b => const (a + b)
  | const c, e => if c == 0 then e else binary .add (const c) e
  | e, const c => if c == 0 then e else binary .add e (const c)
  | l, r => binary .add l r

def difference : Expr α → Expr α → Expr α
  | const a, const b => const (a - b)
  | e, const c => if c == 0 then e else binary .sub e (const c)
  | const c, e => if c == 0 then negative e else binary .sub (const c) e
  | l, r => binary .sub l r

/-- The product of two expressions. A zero makes it zero, a one is left out, and a minus one
becomes a sign. -/
def product : Expr α → Expr α → Expr α
  | const a, const b => const (a * b)
  | const c, e =>
      if c == 0 then const 0 else if c == 1 then e else if c == -1 then negative e
      else binary .mul (const c) e
  | e, const c =>
      if c == 0 then const 0 else if c == 1 then e else if c == -1 then negative e
      else binary .mul e (const c)
  | l, r => binary .mul l r

/-- The quotient of two expressions. A divisor one is left out, while a zero under the line is
kept. -/
def quotient : Expr α → Expr α → Expr α
  | const a, const b => const (a / b)
  | e, const c => if c == 1 then e else binary .div e (const c)
  | l, r => binary .div l r

def power : Expr α → Expr α → Expr α
  | const a, const b => const (Arithmetic.pow a b)
  | e, const c => if c == 0 then const 1 else if c == 1 then e else binary .pow e (const c)
  | b, e => binary .pow b e

def applied (f : UnaryFn) : Expr α → Expr α
  | const c => const (Arithmetic.apply f c)
  | e => call f e

end Expr

end Formula
