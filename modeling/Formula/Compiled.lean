import Formula.Expr
import Formula.Program.Optimize

/-!
Expressions ready to be evaluated in one width, as constants or as stack programs.

Programs have the instructions in postfix order. Constants are narrowed to the width of the program,
and literal exponents become part of the instruction.
-/

set_option autoImplicit false

namespace Formula

inductive Compiled (α : Type) where
  | constant (value : α)
  | program (p : Program α)

variable {α : Type} [Width α]

def Expr.constantValue? : Expr Float → Option α
  | const c => some (Width.ofFloat c)
  | var _ _ => none
  | neg body => do return -(← body.constantValue?)
  | binary op left right => do
      let l ← left.constantValue?
      let r ← right.constantValue?
      return op.eval l r
  | call f argument => do return Arithmetic.apply f (← argument.constantValue?)

/-- The greatest magnitude of an exponent that is raised to as an integer. -/
def maxIntExponent : Nat := 2147483647

/-- Raising to a literal exponent: by an integer power if the exponent is a small integer. -/
def UnaryOp.ofExponent (c : Float) : UnaryOp α :=
  match (Binary.ofFloat c).toInt? with
  | some n => if n.natAbs ≤ maxIntExponent then powInt n else powConst (Width.ofFloat c)
  | none => powConst (Width.ofFloat c)

/-- The instructions that load the value of an expression, before the instructions `next`. -/
def Expr.emit : Expr Float → (next : List (Instr α)) → List (Instr α)
  | const c, next => .const (Width.ofFloat c) :: next
  | var _ slot, next => .slot slot :: next
  | neg body, next => body.emit (.unary .neg :: next)
  | binary .pow base (const c), next => base.emit (.unary (.ofExponent c) :: next)
  | binary op left right, next => left.emit (right.emit (.binary op :: next))
  | call f argument, next => argument.emit (.unary (.call f) :: next)

def Program.ofExpr (e : Expr Float) : Program α :=
  match (e.constantValue? : Option α) with
  | some c => ⟨[.const c], none, some c⟩
  | none => ⟨e.emit [], e.maxSlot?, none⟩

namespace Compiled

def ofExpr (e : Expr Float) : Logged (Compiled α) := do
  let p ← (Program.ofExpr e : Program α).optimize
  match p.constant with
  | some c =>
      Logged.record .trace s!"compiled constant function {Width.text c}"
      return constant c
  | none =>
      Logged.record .trace
        s!"compiled stack program with {p.instrs.length} ops, stack depth {p.stackDepth}"
      return program p

def run? (f : Compiled α) (point : List α) : Option α :=
  match f with
  | constant c => some c
  | program p => p.run? point

/-- The value at a point. It is not a number if the machine halts before, which the programs of
expressions never make it do. -/
def call (f : Compiled α) (point : List α) : α := (f.run? point).getD Width.nan

end Compiled

end Formula
