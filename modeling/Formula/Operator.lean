/-!
The binary operators of formulas and how tightly they bind.
-/

set_option autoImplicit false

namespace Formula

/-- A binary operator. The first two are also written as signs. -/
inductive Operator where
  | add | sub | mul | div | pow
  deriving DecidableEq, Repr

namespace Operator

def symbol : Operator → Char
  | add => '+'
  | sub => '-'
  | mul => '*'
  | div => '/'
  | pow => '^'

def ofSymbol? : Char → Option Operator
  | '+' => some add
  | '-' => some sub
  | '*' => some mul
  | '/' => some div
  | '^' => some pow
  | _ => none

/-- The binding power between two operands: a higher one binds tighter. -/
def precedence : Operator → Nat
  | add | sub => 1
  | mul | div => 2
  | pow => 3

def isRightAssociative : Operator → Bool
  | pow => true
  | _ => false

/-- The least binding power of an operator inside the right operand. -/
def rightPrecedence (op : Operator) : Nat :=
  if op.isRightAssociative then op.precedence else op.precedence + 1

theorem ofSymbol?_eq_some_iff {c : Char} {op : Operator} :
    ofSymbol? c = some op ↔ c = op.symbol := by
  constructor
  · intro h
    unfold ofSymbol? at h
    split at h <;> simp_all [symbol] <;> subst h <;> rfl
  · rintro rfl
    cases op <;> rfl

end Operator

end Formula
