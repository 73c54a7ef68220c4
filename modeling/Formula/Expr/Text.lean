import Formula.Expr
import Formula.Term
import Formula.Token

/-!
From the text of a formula to its expression and back. The tree is read with names, all names get
their slots, and then the tree is bound to them. In the text of an expression every binary
operation stands in parentheses, so that it does not depend on how tightly operators bind.
-/

set_option autoImplicit false

namespace Formula

/-- Binds a tree to slots and folds what is constant, from the leaves to the root. Nothing else
is simplified, and the leftmost name without a slot is reported. -/
def Expr.ofTerm (v : Variables) : Term → Except EquationError (Expr Float)
  | .number value => .ok (.const value)
  | .var name =>
      match v.slot? name with
      | some slot => .ok (.var name slot)
      | none => .error (.variableNotFound name)
  | .neg body => do return foldRoot (.neg (← ofTerm v body))
  | .binary op left right => do
      let l ← ofTerm v left
      let r ← ofTerm v right
      return foldRoot (.binary op l r)
  | .call f argument => do return foldRoot (.call f (← ofTerm v argument))

def Expr.read (source : String) : Except EquationError (Expr Float × Variables) :=
  match scan source with
  | .error e => .error (.lex e)
  | .ok tokens =>
      match Term.ofTokens tokens with
      | .error e => .error (.parse e)
      | .ok (term, names) =>
          match Expr.ofTerm names.finalize term with
          | .error e => .error e
          | .ok expr => .ok (expr, names.finalize)

/-- A constant in a formula. What is not finite is written as a quotient that has its value. -/
def constantText (c : Float) : String :=
  match Binary.ofFloat c with
  | .nan => "(0/0)"
  | .infinite negative => if negative then "(-1/0)" else "(1/0)"
  | .finite _ _ _ => Width.text c

/-- How an operator stands between its operands: with blanks around it, unless it is a power. -/
def Operator.between : Operator → String
  | add => " + "
  | sub => " - "
  | mul => " * "
  | div => " / "
  | pow => "^"

def Expr.text : Expr Float → String
  | const c => constantText c
  | var name _ => name
  | neg body => "-(" ++ body.text ++ ")"
  | binary op left right => "(" ++ left.text ++ op.between ++ right.text ++ ")"
  | call f argument => f.name ++ "(" ++ argument.text ++ ")"

end Formula
