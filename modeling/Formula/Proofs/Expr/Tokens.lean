import Formula.Expr.Text
import Formula.Proofs.Token.Numeral
import Formula.Proofs.Width.Lawful

/-!
The tokens of the text of an expression. Constants that are not finite are written as quotients,
and a negative constant has a sign before it.
-/

set_option autoImplicit false

namespace Formula

def constantKinds (c : Float) : List TokenKind :=
  match Binary.ofFloat c with
  | .nan => [.left, .number 0, .operator .div, .number 0, .right]
  | .infinite true =>
      [.left, .operator .sub, .number 1, .operator .div, .number 0, .right]
  | .infinite false => [.left, .number 1, .operator .div, .number 0, .right]
  | .finite true _ _ => [.operator .sub, .number (-c)]
  | .finite false _ _ => [.number c]

namespace Expr

def kinds : Expr Float → List TokenKind
  | const c => constantKinds c
  | var name _ => [.name name]
  | neg body => [.operator .sub, .left] ++ body.kinds ++ [.right]
  | binary op left right => [.left] ++ left.kinds ++ [.operator op] ++ right.kinds ++ [.right]
  | call f argument => [.function f, .left] ++ argument.kinds ++ [.right]

def names {α : Type} : Expr α → Finset String
  | const _ => ∅
  | var name _ => {name}
  | neg body => body.names
  | binary _ left right => left.names ∪ right.names
  | call _ argument => argument.names

def constants {α : Type} : Expr α → List α
  | const c => [c]
  | var _ _ => []
  | neg body => body.constants
  | binary _ left right => left.constants ++ right.constants
  | call _ argument => argument.constants

end Expr

theorem ends_nil : Ends [] := nofun

theorem ends_right (rest : List Char) : Ends (')' :: rest) := by
  intro c after heq
  cases heq
  decide

theorem ends_between (op : Operator) (rest : List Char) : Ends (op.between.toList ++ rest) := by
  intro c after heq
  cases op <;> cases heq <;> decide

namespace Scans

variable {rest : List Char} {kinds : List TokenKind}

theorem between (op : Operator) (scans : Scans rest kinds) :
    Scans (op.between.toList ++ rest) (.operator op :: kinds) := by
  have spaced : Scans (' ' :: op.symbol :: ' ' :: rest) (.operator op :: kinds) :=
    blank (by decide) (operator op (blank (by decide) scans))
  cases op with
  | pow => exact operator .pow scans
  | _ => exact spaced

theorem digit (c : Char) (value : Float) (isDigit : c.isDigit = true)
    (literal : (Decimal.ofLiteral? [c]).map Decimal.toFloat = some value) (ends : Ends rest)
    (scans : Scans rest kinds) : Scans (c :: rest) (.number value :: kinds) := by
  obtain ⟨d, hd, rfl⟩ := Option.map_eq_some_iff.mp literal
  exact number ⟨c, [], rfl, isDigit, nofun⟩ hd ends scans

/-- A single digit over zero, and the parenthesis behind it. -/
theorem overZero (c : Char) (value : Float) (isDigit : c.isDigit = true)
    (literal : (Decimal.ofLiteral? [c]).map Decimal.toFloat = some value)
    (scans : Scans rest kinds) :
    Scans (c :: '/' :: '0' :: ')' :: rest)
      (.number value :: .operator .div :: .number 0 :: .right :: kinds) := by
  have zero : Scans ('0' :: ')' :: rest) (.number 0 :: .right :: kinds) :=
    digit '0' 0 (by decide) rfl (ends_right rest) (right scans)
  refine digit c value isDigit literal ?_ (operator .div zero)
  intro c after heq
  cases heq
  decide

/-- A constant that is not finite is a quotient over zero. -/
theorem notFinite {c : Float} (infinite : ∀ n s e, Binary.ofFloat c ≠ .finite n s e)
    (scans : Scans rest kinds) :
    Scans ((constantText c).toList ++ rest) (constantKinds c ++ kinds) := by
  unfold constantText constantKinds
  cases hc : Binary.ofFloat c with
  | nan =>
      have htext : "(0/0)".toList = ['(', '0', '/', '0', ')'] := by decide
      simp only [htext]
      exact left (overZero '0' 0 (by decide) rfl scans)
  | infinite negative =>
      have one := overZero '1' 1 (by decide) rfl scans
      cases negative with
      | false =>
          have htext : "(1/0)".toList = ['(', '1', '/', '0', ')'] := by decide
          simp only [Bool.false_eq_true, if_false, htext]
          exact left one
      | true =>
          have htext : "(-1/0)".toList = ['(', '-', '1', '/', '0', ')'] := by decide
          simp only [if_true, htext]
          exact left (operator .sub one)
  | finite negative significand exponent => exact absurd hc (infinite _ _ _)

end Scans

end Formula
