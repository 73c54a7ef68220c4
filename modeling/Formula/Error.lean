/-!
What can go wrong between the text of a formula and its value, as causes, and the wording of
each cause. Positions count bytes from the start of the text.

Numbers never fail: a division by zero or a logarithm of a negative number is a value.
-/

set_option autoImplicit false

namespace Formula

/-- Why a text has no tokens. -/
inductive LexError where
  | emptyInput
  | unrecognizedCharacter (character : Char) (position : Nat)
  /-- A literal with more than one point. -/
  | invalidNumber (literal : String) (position : Nat)
  deriving DecidableEq, Repr

def LexError.message : LexError → String
  | emptyInput => "cannot parse an empty string"
  | unrecognizedCharacter character position =>
      s!"unrecognized character '{character}' at position {position}"
  | invalidNumber literal position => s!"invalid number literal '{literal}' at position {position}"

/-- Why a row of tokens is no formula. -/
inductive ParseError where
  | emptyInput
  /-- The tokens end where an operand should start. -/
  | unexpectedEnd
  | unbalancedParentheses (position : Nat)
  /-- The formula is complete, and tokens are left. -/
  | trailingTokens (token : String) (position : Nat)
  /-- A name before a parenthesis that is not the name of a function. -/
  | unknownFunction (name : String) (position : Nat)
  | missingOperand (function : String) (position : Nat)
  | unexpectedToken (token : String) (position : Nat)
  | nestingTooDeep (limit : Nat) (position : Nat)
  deriving DecidableEq, Repr

def ParseError.message : ParseError → String
  | emptyInput => "expression contains no tokens"
  | unexpectedEnd => "unexpected end of expression"
  | unbalancedParentheses position => s!"unbalanced parentheses at position {position}"
  | trailingTokens token position => s!"unexpected trailing token '{token}' at position {position}"
  | unknownFunction name position => s!"unknown function '{name}' at position {position}"
  | missingOperand function position =>
      s!"function '{function}' at position {position} is missing its operand"
  | unexpectedToken token position => s!"unexpected token '{token}' at position {position}"
  | nestingTooDeep limit position =>
      s!"expression nested deeper than {limit} levels at position {position}"

/-- Why an equation cannot be built, differentiated or evaluated. -/
inductive EquationError where
  | lex (cause : LexError)
  | parse (cause : ParseError)
  | indexOutOfRange (index size : Nat)
  | invalidInputLength (expected got : Nat)
  | invalidOutputLength (expected got : Nat)
  | invalidOutputShape (expected got : Nat × Nat)
  | variableNotFound (name : String)
  /-- The names, joined by commas, are no variables of the equation. -/
  | derivativeNotFound (names : String)
  deriving DecidableEq, Repr

def EquationError.message : EquationError → String
  | lex cause => "failed to tokenize expression: " ++ cause.message
  | parse cause => "failed to parse expression: " ++ cause.message
  | indexOutOfRange index size =>
      s!"variable index {index} out of range for expression with {size} variables"
  | invalidInputLength expected got => s!"Invalid input length: expected {expected}, got {got}"
  | invalidOutputLength expected got => s!"Invalid output length: expected {expected}, got {got}"
  | invalidOutputShape expected got =>
      s!"Invalid output shape: expected ({expected.1}, {expected.2}), got ({got.1}, {got.2})"
  | variableNotFound name => "Variable not found in equation: " ++ name
  | derivativeNotFound names => "Derivative not found for variable: " ++ names

end Formula
