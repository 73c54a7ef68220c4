import Formula.Error
import Formula.Operator
import Formula.Text
import Formula.UnaryFn
import Formula.Width

/-!
The tokens of a formula. A named constant is a number, and a reserved function name is a token
of its own.

Where a text is split into tokens, each of them takes as many characters as it can, and the blanks
between them are left out.
-/

set_option autoImplicit false

namespace Formula

inductive TokenKind where
  | number (value : Float)
  | name (text : String)
  | operator (op : Operator)
  | function (f : UnaryFn)
  | left
  | right
  deriving DecidableEq

/-- A token and the byte at which it starts. -/
structure Token where
  kind : TokenKind
  position : Nat
  deriving DecidableEq

/-- The constants that a formula may name. -/
def namedConstant? (word : String) : Option Float :=
  if word = "PI" ∨ word = "π" then some (Float.ofBits 0x400921fb54442d18)
  else if word = "TAU" ∨ word = "τ" then some (Float.ofBits 0x401921fb54442d18)
  else if word = "E" then some (Float.ofBits 0x4005bf0a8b145769)
  else none

theorem namedConstant?_eq_none_iff {word : String} :
    namedConstant? word = none ↔ word ∉ ["PI", "π", "TAU", "τ", "E"] := by
  unfold namedConstant?
  grind

namespace TokenKind

def text : TokenKind → String
  | number value => Width.text value
  | name text => text
  | operator op => op.symbol.toString
  | function f => f.name
  | left => "("
  | right => ")"

/-- The token that a word is: a function, a constant, or else a name. -/
def ofWord (word : String) : TokenKind :=
  match UnaryFn.ofName? word with
  | some f => function f
  | none =>
      match namedConstant? word with
      | some value => number value
      | none => name word

theorem ofWord_eq_name_iff {word text : String} :
    ofWord word = name text ↔
      word = text ∧ UnaryFn.ofName? word = none ∧ namedConstant? word = none := by
  unfold ofWord
  cases UnaryFn.ofName? word with
  | some f => simp
  | none => cases namedConstant? word <;> simp

end TokenKind

def byteLength : List Char → Nat
  | [] => 0
  | c :: rest => c.utf8Size + byteLength rest

/-- Whether a name may start with a character: any letter, and every other character beyond
ASCII that is neither blank nor a control. -/
def startsName (c : Char) : Bool :=
  c.isAlpha || c == '_' || (0x80 ≤ c.toNat && !Text.isBlank c && !Text.isControl c)

def continuesName (c : Char) : Bool := startsName c || c.isDigit

/-- Whether a number starts with `c`, when `rest` follows: with a digit, or with a point before
a digit. -/
def startsNumber (c : Char) (rest : List Char) : Bool :=
  c.isDigit || (c == '.' && rest.head?.any Char.isDigit)

/-- The digits of an exponent, with the sign before them. It has at least one digit. -/
def signedDigits (cs : List Char) : List Char :=
  match cs with
  | sign :: rest =>
      if (sign == '+' || sign == '-') && rest.head?.any Char.isDigit then
        sign :: rest.takeWhile Char.isDigit
      else cs.takeWhile Char.isDigit
  | [] => []

/-- The exponent at the head of a text, nothing if no digits follow the mark. -/
def exponentPart : List Char → List Char
  | mark :: rest =>
      if Decimal.isExponentMark mark && !(signedDigits rest).isEmpty then
        mark :: signedDigits rest
      else []
  | [] => []

/-- The characters of a number after its first one. All points are taken, so that a number with
two of them is one bad literal and not two numbers. -/
def numberTail (rest : List Char) : List Char :=
  let mantissa := rest.takeWhile fun c => c.isDigit || c == '.'
  mantissa ++ exponentPart (rest.drop mantissa.length)

/-- The token that starts with the character `c`, which is not blank, at a position, when `rest`
follows: its kind, and its characters after the first one. -/
def scanToken (position : Nat) (c : Char) (rest : List Char) :
    Except LexError (TokenKind × List Char) :=
  match Operator.ofSymbol? c with
  | some op => .ok (.operator op, [])
  | none =>
      if c = '(' then .ok (.left, [])
      else if c = ')' then .ok (.right, [])
      else if startsNumber c rest then
        match Decimal.ofLiteral? (c :: numberTail rest) with
        | some d => .ok (.number d.toFloat, numberTail rest)
        | none => .error (.invalidNumber (String.ofList (c :: numberTail rest)) position)
      else if startsName c then
        let tail := rest.takeWhile continuesName
        .ok (.ofWord (String.ofList (c :: tail)), tail)
      else .error (.unrecognizedCharacter c position)

def scanFrom (position : Nat) : List Char → Except LexError (List Token)
  | [] => .ok []
  | c :: rest =>
      if Text.isBlank c then scanFrom (position + c.utf8Size) rest
      else
        match scanToken position c rest with
        | .error e => .error e
        | .ok (kind, tail) =>
            match scanFrom (position + byteLength (c :: tail)) (rest.drop tail.length) with
            | .error e => .error e
            | .ok tokens => .ok (⟨kind, position⟩ :: tokens)
termination_by cs => cs.length
decreasing_by
  · simp
  · simp only [List.length_drop, List.length_cons]
    omega

/-- Splits a text into tokens. The empty text is refused, while a text of blanks has no
tokens. -/
def scan (source : String) : Except LexError (List Token) :=
  if source = "" then .error .emptyInput else scanFrom 0 source.toList

end Formula
