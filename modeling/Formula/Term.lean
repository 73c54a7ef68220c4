import Formula.Error
import Formula.Token
import Formula.Variables

/-!
Formulas as they are written: variables stand by name, and no operation is carried out.

A row of tokens is read as a formula by operator precedence. From the loosest to the tightest:
sums, products, powers, signs, applications. A sign binds tighter than a power, and a power
groups from the right.

Nesting is limited twice: in the groups that are open at a token (parentheses, signs, operands
of functions, right operands), and in the height of the tree. The readers take any limit, and a
whole formula is read with `maxNesting`.
-/

set_option autoImplicit false

namespace Formula

inductive Term where
  | number (value : Float)
  | var (name : String)
  | neg (body : Term)
  | binary (op : Operator) (left right : Term)
  | call (f : UnaryFn) (argument : Term)
  deriving DecidableEq

namespace Term

/-- The number of nodes on the longest way from the root to a leaf. -/
def height : Term → Nat
  | number _ | var _ => 1
  | neg body => body.height + 1
  | binary _ left right => max left.height right.height + 1
  | call _ argument => argument.height + 1

end Term

/-- The greatest nesting that is read. -/
def maxNesting : Nat := 512

/-- A place in the tokens: those to come, how many groups are open, and the names met. No more
groups are open than the limit allows. -/
structure Cursor (limit : Nat) where
  rest : List Token
  level : Nat
  names : Names
  level_le : level ≤ limit

namespace Cursor

variable {limit : Nat}

def start (limit : Nat) (tokens : List Token) : Cursor limit :=
  ⟨tokens, 0, ∅, Nat.zero_le limit⟩

def moveTo (c : Cursor limit) (rest : List Token) : Cursor limit := { c with rest }

/-- Opens a group before the tokens `rest`. The position is that of the token that opens it. -/
def openGroup (c : Cursor limit) (rest : List Token) (position : Nat) :
    Except ParseError { inner : Cursor limit // inner.rest = rest } :=
  if h : c.level + 1 ≤ limit then
    .ok ⟨{ c with rest, level := c.level + 1, level_le := h }, rfl⟩
  else .error (.nestingTooDeep limit position)

def closeGroup (c : Cursor limit) : Cursor limit :=
  { c with level := c.level - 1, level_le := Nat.le_trans (Nat.sub_le _ _) c.level_le }

@[simp] theorem rest_moveTo (c : Cursor limit) (rest : List Token) :
    (c.moveTo rest).rest = rest := rfl

@[simp] theorem rest_closeGroup (c : Cursor limit) : c.closeGroup.rest = c.rest := rfl

end Cursor

/-- A tree that has been read, its height, and the place where reading stopped. -/
structure Parsed (limit : Nat) where
  term : Term
  height : Nat
  stop : Cursor limit

namespace Parsed

variable {limit : Nat}

/-- What has been read from a cursor on, at least one token of it. -/
abbrev From (c : Cursor limit) : Type := { p : Parsed limit // p.stop.rest.length < c.rest.length }

/-- What has been read up to a cursor or some tokens further. -/
abbrev Beyond (c : Cursor limit) : Type :=
  { p : Parsed limit // p.stop.rest.length ≤ c.rest.length }

end Parsed

/-- The height of a node over subtrees of a height. -/
def growHeight (limit height position : Nat) : Except ParseError Nat :=
  if height + 1 ≤ limit then .ok (height + 1)
  else .error (.nestingTooDeep limit position)

/-- Whether a token can start the operand of a function. -/
def TokenKind.startsOperand : TokenKind → Bool
  | number _ | name _ | function _ | left => true
  | operator _ | right => false

namespace Parse

variable {limit : Nat}

mutual

/-- Reads operands joined by operators of at least the given precedence. -/
def expression (least : Nat) (c : Cursor limit) : Except ParseError (Parsed.From c) :=
  match signed c with
  | .error e => .error e
  | .ok ⟨first, hfirst⟩ =>
      match operators least first with
      | .error e => .error e
      | .ok ⟨p, hp⟩ => .ok ⟨p, Nat.lt_of_le_of_lt hp hfirst⟩
termination_by (c.rest.length, 4)

/-- Extends a left operand by the operators that follow it, of at least the given
precedence. -/
def operators (least : Nat) (left : Parsed limit) :
    Except ParseError (Parsed.Beyond left.stop) :=
  match h : left.stop.rest with
  | ⟨.operator op, position⟩ :: rest =>
      if op.precedence < least then .ok ⟨left, Nat.le_refl _⟩
      else
        match left.stop.openGroup rest position with
        | .error e => .error e
        | .ok ⟨inner, hinner⟩ =>
            match expression op.rightPrecedence inner with
            | .error e => .error e
            | .ok ⟨right, hright⟩ =>
                match growHeight limit (max left.height right.height) position with
                | .error e => .error e
                | .ok height =>
                    match operators least
                        ⟨.binary op left.term right.term, height, right.stop.closeGroup⟩ with
                    | .error e => .error e
                    | .ok ⟨p, hp⟩ => .ok ⟨p, by simp_all; omega⟩
  | _ => .ok ⟨left, Nat.le_refl _⟩
termination_by (left.stop.rest.length, 0)
decreasing_by
  all_goals simp_all [Prod.lex_def]
  all_goals omega

/-- Reads an application behind any number of signs. A plus adds nothing to the tree. -/
def signed (c : Cursor limit) : Except ParseError (Parsed.From c) :=
  match h : c.rest with
  | [] => .error .unexpectedEnd
  | ⟨.operator .sub, position⟩ :: rest =>
      match c.openGroup rest position with
      | .error e => .error e
      | .ok ⟨inner, hinner⟩ =>
          match signed inner with
          | .error e => .error e
          | .ok ⟨body, hbody⟩ =>
              match growHeight limit body.height position with
              | .error e => .error e
              | .ok height =>
                  .ok ⟨⟨.neg body.term, height, body.stop.closeGroup⟩, by simp_all; omega⟩
  | ⟨.operator .add, position⟩ :: rest =>
      match c.openGroup rest position with
      | .error e => .error e
      | .ok ⟨inner, hinner⟩ =>
          match signed inner with
          | .error e => .error e
          | .ok ⟨body, hbody⟩ =>
              .ok ⟨{ body with stop := body.stop.closeGroup }, by simp_all; omega⟩
  | _ => application c
termination_by (c.rest.length, 3)
decreasing_by
  all_goals simp_all [Prod.lex_def]

/-- Reads a function with its operand, which may be an application without parentheses, or else
a primary. -/
def application (c : Cursor limit) : Except ParseError (Parsed.From c) :=
  match h : c.rest with
  | ⟨.function f, position⟩ :: rest =>
      match c.openGroup rest position with
      | .error e => .error e
      | .ok ⟨inner, hinner⟩ =>
          if rest.head?.any (·.kind.startsOperand) then
            match application inner with
            | .error e => .error e
            | .ok ⟨argument, hargument⟩ =>
                match growHeight limit argument.height position with
                | .error e => .error e
                | .ok height =>
                    .ok ⟨⟨.call f argument.term, height, argument.stop.closeGroup⟩,
                      by simp_all; omega⟩
          else .error (.missingOperand f.name position)
  | _ => primary c
termination_by (c.rest.length, 2)
decreasing_by
  all_goals simp_all [Prod.lex_def]

/-- Reads a number, a variable or a formula in parentheses. -/
def primary (c : Cursor limit) : Except ParseError (Parsed.From c) :=
  match h : c.rest with
  | [] => .error .unexpectedEnd
  | ⟨.number value, _⟩ :: rest => .ok ⟨⟨.number value, 1, c.moveTo rest⟩, by simp [h]⟩
  | ⟨.name name, position⟩ :: rest =>
      if rest.head?.any (·.kind = .left) then .error (.unknownFunction name position)
      else
        .ok ⟨⟨.var name, 1, { c with rest, names := c.names.insert name }⟩, by simp [h]⟩
  | ⟨.left, position⟩ :: rest =>
      match c.openGroup rest position with
      | .error e => .error e
      | .ok ⟨inner, hinner⟩ =>
          match expression 0 inner with
          | .error e => .error e
          | .ok ⟨body, hbody⟩ =>
              match hstop : body.stop.rest with
              | ⟨.right, _⟩ :: after =>
                  .ok ⟨{ body with stop := body.stop.closeGroup.moveTo after },
                    by simp_all; omega⟩
              | [] => .error (.unbalancedParentheses position)
              | other :: _ => .error (.unexpectedToken other.kind.text other.position)
  | other :: _ => .error (.unexpectedToken other.kind.text other.position)
termination_by (c.rest.length, 1)
decreasing_by
  all_goals simp_all [Prod.lex_def]

end

end Parse

/-- Reads a whole row of tokens as one formula, and gathers its names. -/
def Term.ofTokens (tokens : List Token) : Except ParseError (Term × Names) :=
  if tokens.isEmpty then .error .emptyInput
  else
    match Parse.expression 0 (.start maxNesting tokens) with
    | .error e => .error e
    | .ok ⟨p, _⟩ =>
        match p.stop.rest with
        | [] => .ok (p.term, p.stop.names)
        | ⟨.right, position⟩ :: _ => .error (.unbalancedParentheses position)
        | token :: _ => .error (.trailingTokens token.kind.text token.position)

end Formula
