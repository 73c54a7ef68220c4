import Formula.Compiled
import Formula.Expr.Derivative
import Formula.Expr.Text
import Formula.Text

/-!
Equations: a formula with its expression, compiled for one width, and the partial derivatives
that have been asked for so far. The first partials are derived together when the first of them
is needed, the second ones likewise, and what has been derived is kept.

An operation that may derive partials returns the equation that keeps them beside its result. A
partial derivative is an equation over the same variables. An equation is described to a reader
with a labelled line for each part.
-/

set_option autoImplicit false

namespace Formula

structure Equation (α : Type) where
  /-- The text that was read, or the formula of a derivative. -/
  source : String
  expr : Expr Float
  compiled : Compiled α
  vars : Variables
  first : Option (List (Equation α))
  /-- The partials of the first partials in the order of `upperTriangle`, once derived. -/
  second : Option (List (Equation α))

/-- The pairs `(r, c)` with `r ≤ c < n`, row by row. -/
def upperTriangle (n : Nat) : List (Nat × Nat) :=
  (List.range n).flatMap fun r => (List.range' r (n - r)).map fun c => (r, c)

/-- The place of `(r, c)` in the upper triangle, for `r ≤ c < n`. -/
def triangularIndex (n r c : Nat) : Nat := r * (2 * n - r + 1) / 2 + (c - r)

namespace Equation

variable {α : Type}

def text (eq : Equation α) : String := eq.expr.text

def size (eq : Equation α) : Nat := eq.vars.size

variable [Width α]

def ofParts (source : String) (expr : Expr Float) (vars : Variables) :
    Logged (Equation α) := do
  let compiled ← Compiled.ofExpr expr
  return { source, expr, compiled, vars, first := none, second := none }

def ofExpr (expr : Expr Float) (vars : Variables) : Logged (Equation α) :=
  ofParts expr.text expr vars

def read (source : String) : Logged (Except EquationError (Equation α)) :=
  match Expr.read source with
  | .error e => return .error e
  | .ok (expr, vars) => do
      let tag := (Width.precision α).tag
      Logged.record .debug <|
        "compiled '" ++ source ++ "' in " ++ tag ++ " with variables " ++
          Text.quotedList vars.names
      return .ok (← ofParts source expr vars)

def derive (eq : Equation α) (slot : Nat) : Logged (Equation α) :=
  ofExpr (eq.expr.derivative slot) eq.vars

def firstPartials (eq : Equation α) : Logged (List (Equation α) × Equation α) :=
  match eq.first with
  | some partials => return (partials, eq)
  | none => do
      Logged.record .debug s!"deriving {eq.size} first partials of '{eq.source}'"
      let partials ← (List.range eq.size).mapM eq.derive
      return (partials, { eq with first := some partials })

def derivationsOf (first : List (Equation α)) : List (Equation α × Nat) :=
  first.zipIdx.flatMap fun (p, row) =>
    (List.range' row (first.length - row)).map fun column => (p, column)

def secondPartials (eq : Equation α) : Logged (List (Equation α) × Equation α) :=
  match eq.second with
  | some partials => return (partials, eq)
  | none => do
      Logged.record .debug
        s!"deriving {eq.size * (eq.size + 1) / 2} second partials of '{eq.source}'"
      let (first, eq) ← eq.firstPartials
      let second ← (derivationsOf first).mapM fun (p, column) => p.derive column
      return (second, { eq with second := some second })

def checkSlot (eq : Equation α) (slot : Nat) : Except EquationError Unit :=
  if slot < eq.size then .ok () else .error (.indexOutOfRange slot eq.size)

/-- The partial by a slot: the one at hand, or else one derived afresh, which is not kept. -/
def partialBy (eq : Equation α) (slot : Nat) : Logged (Except EquationError (Equation α)) :=
  match eq.checkSlot slot with
  | .error e => return .error e
  | .ok () =>
      match eq.first.bind (·[slot]?) with
      | some p => return .ok p
      | none => return .ok (← eq.derive slot)

def partialByName (eq : Equation α) (name : String) :
    Logged (Except EquationError (Equation α) × Equation α) :=
  match eq.vars.slot? name with
  | none => return (.error (.derivativeNotFound name), eq)
  | some slot => do
      let (partials, eq) ← eq.firstPartials
      match partials[slot]? with
      | some p => return (.ok p, eq)
      | none => return (.error (.derivativeNotFound name), eq)

/-- Each element where it stands first. -/
def distinct (names : List String) : List String :=
  names.foldl (fun seen name => if name ∈ seen then seen else seen ++ [name]) []

/-- The higher partial by variables in turn. The unknown names are reported together; if their
joined text is empty, which happens for the empty name alone, they are passed over. -/
def deriveBy (eq : Equation α) (names : List String) :
    Logged (Except EquationError (Equation α)) :=
  let unknown := distinct (names.filter fun name => (eq.vars.slot? name).isNone)
  let missing := ", ".intercalate unknown
  if missing ≠ "" then return .error (.derivativeNotFound missing)
  else do
    let slots := names.filterMap eq.vars.slot?
    let expr := slots.foldl (fun e slot => e.derivative slot) eq.expr
    return .ok (← ofExpr expr eq.vars)

/-- The second partial by two slots. Below the diagonal it is the entry across it. -/
def secondPartial (eq : Equation α) (row column : Nat) :
    Logged (Except EquationError (Equation α) × Equation α) :=
  match eq.checkSlot row, eq.checkSlot column with
  | .error e, _ => return (.error e, eq)
  | .ok (), .error e => return (.error e, eq)
  | .ok (), .ok () => do
      let (partials, eq) ← eq.secondPartials
      match partials[triangularIndex eq.size (min row column) (max row column)]? with
      | some p => return (.ok p, eq)
      | none => return (.error (.indexOutOfRange (max row column) eq.size), eq)

inductive Detail where
  | brief
  | full
  deriving DecidableEq, Repr

def label (color : Bool) (s : String) : String :=
  if color then "\x1b[36m" ++ s ++ "\x1b[0m" else s

def labelled (color : Bool) (name value : String) : String :=
  "    " ++ label color name ++ ": " ++ value ++ "\n\n"

/-- The text of an equation and its variables; in full also its expression and its width. -/
def describe (detail : Detail) (color : Bool) (eq : Equation α) : String :=
  let source := labelled color "Equation" eq.source
  let vars := labelled color "Sorted Variables" (Text.quotedList eq.vars.names)
  let body :=
    match detail with
    | .brief => source ++ vars
    | .full =>
        source ++ labelled color "Expression" eq.text ++ vars ++
          labelled color "Precision" (Width.precision α).tag
  "\x7b\n\n" ++ body ++ "\x7d\n"

end Equation

end Formula
