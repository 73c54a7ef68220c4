import Formula.Equation.Evaluate
import Mathlib.Data.List.Basic
import Mathlib.Tactic

/-!
What a caller does with equations. The partials that an equation keeps stand inside of it, and they
may be asked in their place like any other equation; a copy of an equation goes its own way, with
copies of all that is kept in it.
-/

set_option autoImplicit false

namespace Formula

inductive Degree where
  | first
  | second
  deriving DecidableEq

/-- A way from an equation to one that is kept inside of it. -/
abbrev Path : Type := List (Degree × Nat)

/-- What may be asked of an equation. -/
inductive Request (α : Type) where
  | evaluate (point : List α)
  | partialBy (slot : Nat)
  | partialByName (name : String)
  | deriveBy (names : List String)
  | secondPartial (row column : Nat)
  | firstPartials
  | secondPartials
  | gradient (point : List α)
  | hessian (point : List α)
  | writeGradient (point row : List α)
  | writeHessian (point : List α) (grid : Grid α)
  | copy

inductive Answer (α : Type) where
  | value (result : Except EquationError α)
  | row (result : Except EquationError (List α))
  | grid (result : Except EquationError (Grid α))
  | writtenRow (written : Equation.Written (List α))
  | writtenGrid (written : Equation.Written (Grid α))
  | equation (result : Except EquationError (Equation α))
  | equations (partials : List (Equation α))

namespace Equation

variable {α : Type}

def kept (eq : Equation α) : Degree → Option (List (Equation α))
  | .first => eq.first
  | .second => eq.second

def keep (eq : Equation α) (partials : List (Equation α)) : Degree → Equation α
  | .first => { eq with first := some partials }
  | .second => { eq with second := some partials }

/-- The equation without what it keeps. -/
def bare (eq : Equation α) : Equation α := { eq with first := none, second := none }

def at? (eq : Equation α) : Path → Option (Equation α)
  | [] => some eq
  | (degree, i) :: path => do (← (← eq.kept degree)[i]?).at? path

def modify (eq : Equation α) (f : Equation α → Equation α) : Path → Equation α
  | [] => f eq
  | (degree, i) :: path =>
      match eq.kept degree with
      | none => eq
      | some partials => eq.keep (partials.modify i fun p => p.modify f path) degree

/-- The answer to a request, and what the equation has become by it. -/
def ask [Width α] (eq : Equation α) : Request α → Answer α × Equation α
  | .evaluate point => (.value (eq.evaluate point), eq)
  | .partialBy slot => (.equation (eq.partialBy slot).value, eq)
  | .partialByName name =>
      (.equation (eq.partialByName name).value.1, (eq.partialByName name).value.2)
  | .deriveBy names => (.equation (eq.deriveBy names).value, eq)
  | .secondPartial row column =>
      (.equation (eq.secondPartial row column).value.1, (eq.secondPartial row column).value.2)
  | .firstPartials => (.equations eq.firstPartials.value.1, eq.firstPartials.value.2)
  | .secondPartials => (.equations eq.secondPartials.value.1, eq.secondPartials.value.2)
  | .gradient point => (.row (eq.gradient point).value.1, (eq.gradient point).value.2)
  | .hessian point => (.grid (eq.hessian point).value.1, (eq.hessian point).value.2)
  | .writeGradient point row =>
      (.writtenRow (eq.writeGradient point row).value.1, (eq.writeGradient point row).value.2)
  | .writeHessian point grid =>
      (.writtenGrid (eq.writeHessian point grid).value.1, (eq.writeHessian point grid).value.2)
  | .copy => (.equation (.ok eq), eq)

end Equation

namespace Answer

variable {α : Type}

def equationsOf : Answer α → List (Equation α)
  | equation (.ok p) => [p]
  | equations partials => partials
  | _ => []

/-- The answer without what the equations in it keep. -/
def bare : Answer α → Answer α
  | equation result => equation (result.map Equation.bare)
  | equations partials => equations (partials.map Equation.bare)
  | answer => answer

end Answer

/-- The equations that a caller holds, in the order in which they came. -/
abbrev Session (α : Type) : Type := List (Equation α)

/-- An equation that is held, or one inside of it. -/
structure Place where
  holder : Nat
  path : Path
  deriving DecidableEq

namespace Session

variable {α : Type}

def at? (s : Session α) (place : Place) : Option (Equation α) := do
  (← s[place.holder]?).at? place.path

variable [Width α]

/-- Asks the equation at a place. The equations of the answer are held from then on. -/
def ask? (s : Session α) (place : Place) (request : Request α) : Option (Answer α × Session α) := do
  let eq ← s.at? place
  let answer := (eq.ask request).1
  return (answer, s.modify place.holder (fun held =>
    held.modify (fun p => (p.ask request).2) place.path) ++ answer.equationsOf)

/-- Asks in turn, and fails if there is no equation at one of the places. -/
def run? (s : Session α) (asked : List (Place × Request α)) : Option (Session α) :=
  asked.foldlM (fun s ask => (s.ask? ask.1 ask.2).map (·.2)) s

end Session

end Formula
