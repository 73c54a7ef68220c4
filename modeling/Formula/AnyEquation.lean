import Formula.Equation.Evaluate

/-!
Equations whose width is chosen by name. Points and values are in double precision on the
outside; an equation of single precision narrows the points it gets and widens its results.
-/

set_option autoImplicit false

namespace Formula

inductive AnyEquation where
  | single (eq : Equation Float32)
  | double (eq : Equation Float)

/-- The nearest point of a width. -/
def narrow (α : Type) [Width α] (point : List Float) : List α := point.map Width.ofFloat

def widen {α : Type} [Width α] (row : List α) : List Float := row.map Width.toFloat

namespace AnyEquation

def read (source : String) (precision : Precision) :
    Logged (Except EquationError AnyEquation) := do
  Logged.record .debug s!"parsing '{source}' for {precision.tag}"
  match precision with
  | .single => return (← Equation.read source).map single
  | .double => return (← Equation.read source).map double

def precision : AnyEquation → Precision
  | single _ => .single
  | double _ => .double

def size : AnyEquation → Nat
  | single eq => eq.size
  | double eq => eq.size

def vars : AnyEquation → Variables
  | single eq => eq.vars
  | double eq => eq.vars

def text : AnyEquation → String
  | single eq => eq.text
  | double eq => eq.text

def evaluate (eq : AnyEquation) (point : List Float) : Except EquationError Float :=
  match eq with
  | single eq => (eq.evaluate (narrow Float32 point)).map Width.toFloat
  | double eq => eq.evaluate point

def partialBy (eq : AnyEquation) (slot : Nat) : Logged (Except EquationError AnyEquation) :=
  match eq with
  | single eq => return (← eq.partialBy slot).map single
  | double eq => return (← eq.partialBy slot).map double

def gradient (eq : AnyEquation) (point : List Float) :
    Logged (Except EquationError (List Float) × AnyEquation) :=
  match eq with
  | single eq => do
      let (row, eq) ← eq.gradient (narrow Float32 point)
      return (row.map widen, single eq)
  | double eq => do
      let (row, eq) ← eq.gradient point
      return (row, double eq)

def hessian (eq : AnyEquation) (point : List Float) :
    Logged (Except EquationError (Grid Float) × AnyEquation) :=
  match eq with
  | single eq => do
      let (grid, eq) ← eq.hessian (narrow Float32 point)
      return (grid.map (·.map widen), single eq)
  | double eq => do
      let (grid, eq) ← eq.hessian point
      return (grid, double eq)

end AnyEquation

end Formula
