import Formula.Buffer
import Formula.Equation

/-!
The values of an equation at a point: its own, those of its first partials (the gradient), and
those of its second partials (the Hessian).
-/

set_option autoImplicit false

namespace Formula.Equation

variable {α : Type} [Width α]

def checkPoint (eq : Equation α) (point : List α) : Except EquationError Unit :=
  if point.length = eq.size then .ok ()
  else .error (.invalidInputLength eq.size point.length)

def evaluate (eq : Equation α) (point : List α) : Except EquationError α :=
  match eq.checkPoint point with
  | .error e => .error e
  | .ok () => .ok (eq.compiled.call point)

/-- The values at many points. The first point of a wrong length is reported. -/
def evaluateAll (eq : Equation α) (points : List (List α)) : Except EquationError (List α) :=
  points.mapM eq.evaluate

structure Written (β : Type) where
  outcome : Except EquationError Unit
  buffer : β

/-- Writes the gradient at a point into a row, which must have an entry for each variable. -/
def writeGradient (eq : Equation α) (point row : List α) :
    Logged (Written (List α) × Equation α) :=
  match eq.checkPoint point with
  | .error e => return (⟨.error e, row⟩, eq)
  | .ok () =>
      if row.length ≠ eq.size then
        return (⟨.error (.invalidOutputLength eq.size row.length), row⟩, eq)
      else do
        let (partials, eq) ← eq.firstPartials
        let values := partials.map (·.compiled.call point)
        return (⟨.ok (), (Row.writeFrom? 0 values row).getD row⟩, eq)

def gradient (eq : Equation α) (point : List α) :
    Logged (Except EquationError (List α) × Equation α) := do
  let (written, eq) ← eq.writeGradient point (List.replicate eq.size 0)
  return (written.outcome.map fun _ => written.buffer, eq)

/-- Writes the Hessian at a point into a grid, which must have a row and a column for each
variable. Only the upper triangle is evaluated, so that the result is symmetric. -/
def writeHessian (eq : Equation α) (point : List α) (grid : Grid α) :
    Logged (Written (Grid α) × Equation α) :=
  match eq.checkPoint point with
  | .error e => return (⟨.error e, grid⟩, eq)
  | .ok () =>
      if grid.dimensions ≠ (eq.size, eq.size) then
        return (⟨.error (.invalidOutputShape (eq.size, eq.size) grid.dimensions), grid⟩, eq)
      else do
        let (partials, eq) ← eq.secondPartials
        let values := partials.map (·.compiled.call point)
        let entries := (upperTriangle eq.size).zip values
        return (⟨.ok (), (Grid.writeAll? entries grid).getD grid⟩, eq)

def hessian (eq : Equation α) (point : List α) :
    Logged (Except EquationError (Grid α) × Equation α) := do
  let (written, eq) ← eq.writeHessian point (Grid.zeros eq.size eq.size)
  return (written.outcome.map fun _ => written.buffer, eq)

end Formula.Equation
