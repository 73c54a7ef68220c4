import Formula.AnyEquation
import Formula.Proofs.Equation.WellFormed
import Formula.Proofs.Equation.Written

/-!
What does not depend on the width of an equation. Its constants, programs and values do, and so do
the partials that it keeps; but whether a request is refused, how large a result is and which text
a derivative has are seen from its expression and its variables alone.
-/

set_option autoImplicit false

namespace Formula

namespace AnyEquation

/-- What may be asked in turn. A partial derivative is asked from then on in the place of the
equation. -/
inductive Query where
  | partialBy (slot : Nat)
  | evaluate (point : List Float)
  | gradient (point : List Float)
  | hessian (point : List Float)

/-- How large a result is: the length of a row, and of each row of a grid. -/
inductive Extent where
  | equation
  | number
  | row (length : Nat)
  | grid (rows : List Nat)
  deriving DecidableEq, Repr

def step (eq : AnyEquation) : Query → Except EquationError Extent × AnyEquation
  | .partialBy slot =>
      match (eq.partialBy slot).value with
      | .error e => (.error e, eq)
      | .ok p => (.ok .equation, p)
  | .evaluate point => ((eq.evaluate point).map fun _ => .number, eq)
  | .gradient point =>
      ((eq.gradient point).value.1.map fun row => .row row.length, (eq.gradient point).value.2)
  | .hessian point =>
      ((eq.hessian point).value.1.map fun grid => .grid grid.shape, (eq.hessian point).value.2)

/-- What is seen after a request: its outcome, and the equation that is asked next. -/
structure Observation where
  outcome : Except EquationError Extent
  size : Nat
  vars : Variables
  text : String

def observe (eq : AnyEquation) : List Query → List Observation
  | [] => []
  | query :: rest =>
      let (outcome, after) := eq.step query
      ⟨outcome, after.size, after.vars, after.text⟩ :: after.observe rest

end AnyEquation

open AnyEquation

/-- What there is of an equation in every width. -/
structure Outline where
  expr : Expr Float
  vars : Variables

namespace Outline

def checkLength (o : Outline) (length : Nat) : Except EquationError Unit :=
  if length = o.vars.size then .ok () else .error (.invalidInputLength o.vars.size length)

def step (o : Outline) : Query → Except EquationError Extent × Outline
  | .partialBy slot =>
      if slot < o.vars.size then (.ok .equation, { o with expr := o.expr.derivative slot })
      else (.error (.indexOutOfRange slot o.vars.size), o)
  | .evaluate point => ((o.checkLength point.length).map fun _ => .number, o)
  | .gradient point => ((o.checkLength point.length).map fun _ => .row o.vars.size, o)
  | .hessian point =>
      ((o.checkLength point.length).map fun _ => .grid (List.replicate o.vars.size o.vars.size), o)

def observe (o : Outline) : List Query → List Observation
  | [] => []
  | query :: rest =>
      let (outcome, after) := o.step query
      ⟨outcome, after.vars.size, after.vars, after.expr.text⟩ :: after.observe rest

end Outline

namespace Equation

variable {α : Type}

def outline (eq : Equation α) : Outline := ⟨eq.expr, eq.vars⟩

theorem outline_of_bare {eq eq' : Equation α} (same : eq'.bare = eq.bare) :
    eq'.outline = eq.outline := by
  change eq'.bare.outline = eq.bare.outline
  rw [same]

variable [Width α] {eq : Equation α}

theorem outline_ofParts (source : String) (e : Expr Float) (v : Variables) :
    (ofParts source e v : Logged (Equation α)).value.outline = ⟨e, v⟩ := rfl

def step (eq : Equation α) : Query → Except EquationError Extent × Equation α
  | .partialBy slot =>
      match (eq.partialBy slot).value with
      | .error e => (.error e, eq)
      | .ok p => (.ok .equation, p)
  | .evaluate point => ((eq.evaluate (narrow α point)).map fun _ => .number, eq)
  | .gradient point =>
      ((eq.gradient (narrow α point)).value.1.map fun row => .row row.length,
        (eq.gradient (narrow α point)).value.2)
  | .hessian point =>
      ((eq.hessian (narrow α point)).value.1.map fun grid => .grid grid.shape,
        (eq.hessian (narrow α point)).value.2)

theorem length_narrow (point : List Float) : (narrow α point).length = point.length :=
  List.length_map _

theorem checkLength_outline (eq : Equation α) (point : List Float) :
    eq.outline.checkLength point.length = eq.checkPoint (narrow α point) := by
  rw [checkPoint, length_narrow]
  rfl

theorem evaluate_extent (eq : Equation α) (point : List Float) :
    ((eq.evaluate (narrow α point)).map fun _ => Extent.number) =
      (eq.outline.checkLength point.length).map fun _ => .number := by
  rw [checkLength_outline, evaluate]
  cases eq.checkPoint (narrow α point) <;> rfl

namespace Sound

theorem gradient_extent (sound : eq.Sound) (point : List Float) :
    ((eq.gradient (narrow α point)).value.1.map fun row => Extent.row row.length) =
      (eq.outline.checkLength point.length).map fun _ => .row eq.size := by
  rw [checkLength_outline, checkPoint]
  by_cases length : (narrow α point).length = eq.size
  · rw [sound.gradient_ok length, if_pos length]
    simp [Except.map]
  · rw [if_neg length]
    simp only [gradient, Logged.value_bind, Logged.value_pure, writeGradient_of_point length]
    rfl

theorem hessian_extent (sound : eq.Sound) (point : List Float) :
    ((eq.hessian (narrow α point)).value.1.map fun grid => Extent.grid grid.shape) =
      (eq.outline.checkLength point.length).map fun _ =>
        .grid (List.replicate eq.size eq.size) := by
  rw [checkLength_outline, checkPoint]
  by_cases length : (narrow α point).length = eq.size
  · obtain ⟨grid, written, shape, -⟩ := sound.hessian_ok length
    rw [written, if_pos length, ← shape]
    rfl
  · rw [if_neg length]
    simp only [hessian, Logged.value_bind, Logged.value_pure, writeHessian_of_point length]
    rfl

/-- A step is the same without a width, and leaves a sound equation behind. -/
theorem step (sound : eq.Sound) (query : Query) :
    (eq.step query).2.Sound ∧
      eq.outline.step query = ((eq.step query).1, (eq.step query).2.outline) := by
  cases query with
  | partialBy slot =>
      by_cases inside : slot < eq.size
      · have answer := sound.partialBy_value slot
        rw [checkSlot_of_lt inside] at answer
        obtain ⟨p, result, same⟩ := map_eq_ok answer
        have outline : p.outline = (eq.derive slot).value.outline := outline_of_bare same
        simp only [Equation.step, result, outline]
        exact ⟨(sound.partialBy_ok result).1, if_pos inside⟩
      · have refused : (eq.partialBy slot).value = .error (.indexOutOfRange slot eq.size) := by
          rw [partialBy, checkSlot, if_neg inside]
          rfl
        simp only [Equation.step, refused]
        exact ⟨sound, if_neg inside⟩
  | evaluate point =>
      exact ⟨sound, Prod.ext (eq.evaluate_extent point).symm rfl⟩
  | gradient point =>
      obtain ⟨sound', grows⟩ := sound.ask (.gradient (narrow α point))
      exact ⟨sound', Prod.ext (sound.gradient_extent point).symm (outline_of_bare grows.bare).symm⟩
  | hessian point =>
      obtain ⟨sound', grows⟩ := sound.ask (.hessian (narrow α point))
      exact ⟨sound', Prod.ext (sound.hessian_extent point).symm (outline_of_bare grows.bare).symm⟩

end Sound

end Equation

namespace AnyEquation

def outline : AnyEquation → Outline
  | single eq => eq.outline
  | double eq => eq.outline

def Sound : AnyEquation → Prop
  | single eq => eq.Sound
  | double eq => eq.Sound

theorem size_eq (eq : AnyEquation) : eq.size = eq.outline.vars.size := by
  cases eq <;> rfl

theorem vars_eq (eq : AnyEquation) : eq.vars = eq.outline.vars := by
  cases eq <;> rfl

theorem text_eq (eq : AnyEquation) : eq.text = eq.outline.expr.text := by
  cases eq <;> rfl

theorem narrow_float (point : List Float) : narrow Float point = point := List.map_id point

theorem shape_map_widen {α : Type} [Width α] (grid : Grid α) :
    Grid.shape (grid.map widen) = grid.shape := by
  simp [Grid.shape, widen]

theorem step_single (eq : Equation Float32) (query : Query) :
    (single eq).step query = ((eq.step query).1, single (eq.step query).2) := by
  cases query with
  | partialBy slot =>
      simp only [step, Equation.step, partialBy, Logged.value_bind, Logged.value_pure]
      cases (eq.partialBy slot).value <;> rfl
  | evaluate point =>
      simp only [step, Equation.step, evaluate]
      cases eq.evaluate (narrow Float32 point) <;> rfl
  | gradient point =>
      simp only [step, Equation.step, gradient, Logged.value_bind, Logged.value_pure]
      cases (eq.gradient (narrow Float32 point)).value.1 <;> simp [Except.map, widen]
  | hessian point =>
      simp only [step, Equation.step, hessian, Logged.value_bind, Logged.value_pure]
      cases (eq.hessian (narrow Float32 point)).value.1 <;> simp [Except.map, shape_map_widen]

theorem step_double (eq : Equation Float) (query : Query) :
    (double eq).step query = ((eq.step query).1, double (eq.step query).2) := by
  cases query with
  | partialBy slot =>
      simp only [step, Equation.step, partialBy, Logged.value_bind, Logged.value_pure]
      cases (eq.partialBy slot).value <;> rfl
  | evaluate point =>
      simp only [step, Equation.step, evaluate, narrow_float]
  | gradient point =>
      simp only [step, Equation.step, gradient, Logged.value_bind, Logged.value_pure, narrow_float]
  | hessian point =>
      simp only [step, Equation.step, hessian, Logged.value_bind, Logged.value_pure, narrow_float]

variable {eq : AnyEquation}

theorem Sound.step (sound : eq.Sound) (query : Query) :
    (eq.step query).2.Sound ∧
      eq.outline.step query = ((eq.step query).1, (eq.step query).2.outline) := by
  cases eq with
  | single eq =>
      rw [step_single]
      exact Equation.Sound.step sound query
  | double eq =>
      rw [step_double]
      exact Equation.Sound.step sound query

/-- A run is the same without a width. -/
theorem Sound.observe_eq (sound : eq.Sound) (queries : List Query) :
    eq.observe queries = eq.outline.observe queries := by
  induction queries generalizing eq with
  | nil => rfl
  | cons query rest ih =>
      obtain ⟨sound', same⟩ := sound.step query
      rw [observe, Outline.observe, same]
      generalize eq.step query = next at sound'
      obtain ⟨outcome, after⟩ := next
      dsimp only
      rw [ih sound', size_eq, vars_eq, text_eq]

theorem read_single (source : String) :
    (read source .single).value = (Equation.read source).value.map single := rfl

theorem read_double (source : String) :
    (read source .double).value = (Equation.read source).value.map double := rfl

/-- What a caller sees of a text does not depend on the width: it is read in both or refused with
the same error in both, and in any run of requests on both, each one is refused with the same error,
or has results of the same lengths and leads to equations with the same variables and the same
text. What is seen is told by the expression and the variables. -/
theorem read_alike_in_both_widths (source : String) :
    (∃ e, (read source .single).value = .error e ∧ (read source .double).value = .error e) ∨
    ∃ s d, (read source .single).value = .ok s ∧ (read source .double).value = .ok d ∧
      s.precision = .single ∧ d.precision = .double ∧
      s.size = d.size ∧ s.vars = d.vars ∧ s.text = d.text ∧
      ∀ queries, s.observe queries = d.observe queries ∧
        d.observe queries = d.outline.observe queries := by
  cases text : Expr.read source with
  | error e =>
      left
      refine ⟨e, ?_, ?_⟩
      · rw [read_single, Equation.read_of_error text]
        rfl
      · rw [read_double, Equation.read_of_error text]
        rfl
  | ok found =>
      obtain ⟨e, v⟩ := found
      right
      let s : AnyEquation := .single (Equation.ofParts source e v).value
      let d : AnyEquation := .double (Equation.ofParts source e v).value
      have single : s.outline = ⟨e, v⟩ := Equation.outline_ofParts source e v
      have double : d.outline = ⟨e, v⟩ := Equation.outline_ofParts source e v
      refine ⟨s, d, ?_, ?_, rfl, rfl, ?_, ?_, ?_, ?_⟩
      · rw [read_single, Equation.read_of_read text]
        rfl
      · rw [read_double, Equation.read_of_read text]
        rfl
      · rw [s.size_eq, d.size_eq, single, double]
      · rw [s.vars_eq, d.vars_eq, single, double]
      · rw [s.text_eq, d.text_eq, single, double]
      · intro queries
        have sound : s.Sound := Equation.sound_ofParts (α := Float32) source e v
        have sound' : d.Sound := Equation.sound_ofParts (α := Float) source e v
        rw [sound.observe_eq, sound'.observe_eq, single, double]
        exact ⟨rfl, rfl⟩

/-- A run on the product `x * y`: its gradient, its partial by `x`, a point that is too short, a
slot that is none, and a Hessian. -/
theorem read_alike_in_both_widths_product :
    let queries : List Query :=
      [.gradient [1, 2], .partialBy 0, .evaluate [1], .partialBy 7, .hessian [1, 2]]
    ∃ s d, (read "x * y" .single).value = .ok s ∧ (read "x * y" .double).value = .ok d ∧
      s.observe queries = d.observe queries ∧
      (s.observe queries).map (·.outcome) =
        [.ok (.row 2), .ok .equation, .error (.invalidInputLength 2 1),
          .error (.indexOutOfRange 7 2), .ok (.grid [2, 2])] ∧
      (s.observe queries).map (·.text) = ["(x * y)", "y", "y", "y", "y"] := by
  intro queries
  have text : Expr.read "x * y" =
      .ok (.binary .mul (.var "x" 0) (.var "y" 1), ⟨["x", "y"]⟩) := by
    cbv
  have ok := read_double "x * y"
  rw [Equation.read_of_read text] at ok
  rcases read_alike_in_both_widths "x * y" with
    ⟨e, -, failed⟩ | ⟨s, d, single, double, -, -, -, -, -, seen⟩
  · rw [ok] at failed
    contradiction
  · obtain ⟨same, told⟩ := seen queries
    obtain rfl := Except.ok.inj (ok.symm.trans double)
    refine ⟨s, _, single, double, same, ?_, ?_⟩
    · rw [same, told]
      rfl
    · rw [same, told]
      decide

end AnyEquation

end Formula
