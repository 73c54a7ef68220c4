import Formula.Proofs.Compiled
import Formula.Proofs.Equation.WellFormed

/-!
Compiled expressions by their operands. Alone, an expression without variables raises to literal
exponents by the general power; beside a variable it raises to integers by integer powers. So an
operand has the value there that it has alone, unless the two powers are at odds in it.
-/

set_option autoImplicit false

namespace Formula

variable {α : Type} [Width α]

namespace Expr

/-- The powers with literal exponents in an expression, each as its base and the exponent. -/
def literalPowers : Expr Float → List (Expr Float × Float)
  | const _ | var _ _ => []
  | neg body => body.literalPowers
  | binary .pow base (const c) => (base, c) :: base.literalPowers
  | binary _ left right => left.literalPowers ++ right.literalPowers
  | call _ argument => argument.literalPowers

theorem literalPowers_binary {op : Operator} {left right : Expr Float}
    (plain : ∀ c, op = .pow → right ≠ const c) :
    (binary op left right).literalPowers = left.literalPowers ++ right.literalPowers := by
  rw [literalPowers]
  exact plain

theorem evalBy_congr {raise raise' : α → Float → α} {point : List α} {e : Expr Float}
    (agree : ∀ base c, (base, c) ∈ e.literalPowers →
      raise (base.evalBy raise' point) c = raise' (base.evalBy raise' point) c) :
    e.evalBy raise point = e.evalBy raise' point := by
  induction e using induction_on_powers with
  | const c => rfl
  | var name slot => rfl
  | neg body ih => exact congrArg (- ·) (ih agree)
  | power base c ih =>
      rw [evalBy, evalBy, ih fun _ _ member => agree _ _ (List.mem_cons_of_mem _ member)]
      exact agree base c List.mem_cons_self
  | binary op left right plain ihleft ihright =>
      rw [literalPowers_binary plain] at agree
      rw [evalBy_binary plain, evalBy_binary plain,
        ihleft fun base c member => agree base c (List.mem_append_left _ member),
        ihright fun base c member => agree base c (List.mem_append_right _ member)]
  | call f argument ih => exact congrArg (Arithmetic.apply f) (ih agree)

/-- The value that an expression has as an operand beside another one: a variable in either of
them decides how both raise to literal exponents. -/
def valueBeside (e other : Expr Float) (point : List α) : α :=
  e.evalBy (if e.hasVariable || other.hasVariable then Width.raise else Width.raiseGenerally) point

/-- What makes the value of an operand beside another one that which it has alone: variables of its
own, none in the other one, or that at each of its literal exponents the integer power and the
general power agree. -/
def SteadyBeside (e other : Expr Float) (point : List α) : Prop :=
  e.hasVariable ∨ ¬ other.hasVariable ∨
    ∀ base c, (base, c) ∈ e.literalPowers →
      Width.raise (base.evalBy Width.raiseGenerally point) c =
        Width.raiseGenerally (base.evalBy Width.raiseGenerally point) c

theorem SteadyBeside.valueBeside_eq {e other : Expr Float} {point : List α}
    (steady : e.SteadyBeside other point) : e.valueBeside other point = e.value point := by
  rw [valueBeside, value]
  by_cases own : e.hasVariable
  · rw [own, Bool.true_or]
  · by_cases beside : other.hasVariable
    · have agree := (steady.resolve_left own).resolve_left (not_not.mpr beside)
      rw [beside, Bool.or_true, if_pos rfl, if_neg own]
      exact evalBy_congr agree
    · rw [Bool.eq_false_iff.mpr beside, Bool.or_false]

theorem Folded.steadyBeside {e : Expr Float} (folded : e.Folded) (other : Expr Float)
    (point : List α) : e.SteadyBeside other point := by
  by_cases own : e.hasVariable
  · exact .inl own
  · have constant := folded.hasVariable_iff.mp (Bool.eq_false_iff.mpr own)
    cases e with
    | const c => exact .inr (.inr nofun)
    | _ => contradiction

theorem value_binary {op : Operator} {left right : Expr Float}
    (plain : op = .pow → ¬ right.isConst) (point : List α) :
    (binary op left right).value point =
      op.eval (left.valueBeside right point) (right.valueBeside left point) := by
  have kept (c : Float) (power : op = .pow) : right ≠ const c := by
    rintro rfl
    exact plain power rfl
  rw [value, evalBy_binary kept, valueBeside, valueBeside, Bool.or_comm right.hasVariable,
    hasVariable]

end Expr

namespace Compiled

variable [Width.Lawful α]

theorem run?_of_computes {e : Expr Float} {point : List α} {a : α}
    (computes : (Program.ofExpr e).Computes point a) :
    (ofExpr e).value.run? point = some a := by
  have optimized := computes.optimize
  unfold ofExpr
  rw [Logged.value_bind]
  split
  · rename_i c known
    exact congrArg some (optimized.constant c known)
  · exact Program.run?_eq_some optimized.exec?

/-- A sign or a function comes to its value from the value of its operand alone. An operation comes
to its value from what its operands are beside each other, which is what they are alone if they are
steady, and folded operands are. -/
theorem value_from_operands (point : List α) :
    (∀ e, ∃ a, (ofExpr e).value.run? point = some a ∧
      (ofExpr (.neg e)).value.run? point = some (-a)) ∧
    (∀ f e, ∃ a, (ofExpr e).value.run? point = some a ∧
      (ofExpr (.call f e)).value.run? point = some (Arithmetic.apply f a)) ∧
    (∀ op l r, (op = .pow → ¬ r.isConst) →
      ∃ a b, (ofExpr l).value.run? point = some a ∧ (ofExpr r).value.run? point = some b ∧
        (ofExpr (.binary op l r)).value.run? point =
          some (op.eval (l.valueBeside r point) (r.valueBeside l point)) ∧
        (l.SteadyBeside r point → l.valueBeside r point = a) ∧
        (r.SteadyBeside l point → r.valueBeside l point = b)) ∧
    (∀ e other : Expr Float, e.Folded → e.SteadyBeside other point) := by
  have runs (e : Expr Float) : (ofExpr e).value.run? point = some (e.value point) :=
    run?_of_computes (Program.computes_ofExpr e point)
  refine ⟨?_, ?_, ?_, fun e other folded => folded.steadyBeside other point⟩
  · intro e
    exact ⟨e.value point, runs e, runs (.neg e)⟩
  · intro f e
    exact ⟨e.value point, runs e, runs (.call f e)⟩
  · intro op l r plain
    refine ⟨l.value point, r.value point, runs l, runs r, ?_, ?_, ?_⟩
    · rw [runs, Expr.value_binary plain]
    · exact Expr.SteadyBeside.valueBeside_eq
    · exact Expr.SteadyBeside.valueBeside_eq

theorem value_from_operands_product :
    let l : Expr Float := .binary .mul (.const 2) (.const 3)
    let r : Expr Float := .var "x" 0
    Width.Lawful Float ∧ (Operator.add = .pow → ¬ r.isConst) ∧
      l.SteadyBeside r [(3 : Float)] ∧ r.SteadyBeside l [(3 : Float)] ∧
      (ofExpr (.binary .add l r)).value.run? [(3 : Float)] = some 9 := by
  intro l r
  have plain : Operator.add = .pow → ¬ r.isConst := nofun
  have left : l.SteadyBeside r [(3 : Float)] := .inr (.inr nofun)
  have right : r.SteadyBeside l [(3 : Float)] := .inl rfl
  obtain ⟨-, -, operation, -⟩ := value_from_operands [(3 : Float)]
  obtain ⟨a, b, alone, alone', runs, steady, steady'⟩ := operation .add l r plain
  refine ⟨inferInstance, plain, left, right, ?_⟩
  rw [runs]
  decide +kernel

/-- In single precision 16777216 and 16777217 are one exponent to the general power, so that minus
one raised to either has one value alone, whatever that is. Beside a variable it is one and minus
one. -/
theorem sum_not_from_operands :
    let power (c : Float) : Expr Float := .binary .pow (.const (-1)) (.const c)
    let x : Expr Float := .var "x" 0
    let sum (c : Float) : Expr Float := .binary .add (power c) x
    let point : List Float32 := [0]
    (ofExpr (sum 16777216)).value.run? point = some 1 ∧
      (ofExpr (sum 16777217)).value.run? point = some (-1) ∧
      (ofExpr (power 16777216)).value.run? point = (ofExpr (power 16777217)).value.run? point ∧
      ¬ ∀ c, ∃ a b, (ofExpr (power c)).value.run? point = some a ∧
        (ofExpr x).value.run? point = some b ∧
        (ofExpr (sum c)).value.run? point = some (a + b) := by
  intro power x sum point
  have even : (ofExpr (sum 16777216)).value.run? point = some 1 := by
    rw [run?_of_computes (Program.computes_ofExpr _ point)]
    decide +kernel
  have odd : (ofExpr (sum 16777217)).value.run? point = some (-1) := by
    rw [run?_of_computes (Program.computes_ofExpr _ point)]
    decide +kernel
  have alone : (ofExpr (power 16777216)).value.run? point =
      (ofExpr (power 16777217)).value.run? point := by
    have exponent : (Width.ofFloat 16777216 : Float32) = Width.ofFloat 16777217 := rfl
    rw [run?_of_computes (Program.computes_ofExpr _ point),
      run?_of_computes (Program.computes_ofExpr _ point)]
    exact congrArg (fun c => some (Arithmetic.pow (Width.ofFloat (-1)) c)) exponent
  refine ⟨even, odd, alone, ?_⟩
  intro all
  obtain ⟨a, b, value, input, total⟩ := all 16777216
  obtain ⟨a', b', value', input', total'⟩ := all 16777217
  have same : a = a' := Option.some.inj (value.symm.trans (alone.trans value'))
  have same' : b = b' := Option.some.inj (input.symm.trans input')
  rw [even] at total
  rw [odd, ← same, ← same', ← total] at total'
  exact absurd total' (by decide)

end Compiled

end Formula
