import Formula.Compiled
import Formula.Proofs.Expr.Value
import Formula.Proofs.Program.Machine
import Formula.Proofs.Program.Optimize

/-!
Compiling an expression keeps its value: the instructions push it, the optimiser keeps what they
do, and the machine has the places for it.
-/

set_option autoImplicit false

namespace Formula

variable {α : Type} [Width α]

/-- The instructions of an expression push its value, whatever follows them. -/
theorem exec?_emit (e : Expr Float) (next : List (Instr α)) (point s : List α) :
    exec? point (e.emit next) s = exec? point next (e.evalBy Width.raise point :: s) := by
  induction e using Expr.induction_on_powers generalizing next s with
  | const c => rfl
  | var name slot => rfl
  | neg body ih => exact ih _ _
  | power base c ih =>
      rw [Expr.emit, ih, exec?_unary_cons, UnaryOp.eval_ofExponent, Expr.evalBy]
  | binary op left right plain ihleft ihright =>
      rw [Expr.emit_binary plain, ihleft, ihright, exec?_binary_cons, Expr.evalBy_binary plain]
  | call f argument ih => exact ih _ _

/-- What a program of an expression is known to do: it leaves the value of the expression, and a
constant that is known of it is that value. -/
structure Program.Computes (p : Program α) (point : List α) (a : α) : Prop where
  exec? : exec? point p.instrs [] = some [a]
  constant : ∀ c, p.constant = some c → c = a

theorem Program.computes_ofExpr (e : Expr Float) (point : List α) :
    (Program.ofExpr e).Computes point (e.value point) := by
  unfold Program.ofExpr
  rw [e.constantValue?_eq point]
  by_cases hvar : e.hasVariable
  · simp only [hvar, if_true, Expr.value]
    constructor
    · rw [exec?_emit, exec?_nil]
    · intro c known
      contradiction
  · simp only [hvar, Expr.value]
    constructor
    · rfl
    · intro c known
      exact (Option.some.inj known).symm

variable [Width.Lawful α]

theorem Program.Computes.optimize {p : Program α} {point : List α} {a : α}
    (computes : p.Computes point a) : p.optimize.value.Computes point a := by
  have hexec := exec?_optimizeRounds computes.exec?
  refine ⟨hexec, ?_⟩
  intro c known
  simp only [Program.optimize, Logged.value_bind, Logged.value_pure] at known
  split at known
  · rename_i c' single
    have hvalues : some [c'] = some [a] := by rwa [single] at hexec
    rw [← Option.some.inj known]
    exact List.singleton_inj.mp (Option.some.inj hvalues)
  · exact computes.constant c known

namespace Compiled

/-- A compiled expression comes to the end at every point, with the value of the expression. -/
theorem runs_to_value (e : Expr Float) (point : List α) :
    (ofExpr e).value.run? point = some (e.value point) := by
  have computes := (Program.computes_ofExpr e point).optimize
  unfold ofExpr
  rw [Logged.value_bind]
  split
  · rename_i c known
    exact congrArg some (computes.constant c known)
  · exact Program.run?_eq_some computes.exec?

theorem square_less_variable_runs :
    let e : Expr Float := .binary .sub (.binary .pow (.var "x" 0) (.const 2)) (.var "y" 1)
    Width.Lawful Float ∧ (ofExpr e).value.run? [(3 : Float), 1] = some 8 ∧
      Width.Lawful Float32 ∧ (ofExpr e).value.run? [(3 : Float32), 1] = some 8 := by
  intro e
  refine ⟨inferInstance, ?_, inferInstance, ?_⟩
  · rw [runs_to_value e [(3 : Float), 1]]
    decide +kernel
  · rw [runs_to_value e [(3 : Float32), 1]]
    decide +kernel

end Compiled

end Formula
