import Formula.Proofs.Compiled.Operands
import Formula.Proofs.Width.Narrowing

/-!
Folding constants before a width is chosen. The operation is carried out in double precision then,
while an expression that is not folded narrows its constants first. Which of the two comes first
shows in single precision.
-/

set_option autoImplicit false

namespace Formula

namespace Expr

/-- That an operation on constants at the root comes to the same before and after its operands are
narrowed to a width. -/
def NarrowsAlike (α : Type) [Width α] : Expr Float → Prop
  | neg (const c) => (Width.ofFloat (-c) : α) = -Width.ofFloat c
  | binary op (const a) (const b) =>
      (Width.ofFloat (op.eval a b) : α) = op.eval (Width.ofFloat a) (Width.ofFloat b)
  | call f (const c) =>
      (Width.ofFloat (Arithmetic.apply f c) : α) = Arithmetic.apply f (Width.ofFloat c)
  | _ => True

/-- Folding the root keeps the value exactly where narrowing does not come in. -/
theorem value_foldRoot_iff {α : Type} [Width α] (e : Expr Float) (point : List α) :
    e.foldRoot.value point = e.value point ↔ e.NarrowsAlike α := by
  cases e with
  | const c => exact iff_of_true rfl trivial
  | var name slot => exact iff_of_true rfl trivial
  | neg body =>
      cases body with
      | const c => exact Iff.rfl
      | _ => exact iff_of_true rfl trivial
  | binary op left right =>
      cases left with
      | const a =>
          cases right with
          | const b =>
              have narrowed : (binary op (const a) (const b)).value point =
                  op.eval (Width.ofFloat a) (Width.ofFloat b) :=
                evalBy_raiseGenerally_binary op _ _ point
              rw [narrowed]
              exact Iff.rfl
          | _ => exact iff_of_true rfl trivial
      | _ => exact iff_of_true rfl trivial
  | call f argument =>
      cases argument with
      | const c => exact Iff.rfl
      | _ => exact iff_of_true rfl trivial

theorem narrowsAlike_float (e : Expr Float) : e.NarrowsAlike Float := by
  unfold NarrowsAlike
  split
  · rfl
  · rfl
  · rfl
  · trivial

theorem narrowsAlike_neg (e : Expr Float) : (neg e).NarrowsAlike Float32 := by
  cases e with
  | const c => exact SinglePrecision.ofFloat_neg c
  | _ => trivial

theorem narrowsAlike_abs (e : Expr Float) : (call .abs e).NarrowsAlike Float32 := by
  cases e with
  | const c => exact SinglePrecision.ofFloat_abs c
  | _ => trivial

end Expr

namespace Compiled

theorem run?_foldRoot_iff {α : Type} [Width α] [Width.Lawful α] (e : Expr Float)
    (point : List α) :
    (ofExpr e.foldRoot).value.run? point = (ofExpr e).value.run? point ↔ e.NarrowsAlike α := by
  rw [run?_of_computes (Program.computes_ofExpr e point),
    run?_of_computes (Program.computes_ofExpr e.foldRoot point), Option.some.injEq,
    Expr.value_foldRoot_iff]

/-- Folding the root of an expression is never seen in double precision. In single precision it is
not seen exactly if the operation may change places with narrowing, as one that does something to
the sign only always may. -/
theorem foldRoot_unseen (e : Expr Float) :
    (∀ point : List Float, (ofExpr e.foldRoot).value.run? point = (ofExpr e).value.run? point) ∧
    (∀ point : List Float32,
      (ofExpr e.foldRoot).value.run? point = (ofExpr e).value.run? point ↔
        e.NarrowsAlike Float32) ∧
    (∀ point : List Float32,
      (ofExpr (Expr.neg e).foldRoot).value.run? point = (ofExpr (.neg e)).value.run? point ∧
      (ofExpr (Expr.call .abs e).foldRoot).value.run? point =
        (ofExpr (.call .abs e)).value.run? point) := by
  refine ⟨?_, run?_foldRoot_iff e, ?_⟩
  · intro point
    exact (run?_foldRoot_iff e point).mpr e.narrowsAlike_float
  · intro point
    exact ⟨(run?_foldRoot_iff (.neg e) point).mpr e.narrowsAlike_neg,
      (run?_foldRoot_iff (.call .abs e) point).mpr e.narrowsAlike_abs⟩

/-- The difference of two constants of which the one is narrowed to the other. -/
theorem foldRoot_seen_in_single_precision :
    let e : Expr Float := .binary .sub (.const 16777217) (.const 16777216)
    let point : List Float32 := []
    (ofExpr e).value.run? point = some 0 ∧ (ofExpr e.foldRoot).value.run? point = some 1 ∧
      (ofExpr e.foldRoot).value.run? point ≠ (ofExpr e).value.run? point := by
  intro e point
  have unfolded : (ofExpr e).value.run? point = some 0 := by
    rw [run?_of_computes (Program.computes_ofExpr e point)]
    decide +kernel
  have folded : (ofExpr e.foldRoot).value.run? point = some 1 := by
    rw [run?_of_computes (Program.computes_ofExpr e.foldRoot point)]
    decide +kernel
  refine ⟨unfolded, folded, ?_⟩
  rw [unfolded, folded]
  decide

end Compiled

end Formula
