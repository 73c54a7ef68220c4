import Formula.Proofs.Compiled.Operands
import Formula.Proofs.Program.Slots

/-!
What a compiled expression depends on: nothing of a point but the slots of its variables. A slot
that a point lacks holds no number, and points that lack the same slots agree in them too.
-/

set_option autoImplicit false

namespace Formula

variable {α : Type}

/-- That two points hold the same in every slot that an expression depends on, or both lack it. -/
def Expr.SameAt (e : Expr Float) (x y : List α) : Prop :=
  ∀ slot, e.dependsOn slot → x[slot]? = y[slot]?

namespace Expr

namespace SameAt

variable {x y : List α} {l r : Expr Float} {op : Operator}

theorem left (same : (binary op l r).SameAt x y) : l.SameAt x y := by
  intro slot depends
  exact same slot (Bool.or_eq_true_iff.mpr (.inl depends))

theorem right (same : (binary op l r).SameAt x y) : r.SameAt x y := by
  intro slot depends
  exact same slot (Bool.or_eq_true_iff.mpr (.inr depends))

end SameAt

variable [Width α]

theorem evalBy_eq_of_sameAt {raise : α → Float → α} {x y : List α} {e : Expr Float}
    (same : e.SameAt x y) : e.evalBy raise x = e.evalBy raise y := by
  induction e using induction_on_powers with
  | const c => rfl
  | var name slot => rw [evalBy, evalBy, same slot (beq_self_eq_true slot)]
  | neg body ih => exact congrArg (- ·) (ih same)
  | power base c ih => rw [evalBy, evalBy, ih same.left]
  | binary op left right plain ihleft ihright =>
      rw [evalBy_binary plain, evalBy_binary plain, ihleft same.left, ihright same.right]
  | call f argument ih => exact congrArg (Arithmetic.apply f) (ih same)

theorem value_eq_of_sameAt {x y : List α} {e : Expr Float} (same : e.SameAt x y) :
    e.value x = e.value y :=
  evalBy_eq_of_sameAt same

end Expr

namespace Compiled

variable [Width α] [Width.Lawful α]

/-- A compiled expression reads the slots that it depends on, and comes to one value at all points
that are the same in them. -/
theorem value_by_dependencies (e : Expr Float) :
    (∀ x y : List α, e.SameAt x y →
      ∃ a, (ofExpr e).value.run? x = some a ∧ (ofExpr e).value.run? y = some a) ∧
    ∀ p : Program α, (ofExpr e).value = .program p →
      ∀ slot, slot ∈ slotsRead p.instrs ↔ e.dependsOn slot := by
  constructor
  · intro x y same
    refine ⟨e.value x, ?_, ?_⟩
    · exact run?_of_computes (Program.computes_ofExpr e x)
    · rw [Expr.value_eq_of_sameAt same]
      exact run?_of_computes (Program.computes_ofExpr e y)
  · intro p compiled slot
    rw [slotsRead_of_program compiled, Expr.dependsOn_iff]

/-- Points of other lengths, which differ in slot 1 and both lack slot 4. -/
theorem value_by_dependencies_lacking_slot :
    let e : Expr Float := .binary .mul (.binary .pow (.var "a" 0) (.const 2))
      (.binary .sub (.var "c" 2) (.call .signum (.var "e" 4)))
    let x : List Float := [3, 1, 7]
    let y : List Float := [3, 2, 7, 5]
    let x' : List Float32 := [3, 1, 7]
    let y' : List Float32 := [3, 2, 7, 5]
    Width.Lawful Float ∧ e.SameAt x y ∧
      (∃ a, (ofExpr e).value.run? x = some a ∧ (ofExpr e).value.run? y = some a) ∧
      Width.Lawful Float32 ∧ e.SameAt x' y' ∧
      ∃ a, (ofExpr e).value.run? x' = some a ∧ (ofExpr e).value.run? y' = some a := by
  intro e x y x' y'
  have slots (slot : Nat) (depends : e.dependsOn slot) : slot = 0 ∨ slot = 2 ∨ slot = 4 := by
    simpa [Expr.dependsOn_iff, e, Expr.slots] using depends
  have same : e.SameAt x y := by
    intro slot depends
    rcases slots slot depends with rfl | rfl | rfl <;> simp [x, y]
  have same' : e.SameAt x' y' := by
    intro slot depends
    rcases slots slot depends with rfl | rfl | rfl <;> simp [x', y']
  obtain ⟨double, -⟩ := @value_by_dependencies Float _ _ e
  obtain ⟨single, -⟩ := @value_by_dependencies Float32 _ _ e
  exact ⟨inferInstance, same, double x y same, inferInstance, same', single x' y' same'⟩

end Compiled

end Formula
