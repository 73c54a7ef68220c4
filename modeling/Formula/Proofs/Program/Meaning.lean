import Formula.Program

/-!
What programs do to a stack without bounds, a list with the topmost value first. An instruction
that finds no operand has no outcome.
-/

set_option autoImplicit false

namespace Formula

variable {α : Type} [Width α]

namespace Instr

def exec? (point : List α) : Instr α → List α → Option (List α)
  | const c, s => some (c :: s)
  | slot index, s => some (point[index]?.getD Width.nan :: s)
  | unary op, a :: s => some (op.eval a :: s)
  | binary op, b :: a :: s => some (op.eval a b :: s)
  | _, _ => none

theorem length_of_exec? {point : List α} {i : Instr α} {s t : List α}
    (done : i.exec? point s = some t) : (t.length : Int) = s.length + i.effect := by
  unfold exec? at done
  split at done
  case h_5 => contradiction
  all_goals
    obtain rfl := Option.some.inj done
    simp only [effect, List.length_cons]
    omega

end Instr

def exec? (point : List α) (instrs : List (Instr α)) (s : List α) : Option (List α) :=
  instrs.foldlM (fun s i => i.exec? point s) s

section

variable (point : List α) (s : List α)

@[simp] theorem exec?_nil : exec? point [] s = some s := rfl

theorem exec?_cons (i : Instr α) (instrs : List (Instr α)) :
    exec? point (i :: instrs) s = (i.exec? point s).bind (exec? point instrs) := rfl

theorem exec?_append (first second : List (Instr α)) :
    exec? point (first ++ second) s = (exec? point first s).bind (exec? point second) := by
  rw [exec?, List.foldlM_append]
  rfl

variable {point s} in
/-- The end of a program may be exchanged for one that has the same outcomes where it has any. -/
theorem exec?_append_mono {first second second' : List (Instr α)} {t : List α}
    (same : ∀ u v, exec? point second u = some v → exec? point second' u = some v)
    (done : exec? point (first ++ second) s = some t) :
    exec? point (first ++ second') s = some t := by
  rw [exec?_append, Option.bind_eq_some_iff] at done ⊢
  obtain ⟨u, reached, rest⟩ := done
  exact ⟨u, reached, same u t rest⟩

variable {point s} in
theorem exec?_append_congr {first second second' : List (Instr α)}
    (same : ∀ u, exec? point second u = exec? point second' u) :
    exec? point (first ++ second) s = exec? point (first ++ second') s := by
  rw [exec?_append, exec?_append, funext same]

@[simp] theorem exec?_unary_cons (op : UnaryOp α) (instrs : List (Instr α)) (a : α) :
    exec? point (.unary op :: instrs) (a :: s) = exec? point instrs (op.eval a :: s) := rfl

@[simp] theorem exec?_binary_cons (op : Operator) (instrs : List (Instr α)) (a b : α) :
    exec? point (.binary op :: instrs) (b :: a :: s) = exec? point instrs (op.eval a b :: s) :=
  rfl

end

end Formula
