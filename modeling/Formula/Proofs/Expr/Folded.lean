import Formula.Expr.Derivative
import Formula.Proofs.Expr.RoundTrip

/-!
Folded expressions over some variables. Every way to put an expression together keeps it folded and
brings in no variable, and so does differentiation.
-/

set_option autoImplicit false

namespace Formula

namespace Expr

variable {α : Type}

/-- The variables that occur in an expression, each with its slot. -/
def vars : Expr α → Finset (String × Nat)
  | const _ => ∅
  | var name slot => {(name, slot)}
  | neg body => body.vars
  | binary _ left right => left.vars ∪ right.vars
  | call _ argument => argument.vars

theorem mem_names_iff {e : Expr α} {name : String} :
    name ∈ e.names ↔ ∃ slot, (name, slot) ∈ e.vars := by
  induction e with
  | const c => simp [names, vars]
  | var other slot => simp [names, vars]
  | neg body ih => exact ih
  | binary op left right ihleft ihright =>
      simp only [names, vars, Finset.mem_union, ihleft, ihright, exists_or]
  | call f argument ih => exact ih

theorem not_isConst {e : Expr α} (other : ∀ c, e = const c → False) : ¬ e.isConst := by
  cases e with
  | const c => exact (other c rfl).elim
  | _ => nofun

/-- That an expression is folded, and that its variables are among the given ones. -/
structure Within (allowed : Finset (String × Nat)) (e : Expr α) : Prop where
  folded : e.Folded
  subset : e.vars ⊆ allowed

namespace Within

variable {allowed : Finset (String × Nat)} {e l r : Expr α} {op : Operator} {f : UnaryFn}

theorem const (c : α) : (const c).Within allowed := ⟨trivial, Finset.empty_subset _⟩

theorem neg (kept : ¬ e.isConst) (within : e.Within allowed) : (neg e).Within allowed :=
  ⟨⟨kept, within.folded⟩, within.subset⟩

theorem binary (kept : ¬ (l.isConst ∧ r.isConst)) (left : l.Within allowed)
    (right : r.Within allowed) : (binary op l r).Within allowed :=
  ⟨⟨kept, left.folded, right.folded⟩, Finset.union_subset left.subset right.subset⟩

theorem call (kept : ¬ e.isConst) (within : e.Within allowed) : (call f e).Within allowed :=
  ⟨⟨kept, within.folded⟩, within.subset⟩

theorem body (within : (Expr.neg e).Within allowed) : e.Within allowed :=
  ⟨within.folded.2, within.subset⟩

theorem left (within : (Expr.binary op l r).Within allowed) : l.Within allowed :=
  ⟨within.folded.2.1, (Finset.union_subset_iff.mp within.subset).1⟩

theorem right (within : (Expr.binary op l r).Within allowed) : r.Within allowed :=
  ⟨within.folded.2.2, (Finset.union_subset_iff.mp within.subset).2⟩

theorem argument (within : (Expr.call f e).Within allowed) : e.Within allowed :=
  ⟨within.folded.2, within.subset⟩

/-- An operation of which one operand is not a constant stays as it is. -/
theorem binary_const (c : α) (other : ∀ b, e = .const b → False) (within : e.Within allowed) :
    (Expr.binary op (.const c) e).Within allowed :=
  .binary (fun both => not_isConst other both.2) (.const c) within

theorem binary_of_const (c : α) (other : ∀ b, e = .const b → False) (within : e.Within allowed) :
    (Expr.binary op e (.const c)).Within allowed :=
  .binary (fun both => not_isConst other both.1) within (.const c)

theorem foldRoot_neg [Arithmetic α] (within : e.Within allowed) :
    (foldRoot (.neg e)).Within allowed := by
  by_cases constant : e.isConst
  · cases e with
    | const c => exact .const _
    | _ => contradiction
  · rw [Expr.foldRoot_neg constant]
    exact .neg constant within

theorem foldRoot_binary [Arithmetic α] (left : l.Within allowed) (right : r.Within allowed) :
    (foldRoot (.binary op l r)).Within allowed := by
  by_cases constant : l.isConst ∧ r.isConst
  · cases l with
    | const a =>
        cases r with
        | const b => exact .const _
        | _ => exact absurd constant.2 nofun
    | _ => exact absurd constant.1 nofun
  · rw [Expr.foldRoot_binary constant]
    exact .binary constant left right

theorem foldRoot_call [Arithmetic α] (within : e.Within allowed) :
    (foldRoot (.call f e)).Within allowed := by
  by_cases constant : e.isConst
  · cases e with
    | const c => exact .const _
    | _ => contradiction
  · rw [Expr.foldRoot_call constant]
    exact .call constant within

variable [Coefficient α]

theorem negative (within : e.Within allowed) : (negative e).Within allowed := by
  cases e with
  | const c => exact .const _
  | neg body => exact within.body
  | _ => exact .neg nofun within

theorem sum (left : l.Within allowed) (right : r.Within allowed) : (sum l r).Within allowed := by
  unfold Expr.sum
  split
  · exact .const _
  · rename_i c other
    split
    · exact right
    · exact .binary_const c other right
  · rename_i c other
    split
    · exact left
    · exact .binary_of_const c other left
  · rename_i other _
    exact .binary (fun both => not_isConst other both.2) left right

theorem difference (left : l.Within allowed) (right : r.Within allowed) :
    (difference l r).Within allowed := by
  unfold Expr.difference
  split
  · exact .const _
  · rename_i c other
    split
    · exact left
    · exact .binary_of_const c other left
  · rename_i c other
    split
    · exact right.negative
    · exact .binary_const c other right
  · rename_i other _
    exact .binary (fun both => not_isConst other both.2) left right

theorem product (left : l.Within allowed) (right : r.Within allowed) :
    (product l r).Within allowed := by
  unfold Expr.product
  split
  · exact .const _
  · rename_i c other
    split_ifs
    · exact .const _
    · exact right
    · exact right.negative
    · exact .binary_const c other right
  · rename_i c other
    split_ifs
    · exact .const _
    · exact left
    · exact left.negative
    · exact .binary_of_const c other left
  · rename_i other _
    exact .binary (fun both => not_isConst other both.2) left right

theorem quotient (left : l.Within allowed) (right : r.Within allowed) :
    (quotient l r).Within allowed := by
  unfold Expr.quotient
  split
  · exact .const _
  · rename_i c other
    split
    · exact left
    · exact .binary_of_const c other left
  · rename_i other _
    exact .binary (fun both => not_isConst other both.2) left right

theorem power (left : l.Within allowed) (right : r.Within allowed) :
    (power l r).Within allowed := by
  unfold Expr.power
  split
  · exact .const _
  · rename_i c other
    split_ifs
    · exact .const _
    · exact left
    · exact .binary_of_const c other left
  · rename_i other _
    exact .binary (fun both => not_isConst other both.2) left right

theorem applied (within : e.Within allowed) : (applied f e).Within allowed := by
  cases e with
  | const c => exact .const _
  | _ => exact .call nofun within

theorem derivativeAt (within : e.Within allowed) : (f.derivativeAt e).Within allowed := by
  have one : (Expr.const (1 : α)).Within allowed := .const 1
  have square : (Expr.product e e).Within allowed := within.product within
  have inverse {body : Expr α} (body_within : body.Within allowed) :
      (Expr.quotient (.const 1) body).Within allowed := one.quotient body_within
  cases f with
  | sin | sinh | cosh | exp | abs => exact within.applied
  | cos => exact within.applied.negative
  | tan => exact inverse (within.applied.product within.applied)
  | asin => exact inverse (one.difference square).applied
  | acos => exact (inverse (one.difference square).applied).negative
  | atan => exact inverse (one.sum square)
  | tanh => exact one.difference (within.applied.product within.applied)
  | ln => exact inverse within
  | log2 | log10 => exact inverse (within.product (.const _))
  | sqrt => exact inverse ((const _).product within.applied)
  | cbrt => exact inverse ((const _).product (within.applied.product within.applied))
  | fract | signum | round | floor | ceil | trunc => exact .const _

theorem derivative (within : e.Within allowed) (slot : Nat) :
    (e.derivative slot).Within allowed := by
  induction e with
  | const c => exact .const _
  | var name s =>
      rw [Expr.derivative]
      split <;> exact .const _
  | neg body ih => exact (ih within.body).negative
  | binary op left right ihleft ihright =>
      have dleft := ihleft within.left
      have dright := ihright within.right
      have general : (Expr.product (.power left right)
          (.sum (.product (right.derivative slot) (.applied .ln left))
            (.product right (.quotient (left.derivative slot) left)))).Within allowed :=
        (within.left.power within.right).product
          ((dright.product within.left.applied).sum
            (within.right.product (dleft.quotient within.left)))
      cases op with
      | add => exact dleft.sum dright
      | sub => exact dleft.difference dright
      | mul => exact (dleft.product within.right).sum (within.left.product dright)
      | div =>
          exact ((dleft.product within.right).difference (within.left.product dright)).quotient
            (within.right.product within.right)
      | pow =>
          cases right with
          | const c =>
              exact ((const c).product (within.left.power (.const (c - 1)))).product dleft
          | _ => exact general
  | call f argument ih =>
      rw [Expr.derivative]
      split
      · exact .const _
      · exact within.argument.derivativeAt.product (ih within.argument)

/-- Deriving again and again leads nowhere else. -/
theorem foldl_derivative (within : e.Within allowed) (slots : List Nat) :
    (slots.foldl (fun e slot => e.derivative slot) e).Within allowed := by
  induction slots generalizing e with
  | nil => exact within
  | cons slot slots ih => exact ih (within.derivative slot)

end Within

end Expr

end Formula
