import Formula.Proofs.Expr.Read

/-!
Binding a tree to slots, told from the root: every greatest part without variables is one number,
and all else stays as it is written. What is folded from the leaves comes to the same.
-/

set_option autoImplicit false

namespace Formula

namespace Term

/-- The number that a formula without variables comes to, from the leaves to the root. -/
def constant? : Term → Option Float
  | number value => some value
  | var _ => none
  | neg body => do return -(← body.constant?)
  | binary op left right => do
      let l ← left.constant?
      let r ← right.constant?
      return op.eval l r
  | call f argument => do return Arithmetic.apply f (← argument.constant?)

/-- The expression of a formula whose names have the given slots. A part without variables is one
number; where there is a variable, the node stays, and its operands are looked at in turn. -/
def resolve (slot : String → Nat) : Term → Expr Float
  | number value => .const value
  | var name => .var name (slot name)
  | neg body => (neg body).constant?.elim (.neg (body.resolve slot)) .const
  | binary op left right =>
      (binary op left right).constant?.elim
        (.binary op (left.resolve slot) (right.resolve slot)) .const
  | call f argument => (call f argument).constant?.elim (.call f (argument.resolve slot)) .const

theorem constant?_eq_none_iff {term : Term} : term.constant? = none ↔ term.names ≠ [] := by
  induction term with
  | number value => simp [constant?, names]
  | var name => simp [constant?, names]
  | neg body ih =>
      rw [constant?, names, ← ih]
      cases body.constant? <;> simp
  | binary op left right ihleft ihright =>
      rw [constant?, names, ne_eq, List.append_eq_nil_iff, not_and_or, ← ne_eq, ← ne_eq, ← ihleft,
        ← ihright]
      cases left.constant? <;> cases right.constant? <;> simp
  | call f argument ih =>
      rw [constant?, names, ← ih]
      cases argument.constant? <;> simp

variable {slot : String → Nat} {term : Term}

theorem resolve_of_constant {c : Float} (constant : term.constant? = some c) :
    term.resolve slot = .const c := by
  cases term with
  | number value => exact congrArg Expr.const (Option.some.inj constant)
  | var name => contradiction
  | neg | binary | call => rw [resolve, constant, Option.elim_some]

theorem not_isConst_resolve (unknown : term.constant? = none) :
    ¬ (term.resolve slot).isConst := by
  cases term with
  | number value => contradiction
  | var name => exact nofun
  | neg | binary | call =>
      rw [resolve, unknown, Option.elim_none]
      exact nofun

theorem foldRoot_resolve_neg (body : Term) :
    Expr.foldRoot (.neg (body.resolve slot)) = (neg body).resolve slot := by
  cases known : body.constant? with
  | some c =>
      rw [resolve_of_constant known, resolve, constant?, known]
      rfl
  | none =>
      rw [Expr.foldRoot_neg (not_isConst_resolve known), resolve, constant?, known]
      rfl

theorem foldRoot_resolve_binary (op : Operator) (left right : Term) :
    Expr.foldRoot (.binary op (left.resolve slot) (right.resolve slot)) =
      (binary op left right).resolve slot := by
  cases knownLeft : left.constant? with
  | some a =>
      cases knownRight : right.constant? with
      | some b =>
          rw [resolve_of_constant knownLeft, resolve_of_constant knownRight, resolve, constant?,
            knownLeft, knownRight]
          rfl
      | none =>
          rw [Expr.foldRoot_binary fun both => not_isConst_resolve knownRight both.2, resolve,
            constant?, knownLeft, knownRight]
          rfl
  | none =>
      rw [Expr.foldRoot_binary fun both => not_isConst_resolve knownLeft both.1, resolve, constant?,
        knownLeft]
      rfl

theorem foldRoot_resolve_call (f : UnaryFn) (argument : Term) :
    Expr.foldRoot (.call f (argument.resolve slot)) = (call f argument).resolve slot := by
  cases known : argument.constant? with
  | some c =>
      rw [resolve_of_constant known, resolve, constant?, known]
      rfl
  | none =>
      rw [Expr.foldRoot_call (not_isConst_resolve known), resolve, constant?, known]
      rfl

end Term

namespace Expr

/-- Binding a tree comes to its resolution, or stops at the leftmost name without a slot. -/
theorem ofTerm_eq {v : Variables} {slot : String → Nat}
    (slots : ∀ name ∈ v.names, v.slot? name = some (slot name)) (term : Term) :
    ofTerm v term =
      match term.names.find? (· ∉ v.names) with
      | some name => .error (.variableNotFound name)
      | none => .ok (term.resolve slot) := by
  induction term with
  | number value => rfl
  | var name =>
      by_cases known : name ∈ v.names
      · simp only [ofTerm, slots name known, Term.names, List.find?_singleton]
        simp [known, Term.resolve]
      · simp only [ofTerm, Variables.slot?_eq_none_iff.mpr known, Term.names, List.find?_singleton]
        simp [known]
  | neg body ih =>
      rw [ofTerm, ih, Term.names, ← Term.foldRoot_resolve_neg]
      cases body.names.find? (· ∉ v.names) <;> rfl
  | binary op left right ihleft ihright =>
      rw [ofTerm, ihleft, ihright, Term.names, List.find?_append, ← Term.foldRoot_resolve_binary]
      cases left.names.find? (· ∉ v.names) with
      | some name => rfl
      | none => cases right.names.find? (· ∉ v.names) <;> rfl
  | call f argument ih =>
      rw [ofTerm, ih, Term.names, ← Term.foldRoot_resolve_call]
      cases argument.names.find? (· ∉ v.names) <;> rfl

/-- A tree is bound to the slots of some names exactly if they include all of its own: to its
resolution, with the ranks of the names as slots. Otherwise its leftmost other name is reported. The
parts that a resolution makes one number are those without variables. -/
theorem ofTerm_resolves (names : List String) (term : Term) :
    (∀ e, ofTerm (.ofNames names) term = .ok e ↔
      (∀ name ∈ term.names, name ∈ names) ∧ e = term.resolve (rank names.toFinset)) ∧
    (∀ error, ofTerm (.ofNames names) term = .error error ↔
      ∃ name, term.names.find? (· ∉ names) = some name ∧ error = .variableNotFound name) ∧
    (∀ name ∈ names, (Variables.ofNames names).slot? name = some (rank names.toFinset name)) ∧
    ∀ part : Term, part.constant? = none ↔ part.names ≠ [] := by
  have slots (name : String) (member : name ∈ names) := Variables.slot?_ofNames member
  have bound := ofTerm_eq (fun name member => slots name (Variables.mem_ofNames.mp member)) term
  simp only [Variables.mem_ofNames] at bound
  rw [bound, ← and_assoc]
  refine ⟨?_, slots, fun part => Term.constant?_eq_none_iff⟩
  cases missing : term.names.find? (· ∉ names) with
  | some name =>
      have absent : name ∉ names := by simpa using List.find?_some missing
      have member := List.mem_of_find?_eq_some missing
      refine ⟨fun e => iff_of_false nofun fun known => absent (known.1 name member), ?_⟩
      intro error
      constructor
      · rintro ⟨⟩
        exact ⟨name, rfl, rfl⟩
      · rintro ⟨other, ⟨⟩, rfl⟩
        rfl
  | none =>
      have known : ∀ name ∈ term.names, name ∈ names := by simpa using missing
      refine ⟨?_, fun error => iff_of_false nofun nofun⟩
      intro e
      constructor
      · rintro ⟨⟩
        exact ⟨known, rfl⟩
      · rintro ⟨-, rfl⟩
        rfl

/-- In `2 * 3 - x * sin 0` the product of numbers and the sine become numbers, and the factor of the
variable stays although it is zero. -/
theorem ofTerm_resolves_kept_product :
    let term : Term := .binary .sub (.binary .mul (.number 2) (.number 3))
      (.binary .mul (.var "x") (.call .sin (.number 0)))
    let e : Expr Float := .binary .sub (.const (2 * 3))
      (.binary .mul (.var "x" 1) (.const (Arithmetic.apply .sin 0)))
    (∀ name ∈ term.names, name ∈ ["y", "x", "a", "y"]) ∧
      ofTerm (.ofNames ["y", "x", "a", "y"]) term = .ok e ∧
      ofTerm (.ofNames ["y", "a"]) term = .error (.variableNotFound "x") := by
  intro term e
  have known : ∀ name ∈ term.names, name ∈ ["y", "x", "a", "y"] := by decide
  have slot : rank ["y", "x", "a", "y"].toFinset "x" = 1 := by decide
  have resolved : e = term.resolve (rank ["y", "x", "a", "y"].toFinset) := by
    change e = .binary .sub (.const (2 * 3)) (.binary .mul (.var "x" (rank _ "x")) (.const _))
    rw [slot]
  obtain ⟨bound, -⟩ := ofTerm_resolves ["y", "x", "a", "y"] term
  obtain ⟨-, failed, -⟩ := ofTerm_resolves ["y", "a"] term
  exact ⟨known, (bound e).mpr ⟨known, resolved⟩, (failed _).mpr ⟨"x", by decide, rfl⟩⟩

end Expr

end Formula
