import Formula.Expr.Text
import Formula.Proofs.Expr.Spelling
import Formula.Proofs.Variables
import Formula.Proofs.Width.Special

/-!
Reading the text of an expression. Its tokens are those of one tree of the grammar, the names in
it get their ranks as slots, and folding gives back the constants that are not written as one
number.
-/

set_option autoImplicit false

namespace Formula

namespace Expr

variable {α : Type}

def isConst : Expr α → Bool
  | const _ => true
  | _ => false

/-- That no operation is left all of whose operands are constants. -/
def Folded : Expr α → Prop
  | const _ | var _ _ => True
  | neg body => ¬ body.isConst ∧ body.Folded
  | binary _ left right => ¬ (left.isConst ∧ right.isConst) ∧ left.Folded ∧ right.Folded
  | call _ argument => ¬ argument.isConst ∧ argument.Folded

/-- The expression with other slots. -/
def renumber (slot : String → Nat) : Expr α → Expr α
  | const c => const c
  | var name _ => var name (slot name)
  | neg body => neg (body.renumber slot)
  | binary op left right => binary op (left.renumber slot) (right.renumber slot)
  | call f argument => call f (argument.renumber slot)

theorem isConst_renumber (e : Expr α) (slot : String → Nat) :
    (e.renumber slot).isConst = e.isConst := by
  cases e <;> rfl

section Fold

variable [Arithmetic α]

theorem foldRoot_neg {body : Expr α} (kept : ¬ body.isConst) : foldRoot (neg body) = neg body := by
  cases body with
  | const c => exact absurd rfl kept
  | _ => rfl

theorem foldRoot_binary {op : Operator} {left right : Expr α}
    (kept : ¬ (left.isConst ∧ right.isConst)) :
    foldRoot (binary op left right) = binary op left right := by
  cases left with
  | const a =>
      cases right with
      | const b => exact absurd ⟨rfl, rfl⟩ kept
      | _ => rfl
  | _ => rfl

theorem foldRoot_call {f : UnaryFn} {argument : Expr α} (kept : ¬ argument.isConst) :
    foldRoot (call f argument) = call f argument := by
  cases argument with
  | const c => exact absurd rfl kept
  | _ => rfl

end Fold

theorem ofTerm_constantTerm (c : Float) (v : Variables) :
    ofTerm v (constantTerm c) = .ok (const c) := by
  unfold constantTerm
  cases hc : Binary.ofFloat c with
  | nan =>
      rw [DoublePrecision.eq_of_ofFloat_eq_nan hc]
      rfl
  | infinite negative =>
      rw [DoublePrecision.eq_of_ofFloat_eq_infinite hc]
      cases negative <;> rfl
  | finite negative significand exponent =>
      cases negative with
      | false => rfl
      | true => exact congrArg (fun c => Except.ok (const c)) (DoublePrecision.neg_neg c)

theorem ofTerm_term {e : Expr Float} (folded : e.Folded) {v : Variables} {slot : String → Nat}
    (slots : ∀ name ∈ e.names, v.slot? name = some (slot name)) :
    ofTerm v e.term = .ok (e.renumber slot) := by
  induction e with
  | const c => exact ofTerm_constantTerm c v
  | var name s =>
      rw [term, ofTerm, slots name (Finset.mem_singleton_self name)]
      rfl
  | neg body ih =>
      have kept : ¬ (body.renumber slot).isConst := isConst_renumber body slot ▸ folded.1
      rw [term, ofTerm, ih folded.2 slots]
      exact congrArg Except.ok (foldRoot_neg kept)
  | binary op left right ihleft ihright =>
      have kept : ¬ ((left.renumber slot).isConst ∧ (right.renumber slot).isConst) := by
        rw [isConst_renumber, isConst_renumber]
        exact folded.1
      have hleft := ihleft folded.2.1 fun name member => slots name (Finset.mem_union_left _ member)
      have hright :=
        ihright folded.2.2 fun name member => slots name (Finset.mem_union_right _ member)
      rw [term, ofTerm, hleft, hright]
      exact congrArg Except.ok (foldRoot_binary kept)
  | call f argument ih =>
      have kept : ¬ (argument.renumber slot).isConst := isConst_renumber argument slot ▸ folded.1
      rw [term, ofTerm, ih folded.2 slots]
      exact congrArg Except.ok (foldRoot_call kept)

theorem finalize_eq_sort {e : Expr Float} {tokens : List Token} {names : Names}
    (ok : Term.ofTokens tokens = .ok (e.term, names)) : names.finalize = ⟨e.names.sort⟩ := by
  obtain ⟨p, reads, -, hterm, hnames⟩ := Term.exists_of_ofTokens_eq_ok ok
  have same : names.toList.toFinset = e.names := by
    ext name
    rw [← hnames, reads.names_eq, hterm, List.mem_toFinset, Names.mem_foldl_insert, mem_names_term]
    exact or_iff_left nofun
  rw [Names.finalize, Variables.ofNames_eq_sort, same]

/-- The text of a folded expression is read as that expression, unless it is nested too deep, and
half of the limit is never too deep. The slots become the ranks of the names, and the variables are
the names in order. -/
theorem read_text (e : Expr Float) (folded : e.Folded)
    (names : ∀ name ∈ e.names, scan name = .ok [⟨.name name, 0⟩])
    (constants : ∀ c ∈ e.constants, ReadsBack c) :
    (∃ position, read e.text = .error (.parse (.nestingTooDeep maxNesting position))) ∧
        maxNesting < 2 * e.term.height ∨
      read e.text = .ok (e.renumber (rank e.names), ⟨e.names.sort⟩) := by
  have spells := spells_kinds names constants
  have shallow := e.nesting_le
  obtain ⟨tokens, scanned, hkinds⟩ := spells.scan_text
  have derives := spells.derives head_nil
  rw [List.append_nil, ← hkinds] at derives
  unfold read
  rw [scanned]
  rcases Term.ofTokens_of_derives (derives.loosen (Nat.zero_le 4)) with
    ⟨names, ok⟩ | ⟨⟨position, deep⟩, high⟩
  · refine .inr ?_
    have bound := ofTerm_term folded fun name member => Variables.slot?_sort member
    simp only [ok, finalize_eq_sort ok, bound]
  · refine .inl ⟨⟨position, ?_⟩, by omega⟩
    simp only [deep]

/-- Names beyond ASCII, a negative base, a negative zero, and the numbers that are not finite. -/
theorem read_text_special :
    let e : Expr Float := .binary .sub (.binary .pow (.const (-1.5)) (.var "Δt" 7))
      (.binary .mul (.const (1 / 0)) (.neg (.binary .add (.call .sin (.var "x" 7))
        (.binary .div (.const (-0)) (.binary .sub (.var "x" 2) (.const (0 / 0)))))))
    read e.text = .ok (e.renumber fun name => if name = "x" then 0 else 1, ⟨["x", "Δt"]⟩) := by
  intro e
  have folded : e.Folded := by simp [e, Folded, isConst]
  have names : ∀ name ∈ e.names, scan name = .ok [⟨.name name, 0⟩] := by
    intro name member
    have cases : name = "Δt" ∨ name = "x" := by simpa [e, Expr.names] using member
    rcases cases with rfl | rfl <;> decide +kernel
  have constants : ∀ c ∈ e.constants, ReadsBack c := by
    have half : ReadsBack (-1.5) := by
      intro n s e finite
      exact ⟨['1', '.', '5'], ⟨15, -1⟩, by decide, .inr ⟨by decide +kernel, by decide +kernel⟩⟩
    have zero : ReadsBack (-0) := by
      intro n s e finite
      exact ⟨['0'], ⟨0, 0⟩, by decide, .inr ⟨by decide +kernel, by decide +kernel⟩⟩
    have infinity : ReadsBack (1 / 0) := by
      have infinite : Binary.ofFloat (1 / 0) = .infinite false := by decide +kernel
      intro n s e finite
      rw [infinite] at finite
      contradiction
    have noNumber : ReadsBack (0 / 0) := by
      have nan : Binary.ofFloat (0 / 0) = .nan := by decide +kernel
      intro n s e finite
      rw [nan] at finite
      contradiction
    simp only [e, Expr.constants, List.cons_append, List.nil_append, List.forall_mem_cons]
    exact ⟨half, infinity, zero, noNumber, List.forall_mem_nil _⟩
  have low : 2 * e.term.height ≤ maxNesting := by decide +kernel
  have sorted : e.names.sort = ["x", "Δt"] := by
    have same : e.names = ["x", "Δt"].toFinset := by decide +kernel
    rw [same]
    exact (List.toFinset_sort (· ≤ ·) (by decide +kernel)).mpr (by decide +kernel)
  have first : rank e.names "x" = 0 := by decide +kernel
  have second : rank e.names "Δt" = 1 := by decide +kernel
  rcases read_text e folded names constants with ⟨-, high⟩ | ok
  · exact absurd high (Nat.not_lt.mpr low)
  · rw [ok, sorted]
    simp [e, renumber, first, second]

end Expr

end Formula
