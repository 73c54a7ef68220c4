import Formula.Proofs.Expr.Tokens
import Formula.Proofs.Term.Completeness

/-!
How an expression is spelled: the tokens of its text, and the tree that the grammar gives them. The
shape of both is that of the expression, while a number in them is what its digits stand for.
-/

set_option autoImplicit false

namespace Formula

def constantTerm (c : Float) : Term :=
  match Binary.ofFloat c with
  | .nan => .binary .div (.number 0) (.number 0)
  | .infinite true => .binary .div (.neg (.number 1)) (.number 0)
  | .infinite false => .binary .div (.number 1) (.number 0)
  | .finite true _ _ => .neg (.number (-c))
  | .finite false _ _ => .number c

/-- The groups that are open at once in the text of a constant. -/
def constantNesting (c : Float) : Nat :=
  match Binary.ofFloat c with
  | .nan | .infinite _ => 2
  | .finite true _ _ => 1
  | .finite false _ _ => 0

namespace Derives

variable {input middle rest : List TokenKind} {term l r : Term} {depth dl dr n : Nat}

theorem numeral (value : Float) (rest : List TokenKind) :
    Derives .unary (.number value :: rest) rest (.number value) 0 :=
  .ofApplication (.ofPrimary .number)

theorem parentheses (derives : Derives .unary input (.right :: rest) term depth) :
    Derives .primary (.left :: input) rest term (depth + 1) :=
  .group (loosen (Nat.zero_le 4) derives)

/-- Between signed operands, and in parentheses, every operator may stand. -/
theorem operation {op : Operator} (left : Derives .unary input (.operator op :: middle) l dl)
    (right : Derives .unary middle (.right :: rest) r dr) :
    Derives .unary (.left :: input) rest (.binary op l r) (max dl (dr + 1) + 1) := by
  have hleft : op.leftPrecedence ≤ 4 := by cases op <;> decide
  have hright : op.rightPrecedence ≤ 4 := by cases op <;> decide
  have binary := Derives.binary (loosen hleft left) (loosen hright right)
  exact .ofApplication (.ofPrimary (.group (binary.loosen (Nat.zero_le _))))

end Derives

namespace Expr

/-- The tree of an expression as it is written. -/
def term : Expr Float → Term
  | const c => constantTerm c
  | var name _ => .var name
  | neg body => .neg body.term
  | binary op left right => .binary op left.term right.term
  | call f argument => .call f argument.term

/-- The groups that are open at once in the text of an expression: parentheses, signs, operands of
functions and right operands. -/
def nesting : Expr Float → Nat
  | const c => constantNesting c
  | var _ _ => 0
  | neg body => body.nesting + 2
  | binary _ left right => max left.nesting (right.nesting + 1) + 1
  | call _ argument => argument.nesting + 2

theorem constantNesting_le (c : Float) : constantNesting c ≤ 2 * (constantTerm c).height := by
  unfold constantNesting constantTerm
  cases Binary.ofFloat c with
  | nan => simp [Term.height]
  | infinite negative => cases negative <;> simp [Term.height]
  | finite negative significand exponent => cases negative <;> simp [Term.height]

/-- At most two groups are opened for each node on the way down. -/
theorem nesting_le (e : Expr Float) : e.nesting ≤ 2 * e.term.height := by
  induction e with
  | const c => exact constantNesting_le c
  | var name slot => exact Nat.zero_le _
  | neg body ih =>
      rw [nesting, term, Term.height]
      omega
  | binary op left right ihleft ihright =>
      rw [nesting, term, Term.height]
      omega
  | call f argument ih =>
      rw [nesting, term, Term.height]
      omega

theorem head_nil : ([] : List TokenKind).head? ≠ some .left := nofun

theorem head_right (rest : List TokenKind) :
    (TokenKind.right :: rest).head? ≠ some .left := nofun

theorem head_operator (op : Operator) (rest : List TokenKind) :
    (TokenKind.operator op :: rest).head? ≠ some .left := nofun

theorem names_constantTerm (c : Float) : (constantTerm c).names = [] := by
  unfold constantTerm
  split <;> rfl

theorem mem_names_term {e : Expr Float} {name : String} :
    name ∈ e.term.names ↔ name ∈ e.names := by
  induction e with
  | const c => simp [term, names, names_constantTerm]
  | var other slot => simp [term, names, Term.names]
  | neg body ih => exact ih
  | binary op left right ihleft ihright => simp [term, names, Term.names, ihleft, ihright]
  | call f argument ih => exact ih

section

variable {c : Float} {negative : Bool} {significand : Nat} {exponent : Int}

theorem constantTerm_of_finite
    (finite : Binary.ofFloat c = .finite negative significand exponent) :
    constantTerm c = if negative then .neg (.number (-c)) else .number c := by
  rw [constantTerm, finite]
  cases negative <;> rfl

theorem constantKinds_of_finite
    (finite : Binary.ofFloat c = .finite negative significand exponent) :
    constantKinds c = if negative then [.operator .sub, .number (-c)] else [.number c] := by
  rw [constantKinds, finite]
  cases negative <;> rfl

end

/-- That the text of an expression has the tokens `kinds`, and they the tree `term`. -/
structure Spells (e : Expr Float) (kinds : List TokenKind) (term : Term) : Prop where
  scans : ∀ {rest : List Char} {after : List TokenKind}, Ends rest → Scans rest after →
    Scans (e.text.toList ++ rest) (kinds ++ after)
  derives : ∀ {rest : List TokenKind}, rest.head? ≠ some .left →
    Derives .unary (kinds ++ rest) rest term e.nesting
  height_eq : term.height = e.term.height
  names_eq : term.names = e.term.names

namespace Spells

variable {e l r : Expr Float} {kinds leftKinds rightKinds : List TokenKind}
  {term leftTerm rightTerm : Term}

theorem notFinite {c : Float} (infinite : ∀ n s e, Binary.ofFloat c ≠ .finite n s e) :
    (Expr.const c).Spells (constantKinds c) (constantTerm c) := by
  refine ⟨fun _ scans => scans.notFinite infinite, ?_, rfl, rfl⟩
  intro rest _
  rw [nesting]
  unfold constantKinds constantTerm constantNesting
  cases hc : Binary.ofFloat c with
  | nan => exact .operation (.numeral 0 _) (.numeral 0 _)
  | infinite negative =>
      cases negative with
      | false => exact .operation (.numeral 1 _) (.numeral 0 _)
      | true => exact .operation (.minus (.numeral 1 _)) (.numeral 0 _)
  | finite negative significand exponent => exact absurd hc (infinite _ _ _)

/-- The digits of a finite constant, whatever number they stand for. -/
theorem finite {c : Float} {negative : Bool} {significand : Nat} {exponent : Int}
    (finite : Binary.ofFloat c = .finite negative significand exponent) {row : List Char}
    {d : Decimal} (isNumeral : IsNumeral row) (literal : Decimal.ofLiteral? row = some d)
    (text : (Width.text c).toList = if negative then '-' :: row else row) :
    (Expr.const c).Spells
      (if negative then [.operator .sub, .number d.toFloat] else [.number d.toFloat])
      (if negative then .neg (.number d.toFloat) else .number d.toFloat) := by
  have htext : (Expr.const c).text = Width.text c := by
    rw [Expr.text, constantText, finite]
  have hnesting : (Expr.const c).nesting = if negative then 1 else 0 := by
    rw [nesting, constantNesting, finite]
    cases negative <;> rfl
  refine ⟨?_, ?_, ?_, ?_⟩
  · intro rest after ends scans
    have digits := Scans.number isNumeral literal ends scans
    rw [htext, text]
    cases negative with
    | false => exact digits
    | true => exact .operator .sub digits
  · intro rest _
    rw [hnesting]
    cases negative with
    | false => exact .numeral _ rest
    | true => exact .minus (.numeral _ rest)
  · rw [Expr.term, constantTerm_of_finite finite]
    cases negative <;> rfl
  · rw [Expr.term, constantTerm_of_finite finite]
    cases negative <;> rfl

theorem var {name : String} (one : scan name = .ok [⟨.name name, 0⟩]) (slot : Nat) :
    (Expr.var name slot).Spells [.name name] (.var name) where
  scans := fun ends scans => .name one ends scans
  derives := fun free => .ofApplication (.ofPrimary (.name free))
  height_eq := rfl
  names_eq := rfl

theorem neg (body : e.Spells kinds term) :
    (Expr.neg e).Spells ([.operator .sub, .left] ++ kinds ++ [.right]) (.neg term) where
  scans := by
    intro rest after _ scans
    have inner := body.scans (ends_right rest) scans.right
    simp only [text, String.toList_append, List.append_assoc]
    exact .operator .sub inner.left
  derives := by
    intro rest _
    simp only [List.append_assoc]
    exact .minus (.ofApplication (.ofPrimary (body.derives (head_right rest)).parentheses))
  height_eq := congrArg (· + 1) body.height_eq
  names_eq := body.names_eq

theorem binary (op : Operator) (left : l.Spells leftKinds leftTerm)
    (right : r.Spells rightKinds rightTerm) :
    (Expr.binary op l r).Spells
      ([.left] ++ leftKinds ++ [.operator op] ++ rightKinds ++ [.right])
      (.binary op leftTerm rightTerm) where
  scans := by
    intro rest after _ scans
    have hright := right.scans (ends_right rest) scans.right
    have hleft := left.scans (ends_between op _) (hright.between op)
    simp only [text, String.toList_append, List.append_assoc]
    exact hleft.left
  derives := by
    intro rest _
    have hright := right.derives (head_right rest)
    have hleft := left.derives (head_operator op (rightKinds ++ .right :: rest))
    simp only [List.append_assoc]
    exact hleft.operation hright
  height_eq := by rw [Term.height, Expr.term, Term.height, left.height_eq, right.height_eq]
  names_eq := by rw [Term.names, Expr.term, Term.names, left.names_eq, right.names_eq]

theorem call (f : UnaryFn) (argument : e.Spells kinds term) :
    (Expr.call f e).Spells ([.function f, .left] ++ kinds ++ [.right]) (.call f term) where
  scans := by
    intro rest after _ scans
    have inner := argument.scans (ends_right rest) scans.right
    simp only [text, String.toList_append, List.append_assoc]
    refine .function f ?_ inner.left
    intro c tail heq
    cases heq
    decide
  derives := by
    intro rest _
    simp only [List.append_assoc]
    exact .ofApplication (.call (.ofPrimary (argument.derives (head_right rest)).parentheses))
  height_eq := congrArg (· + 1) argument.height_eq
  names_eq := argument.names_eq

end Spells

/-- With digits that stand for the constants, an expression is spelled in one way. -/
theorem spells_constantKinds {c : Float} (reads : ReadsBack c) :
    (Expr.const c).Spells (constantKinds c) (constantTerm c) := by
  cases hc : Binary.ofFloat c with
  | nan => exact .notFinite (by simp [hc])
  | infinite negative => exact .notFinite (by simp [hc])
  | finite negative significand exponent =>
      obtain ⟨row, d, isNumeral, literal, htext, value⟩ := reads.exists_numeral hc
      have magnitude : d.toFloat = if negative then -c else c := by
        rw [← value]
        cases negative
        · rfl
        · exact (DoublePrecision.neg_neg d.toFloat).symm
      have spells := Spells.finite hc isNumeral literal htext
      rw [constantKinds_of_finite hc, constantTerm_of_finite hc]
      rw [magnitude] at spells
      cases negative <;> exact spells

theorem spells_kinds {e : Expr Float} (names : ∀ name ∈ e.names, scan name = .ok [⟨.name name, 0⟩])
    (constants : ∀ c ∈ e.constants, ReadsBack c) : e.Spells e.kinds e.term := by
  induction e with
  | const c => exact spells_constantKinds (constants c (List.mem_singleton_self c))
  | var name slot => exact .var (names name (Finset.mem_singleton_self name)) slot
  | neg body ih => exact (ih names constants).neg
  | binary op left right ihleft ihright =>
      have hleft := ihleft (fun name member => names name (Finset.mem_union_left _ member))
        fun c member => constants c (List.mem_append_left _ member)
      have hright := ihright (fun name member => names name (Finset.mem_union_right _ member))
        fun c member => constants c (List.mem_append_right _ member)
      exact hleft.binary op hright
  | call f argument ih => exact (ih names constants).call f

theorem exists_spells_const (c : Float) : ∃ kinds term, (Expr.const c).Spells kinds term := by
  cases hc : Binary.ofFloat c with
  | nan => exact ⟨_, _, .notFinite (by simp [hc])⟩
  | infinite negative => exact ⟨_, _, .notFinite (by simp [hc])⟩
  | finite negative significand exponent =>
      obtain ⟨row, isPositional, htext⟩ := exists_text_eq_positional hc
      obtain ⟨d, literal⟩ := isPositional.exists_ofLiteral?
      exact ⟨_, _, .finite hc isPositional.isNumeral literal htext⟩

/-- Every expression is spelled in some way, if its names are names. -/
theorem exists_spells {e : Expr Float}
    (names : ∀ name ∈ e.names, scan name = .ok [⟨.name name, 0⟩]) :
    ∃ kinds term, e.Spells kinds term := by
  induction e with
  | const c => exact exists_spells_const c
  | var name slot => exact ⟨_, _, .var (names name (Finset.mem_singleton_self name)) slot⟩
  | neg body ih =>
      obtain ⟨kinds, term, spells⟩ := ih names
      exact ⟨_, _, spells.neg⟩
  | binary op left right ihleft ihright =>
      obtain ⟨_, _, hleft⟩ := ihleft fun name member => names name (Finset.mem_union_left _ member)
      obtain ⟨_, _, hright⟩ :=
        ihright fun name member => names name (Finset.mem_union_right _ member)
      exact ⟨_, _, hleft.binary op hright⟩
  | call f argument ih =>
      obtain ⟨kinds, term, spells⟩ := ih names
      exact ⟨_, _, spells.call f⟩

theorem Spells.scan_text {e : Expr Float} {kinds : List TokenKind} {term : Term}
    (spells : e.Spells kinds term) :
    ∃ tokens, scan e.text = .ok tokens ∧ tokens.map (·.kind) = kinds := by
  have scans := spells.scans ends_nil .nil
  rw [List.append_nil, List.append_nil] at scans
  have derives := spells.derives head_nil
  rw [List.append_nil] at derives
  exact scans.exists_tokens derives.input_ne_nil

end Expr

end Formula
