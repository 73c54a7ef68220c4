import Formula.Proofs.Term.Readers

/-!
Which token an error of reading points at. A reader goes on only from tokens that it has been given,
and whatever it is wrong about is one of them: the token at hand, or one that opened a group.
-/

set_option autoImplicit false

namespace Formula

variable {limit : Nat}

/-- That an error is about one of the tokens, and tells its position and its text. -/
def ParseError.Blames (tokens : List Token) : ParseError → Prop
  | .emptyInput | .unexpectedEnd => True
  | .unbalancedParentheses position => ⟨.left, position⟩ ∈ tokens ∨ ⟨.right, position⟩ ∈ tokens
  | .trailingTokens text position | .unexpectedToken text position =>
      ∃ kind, ⟨kind, position⟩ ∈ tokens ∧ kind.text = text
  | .unknownFunction name position => ⟨.name name, position⟩ ∈ tokens
  | .missingOperand name position => ∃ f, ⟨.function f, position⟩ ∈ tokens ∧ f.name = name
  | .nestingTooDeep _ position => ∃ kind, ⟨kind, position⟩ ∈ tokens

theorem ParseError.Blames.mono {tokens more : List Token} {e : ParseError}
    (blames : e.Blames tokens) (sub : tokens ⊆ more) : e.Blames more := by
  cases e with
  | emptyInput | unexpectedEnd => trivial
  | unbalancedParentheses => exact blames.imp (@sub _) (@sub _)
  | trailingTokens | unexpectedToken | missingOperand =>
      obtain ⟨found, member, same⟩ := blames
      exact ⟨found, sub member, same⟩
  | unknownFunction => exact sub blames
  | nestingTooDeep =>
      obtain ⟨kind, member⟩ := blames
      exact ⟨kind, sub member⟩

theorem Cursor.enter_eq_error {c : Cursor limit} {rest : List Token} {position : Nat}
    {e : ParseError} (refused : c.enter rest position = .error e) :
    e = .nestingTooDeep limit position := by
  unfold enter openGroup at refused
  split at refused
  · contradiction
  · cases refused
    rfl

theorem growHeight_eq_error {height position : Nat} {e : ParseError}
    (refused : growHeight limit height position = .error e) :
    e = .nestingTooDeep limit position := by
  unfold growHeight at refused
  split at refused
  · contradiction
  · cases refused
    rfl

namespace Parse

/-- That reading goes on from some of the tokens, or is wrong about one of them. -/
def Keeps (tokens : List Token) : Except ParseError (Parsed limit) → Prop
  | .ok p => p.stop.rest <:+ tokens
  | .error e => e.Blames tokens

namespace Keeps

variable {tokens : List Token} {β : Type} {x : Except ParseError β}
  {f : β → Except ParseError (Parsed limit)} {r : Except ParseError (Parsed limit)}

theorem mono {more : List Token} (keeps : Keeps tokens r) (suffix : tokens <:+ more) :
    Keeps more r := by
  cases r with
  | ok p => exact List.IsSuffix.trans keeps suffix
  | error e => exact ParseError.Blames.mono keeps suffix.subset

theorem bind (refused : ∀ e, x = .error e → e.Blames tokens)
    (goesOn : ∀ b, x = .ok b → Keeps tokens (f b)) : Keeps tokens (x.bind f) := by
  cases x with
  | error e => exact refused e rfl
  | ok b => exact goesOn b rfl

/-- After a reading, what comes next starts where it stopped. -/
theorem bind_reading {r : Except ParseError (Parsed limit)}
    {f : Parsed limit → Except ParseError (Parsed limit)} (first : Keeps tokens r)
    (next : ∀ p, r = .ok p → p.stop.rest <:+ tokens → Keeps tokens (f p)) :
    Keeps tokens (r.bind f) := by
  cases r with
  | error e => exact first
  | ok p => exact next p rfl first

/-- A group is opened at a token, and what is in it comes behind this token. -/
theorem bind_enter {c : Cursor limit} {token : Token} {rest : List Token}
    {f : Cursor limit → Except ParseError (Parsed limit)} (hrest : c.rest = token :: rest)
    (inside : ∀ inner : Cursor limit, inner.rest <:+ c.rest →
      inner.rest.length < c.rest.length → Keeps c.rest (f inner)) :
    Keeps c.rest ((c.enter rest token.position).bind f) := by
  refine bind ?_ ?_
  · intro e refused
    rw [Cursor.enter_eq_error refused, hrest]
    exact ⟨token.kind, List.mem_cons_self⟩
  · intro inner opened
    exact inside inner (Cursor.suffix_of_enter hrest opened)
      (Cursor.length_lt_of_enter hrest opened)

theorem bind_growHeight {height : Nat} {token : Token}
    {f : Nat → Except ParseError (Parsed limit)} (member : token ∈ tokens)
    (goesOn : ∀ grown, Keeps tokens (f grown)) :
    Keeps tokens ((growHeight limit height token.position).bind f) := by
  refine bind ?_ fun grown _ => goesOn grown
  intro e refused
  rw [growHeight_eq_error refused]
  exact ⟨token.kind, member⟩

end Keeps

mutual

theorem keeps_expression (least : Nat) (c : Cursor limit) :
    Keeps c.rest (plain (expression least c)) := by
  rw [plain_expression]
  refine (keeps_signed c).bind_reading ?_
  intro first hfirst suffix
  have shorter := passed_of_plain hfirst
  exact (keeps_operators least first).mono suffix
termination_by (c.rest.length, 4)

theorem keeps_operators (least : Nat) (left : Parsed limit) :
    Keeps left.stop.rest (plain (operators least left)) := by
  rw [plain_operators]
  split
  · rename_i op position rest hrest
    split
    · exact List.suffix_refl _
    · refine Keeps.bind_enter hrest ?_
      intro inner within entered
      refine ((keeps_expression _ inner).mono within).bind_reading ?_
      intro right hright suffix
      have shorter := Nat.lt_trans (passed_of_plain hright) entered
      refine Keeps.bind_growHeight (hrest ▸ List.mem_cons_self) ?_
      intro height
      exact (keeps_operators least _).mono suffix
  · exact List.suffix_refl _
termination_by (left.stop.rest.length, 0)

theorem keeps_signed (c : Cursor limit) : Keeps c.rest (plain (signed c)) := by
  rw [plain_signed]
  split
  · rename_i position rest hrest
    refine Keeps.bind_enter hrest ?_
    intro inner within entered
    refine ((keeps_signed inner).mono within).bind_reading ?_
    intro body hbody suffix
    refine Keeps.bind_growHeight (hrest ▸ List.mem_cons_self) ?_
    intro height
    exact suffix
  · rename_i position rest hrest
    refine Keeps.bind_enter hrest ?_
    intro inner within entered
    exact ((keeps_signed inner).mono within).bind_reading fun body hbody suffix => suffix
  · exact keeps_application c
termination_by (c.rest.length, 3)

theorem keeps_application (c : Cursor limit) : Keeps c.rest (plain (application c)) := by
  rw [plain_application]
  split
  · rename_i f position rest hrest
    refine Keeps.bind_enter hrest ?_
    intro inner within entered
    split
    · refine ((keeps_application inner).mono within).bind_reading ?_
      intro argument hargument suffix
      refine Keeps.bind_growHeight (hrest ▸ List.mem_cons_self) ?_
      intro height
      exact suffix
    · exact ⟨f, hrest ▸ List.mem_cons_self, rfl⟩
  · exact keeps_primary c
termination_by (c.rest.length, 2)

theorem keeps_primary (c : Cursor limit) : Keeps c.rest (plain (primary c)) := by
  rw [plain_primary]
  split
  · trivial
  · rename_i hrest
    rw [hrest]
    exact List.suffix_cons _ _
  · rename_i hrest
    rw [hrest]
    split
    · exact List.mem_cons_self
    · exact List.suffix_cons _ _
  · rename_i position rest hrest
    refine Keeps.bind_enter hrest ?_
    intro inner within entered
    refine ((keeps_expression 0 inner).mono within).bind_reading ?_
    intro body hbody suffix
    split
    · rename_i close after hstop
      rw [hstop] at suffix
      exact (List.suffix_cons _ _).trans suffix
    -- Nothing is left to point at, so the error tells where the group was opened.
    · exact .inl (hrest ▸ List.mem_cons_self)
    · rename_i other after notRight hstop
      exact ⟨other.kind, suffix.subset (hstop ▸ List.mem_cons_self), rfl⟩
  · rename_i other rest notNumber notName notLeft hrest
    exact ⟨other.kind, hrest ▸ List.mem_cons_self, rfl⟩
termination_by (c.rest.length, 1)

end

end Parse

/-- Whatever is wrong with a row of tokens, the error is about one of them. -/
theorem Term.blames_of_ofTokens {tokens : List Token} {e : ParseError}
    (failed : ofTokens tokens = .error e) : e.Blames tokens := by
  have keeps := Parse.keeps_expression 0 (.start maxNesting tokens)
  unfold ofTokens at failed
  split at failed
  · cases failed
    trivial
  · split at failed
    · rename_i hread
      cases failed
      rw [hread] at keeps
      exact keeps
    · rename_i p shorter hread
      rw [hread] at keeps
      have suffix : p.stop.rest <:+ tokens := keeps
      split at failed
      · contradiction
      · rename_i position rest hstop
        cases failed
        exact .inr (suffix.subset (hstop ▸ List.mem_cons_self))
      · rename_i token rest notRight hstop
        cases failed
        exact ⟨token.kind, suffix.subset (hstop ▸ List.mem_cons_self), rfl⟩

end Formula
