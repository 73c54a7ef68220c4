import Formula.Proofs.Expr.Read
import Formula.Proofs.Term.Blamed
import Formula.Proofs.Token.Arrives

/-!
Where the errors of a text point. Each position is the byte of a character that is not blank, and
what the error shows of the text stands there.
-/

set_option autoImplicit false

namespace Formula

def LexError.position? : LexError → Option Nat
  | emptyInput => none
  | unrecognizedCharacter _ position | invalidNumber _ position => some position

def ParseError.position? : ParseError → Option Nat
  | emptyInput | unexpectedEnd => none
  | unbalancedParentheses position | trailingTokens _ position | unknownFunction _ position
  | missingOperand _ position | unexpectedToken _ position | nestingTooDeep _ position =>
      some position

def EquationError.position? : EquationError → Option Nat
  | lex cause => cause.position?
  | parse cause => cause.position?
  | _ => none

/-- That a position is a byte of a text at which a character stands that is not blank. -/
def IsSolidAt (source : String) (position : Nat) : Prop :=
  position < source.utf8ByteSize ∧
    ∃ c, Text.isBlank c = false ∧ StandsAt source position (String.singleton c)

namespace StandsAt

variable {source : String} {position : Nat} {text : String}

theorem append {rest : String} (stands : StandsAt source position (text ++ rest)) :
    StandsAt source position text := by
  obtain ⟨before, after, heq, start⟩ := stands
  exact ⟨before, rest ++ after, by simp only [heq, String.append_assoc], start⟩

theorem ofList {before piece after : List Char} (heq : source.toList = before ++ (piece ++ after)) :
    StandsAt source (byteLength before) (.ofList piece) := by
  refine ⟨.ofList before, .ofList after, ?_, utf8ByteSize_ofList before⟩
  rw [← String.ofList_toList (s := source), heq, String.ofList_append, String.ofList_append,
    String.append_assoc]

theorem head {c : Char} {tail : List Char}
    (stands : StandsAt source position (.ofList (c :: tail))) :
    StandsAt source position (String.singleton c) := by
  rw [← List.singleton_append, String.ofList_append, ← String.singleton_eq_ofList] at stands
  exact stands.append

theorem isSolidAt {c : Char} {tail : List Char} (notBlank : Text.isBlank c = false)
    (stands : StandsAt source position (.ofList (c :: tail))) : IsSolidAt source position := by
  have first := stands.head
  refine ⟨?_, c, notBlank, first⟩
  obtain ⟨before, after, rfl, rfl⟩ := first
  rw [String.utf8ByteSize_append, String.utf8ByteSize_append, String.utf8ByteSize_singleton]
  have := c.utf8Size_pos
  omega

end StandsAt

theorem IsLexeme.exists_cons {piece : String} {kind : TokenKind} (lexeme : IsLexeme piece kind) :
    ∃ c tail, piece = String.ofList (c :: tail) ∧ Text.isBlank c = false := by
  obtain ⟨c, tail, heq⟩ := List.exists_cons_of_ne_nil (mt String.toList_eq_nil_iff.mp lexeme.some)
  refine ⟨c, tail, ?_, lexeme.solid c (heq ▸ List.mem_cons_self)⟩
  rw [← heq, String.ofList_toList]

theorem Splits.isSolidAt {source : String} {tokens : List Token}
    (splits : Splits 0 source.toList tokens) {token : Token} (member : token ∈ tokens) :
    IsSolidAt source token.position := by
  obtain ⟨piece, lexeme, stands⟩ := splits.standsAt member
  obtain ⟨c, tail, rfl, notBlank⟩ := lexeme.exists_cons
  exact stands.isSolidAt notBlank

theorem ParseError.Blames.exists_token {tokens : List Token} {cause : ParseError} {position : Nat}
    (blames : cause.Blames tokens) (located : cause.position? = some position) :
    ∃ kind, ⟨kind, position⟩ ∈ tokens := by
  cases cause with
  | emptyInput | unexpectedEnd => contradiction
  | unbalancedParentheses =>
      obtain rfl := Option.some.inj located
      exact blames.elim (⟨_, ·⟩) (⟨_, ·⟩)
  | trailingTokens | unexpectedToken =>
      obtain rfl := Option.some.inj located
      obtain ⟨kind, member, -⟩ := blames
      exact ⟨kind, member⟩
  | unknownFunction =>
      obtain rfl := Option.some.inj located
      exact ⟨_, blames⟩
  | missingOperand =>
      obtain rfl := Option.some.inj located
      obtain ⟨f, member, -⟩ := blames
      exact ⟨_, member⟩
  | nestingTooDeep =>
      obtain rfl := Option.some.inj located
      exact blames

/-- That the position in an error is that of what the error shows. -/
structure EquationError.PointsInto (source : String) (e : EquationError) : Prop where
  solid : ∀ position, e.position? = some position → IsSolidAt source position
  character : ∀ c position, e = .lex (.unrecognizedCharacter c position) →
    StandsAt source position (String.singleton c)
  literal : ∀ text position, e = .lex (.invalidNumber text position) →
    StandsAt source position text
  name : ∀ text position, e = .parse (.unknownFunction text position) →
    StandsAt source position text
  token : ∀ cause, e = .parse cause → ∃ tokens, scan source = .ok tokens ∧ cause.Blames tokens

theorem EquationError.PointsInto.of_scan {source : String} {e : LexError}
    (failed : scan source = .error e) : PointsInto source (.lex e) := by
  unfold scan at failed
  split at failed
  · cases failed
    exact ⟨nofun, nofun, nofun, nofun, nofun⟩
  · obtain ⟨tokens, passed, c, rest, arrives, notBlank, refused⟩ :=
      Arrives.scanFrom_eq_error_iff.mp failed
    obtain ⟨after, taken⟩ := numberTail_isPrefix rest
    have parts : source.toList = passed ++ (c :: numberTail rest ++ after) := by
      rw [List.cons_append, taken, arrives.append_eq]
    have stands := StandsAt.ofList parts
    have solid := stands.isSolidAt notBlank
    rcases scanToken_eq_error refused with rfl | rfl
    · refine ⟨?_, ?_, nofun, nofun, nofun⟩
      · rintro position ⟨⟩
        exact solid
      · rintro c position ⟨⟩
        exact stands.head
    · refine ⟨?_, nofun, ?_, nofun, nofun⟩
      · rintro position ⟨⟩
        exact solid
      · rintro text position ⟨⟩
        exact stands

theorem EquationError.PointsInto.of_ofTokens {source : String} {tokens : List Token}
    (scanned : scan source = .ok tokens) {cause : ParseError} (blames : cause.Blames tokens) :
    PointsInto source (.parse cause) where
  solid position located := by
    obtain ⟨kind, member⟩ := blames.exists_token located
    exact (splits_of_scan scanned).isSolidAt member
  character := nofun
  literal := nofun
  name := by
    rintro text position ⟨⟩
    obtain ⟨piece, lexeme, stands⟩ := (splits_of_scan scanned).standsAt blames
    rwa [lexeme.spelled text rfl] at stands
  token := by
    rintro cause ⟨⟩
    exact ⟨tokens, scanned, blames⟩

/-- Every error of a text points at what it is about. -/
theorem Expr.read_error_located {source : String} {e : EquationError}
    (failed : read source = .error e) : e.PointsInto source := by
  unfold read at failed
  split at failed
  · rename_i cause scanned
    cases failed
    exact .of_scan scanned
  · rename_i tokens scanned
    split at failed
    · rename_i cause parsed
      cases failed
      exact .of_ofTokens scanned (Term.blames_of_ofTokens parsed)
    -- Every name of the tree has its slot, so that nothing can be wrong with a variable.
    · rename_i term names parsed
      have known : ∀ name ∈ term.names, name ∈ names.finalize.names :=
        fun name => (mem_finalize parsed).mpr
      obtain ⟨e, bound⟩ := exists_ofTerm known
      rw [bound] at failed
      contradiction

/-- An unknown function behind a name of two bytes. -/
theorem Expr.read_error_located_unknown :
    let source := "Δ + foo(x)"
    read source = .error (.parse (.unknownFunction "foo" 5)) ∧ IsSolidAt source 5 ∧
      StandsAt source 5 "foo" ∧
      ∃ tokens, scan source = .ok tokens ∧ ⟨.name "foo", 5⟩ ∈ tokens := by
  intro source
  have failed : read source = .error (.parse (.unknownFunction "foo" 5)) := by cbv
  have located := read_error_located failed
  exact ⟨failed, located.solid 5 rfl, located.name "foo" 5 rfl, located.token _ rfl⟩

end Formula
