import Formula.Proofs.Token.Lexeme

/-!
The way of the scan through a text. It comes from one token to the next one, over the blanks between
them, until the text ends or a token is refused.
-/

set_option autoImplicit false

namespace Formula

/-- That the scan of a text comes to a place in it: the tokens that it has then, what it has passed
and what is left. -/
inductive Arrives (source : String) : List Token → List Char → List Char → Prop
  | start : Arrives source [] [] source.toList
  | blank {tokens passed c rest} : Text.isBlank c = true →
      Arrives source tokens passed (c :: rest) → Arrives source tokens (passed ++ [c]) rest
  | token {tokens passed c rest kind tail} : Text.isBlank c = false →
      scanToken (byteLength passed) c rest = .ok (kind, tail) →
      Arrives source tokens passed (c :: rest) →
      Arrives source (tokens ++ [⟨kind, byteLength passed⟩]) (passed ++ c :: tail)
        (rest.drop tail.length)

namespace Arrives

variable {source : String} {tokens : List Token} {passed rest : List Char}

theorem append_eq (arrives : Arrives source tokens passed rest) :
    passed ++ rest = source.toList := by
  induction arrives with
  | start => exact List.nil_append _
  | blank _ _ ih => rw [← ih, List.append_assoc, List.singleton_append]
  | token _ first _ ih =>
      rw [← ih, List.append_assoc, List.cons_append, (scansTo_of_scanToken first).append_drop]

/-- The scan keeps the tokens that it has, and goes on with what is left. -/
theorem scanFrom_eq (arrives : Arrives source tokens passed rest) :
    scanFrom 0 source.toList = (scanFrom (byteLength passed) rest).map (tokens ++ ·) := by
  induction arrives with
  | start =>
      change _ = (scanFrom 0 source.toList).map ([] ++ ·)
      cases scanFrom 0 source.toList <;> rfl
  | @blank tokens passed c rest blank _ ih =>
      rw [ih, scanFrom_blank blank, byteLength_append]
      rfl
  | @token tokens passed c rest kind tail notBlank first _ ih =>
      rw [ih, scanFrom_token notBlank, first, byteLength_append]
      simp only [Except.bind]
      cases scanFrom (byteLength passed + byteLength (c :: tail)) (rest.drop tail.length) with
      | error e => rfl
      | ok after => simp [Except.map]

theorem source_ne_empty {c : Char} (arrives : Arrives source tokens passed (c :: rest)) :
    source ≠ "" := by
  rintro rfl
  exact List.append_ne_nil_of_right_ne_nil passed (List.cons_ne_nil c rest) arrives.append_eq

theorem isPrefix_of_scan {all : List Token} (arrives : Arrives source tokens passed rest)
    (ok : scan source = .ok all) : tokens <+: all := by
  have parts := scanFrom_of_scan ok
  rw [arrives.scanFrom_eq] at parts
  cases heq : scanFrom (byteLength passed) rest with
  | error e =>
      rw [heq] at parts
      contradiction
  | ok more =>
      rw [heq] at parts
      exact ⟨more, Except.ok.inj parts⟩

/-- From every place the scan comes to the end of the text, or to a token that it refuses. -/
theorem goes_on (arrives : Arrives source tokens passed rest) :
    match scanFrom (byteLength passed) rest with
    | .ok more => Arrives source (tokens ++ more) source.toList []
    | .error e => ∃ tokens' passed' c rest', passed <+: passed' ∧
        Arrives source tokens' passed' (c :: rest') ∧ Text.isBlank c = false ∧
        scanToken (byteLength passed') c rest' = .error e := by
  generalize hposition : byteLength passed = position
  fun_induction scanFrom position rest generalizing tokens passed with
  | case1 =>
      have whole := arrives.append_eq
      rw [List.append_nil] at whole
      subst whole
      simpa using arrives
  | case2 position c rest blank ih =>
      have next := ih (arrives.blank blank) (by rw [byteLength_append, hposition]; rfl)
      generalize scanFrom (position + c.utf8Size) rest = outcome at next ⊢
      cases outcome with
      | ok more => exact next
      | error e =>
          obtain ⟨tokens', passed', c', rest', later, refused⟩ := next
          exact ⟨tokens', passed', c', rest', (List.prefix_append passed [c]).trans later, refused⟩
  | case3 position c rest notBlank e first =>
      subst hposition
      exact ⟨tokens, passed, c, rest, List.prefix_refl passed, arrives,
        Bool.eq_false_iff.mpr notBlank, first⟩
  | case4 position c rest notBlank kind tail first e failed ih =>
      subst hposition
      have next := ih (arrives.token (Bool.eq_false_iff.mpr notBlank) first) (byteLength_append _ _)
      rw [failed] at next
      obtain ⟨tokens', passed', c', rest', later, refused⟩ := next
      exact ⟨tokens', passed', c', rest', (List.prefix_append passed (c :: tail)).trans later,
        refused⟩
  | case5 position c rest notBlank kind tail first after ok ih =>
      subst hposition
      have next := ih (arrives.token (Bool.eq_false_iff.mpr notBlank) first) (byteLength_append _ _)
      rw [ok] at next
      simpa using next

/-- The tokens of a text are those with which its scan arrives at the end. -/
theorem scanFrom_eq_ok_iff :
    scanFrom 0 source.toList = .ok tokens ↔ Arrives source tokens source.toList [] := by
  constructor
  · intro ok
    have outcome := (start : Arrives source [] [] source.toList).goes_on
    rwa [byteLength, ok] at outcome
  · intro arrives
    rw [arrives.scanFrom_eq, scanFrom_nil]
    exact congrArg Except.ok (List.append_nil tokens)

/-- A text has no tokens if its scan arrives at a token that it refuses, and only then. -/
theorem scanFrom_eq_error_iff {e : LexError} :
    scanFrom 0 source.toList = .error e ↔ ∃ tokens passed c rest,
      Arrives source tokens passed (c :: rest) ∧ Text.isBlank c = false ∧
        scanToken (byteLength passed) c rest = .error e := by
  constructor
  · intro failed
    have outcome := (start : Arrives source [] [] source.toList).goes_on
    rw [byteLength, failed] at outcome
    obtain ⟨tokens, passed, c, rest, -, refused⟩ := outcome
    exact ⟨tokens, passed, c, rest, refused⟩
  · rintro ⟨tokens, passed, c, rest, arrives, notBlank, refused⟩
    rw [arrives.scanFrom_eq, scanFrom_token notBlank, refused]
    rfl

/-- Nothing is refused before a place at which the scan has arrived. -/
theorem le_of_invalidNumber {literal : String} {position : Nat}
    (arrives : Arrives source tokens passed rest)
    (failed : scanFrom 0 source.toList = .error (.invalidNumber literal position)) :
    byteLength passed ≤ position := by
  have outcome := arrives.goes_on
  rw [arrives.scanFrom_eq] at failed
  cases heq : scanFrom (byteLength passed) rest with
  | ok more =>
      rw [heq] at failed
      contradiction
  | error e =>
      rw [heq] at failed outcome
      obtain rfl := Except.error.inj failed
      obtain ⟨tokens', passed', c, rest', ⟨between, rfl⟩, -, -, refused⟩ := outcome
      rcases scanToken_eq_error refused with character | number
      · contradiction
      · rw [(LexError.invalidNumber.inj number).2, byteLength_append]
        exact Nat.le_add_right _ _

theorem word {c : Char} (arrives : Arrives source tokens passed (c :: rest))
    (starts : startsName c = true) :
    Arrives source
      (tokens ++ [⟨.ofWord (String.ofList (c :: rest.takeWhile continuesName)), byteLength passed⟩])
      (passed ++ c :: rest.takeWhile continuesName)
      (rest.drop (rest.takeWhile continuesName).length) :=
  arrives.token (isBlank_of_startsName starts) ((ScansTo.word starts).scanToken _)

end Arrives

end Formula
