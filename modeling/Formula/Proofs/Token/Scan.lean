import Formula.Token
import Mathlib

/-!
The tokens of a text that is put together from the texts of tokens. A name or a number ends where
no character follows that it would take.
-/

set_option autoImplicit false

namespace Formula

theorem bounds_of_isAlpha {c : Char} (alpha : c.isAlpha = true) :
    65 ≤ c.toNat ∧ c.toNat ≤ 122 := by
  simp only [Char.isAlpha, Char.isUpper, Char.isLower, Bool.or_eq_true, Bool.and_eq_true,
    decide_eq_true_eq, UInt32.le_iff_toNat_le, ge_iff_le] at alpha
  have hA : 'A'.val.toNat = 65 := rfl
  have hZ : 'Z'.val.toNat = 90 := rfl
  have ha : 'a'.val.toNat = 97 := rfl
  have hz : 'z'.val.toNat = 122 := rfl
  simp only [Char.toNat]
  omega

theorem bounds_of_isDigit {c : Char} (digit : c.isDigit = true) :
    48 ≤ c.toNat ∧ c.toNat ≤ 57 := by
  simp only [Char.isDigit, Bool.and_eq_true, decide_eq_true_eq, UInt32.le_iff_toNat_le] at digit
  exact digit

theorem Decimal.isExponentMark_iff {c : Char} : isExponentMark c = true ↔ c = 'e' ∨ c = 'E' := by
  simp [isExponentMark]

theorem isSign_iff {c : Char} : (c == '+' || c == '-') = true ↔ c = '+' ∨ c = '-' := by
  simp

theorem le_of_startsName {c : Char} (starts : startsName c = true) : 65 ≤ c.toNat := by
  simp only [startsName, Bool.or_eq_true, Bool.and_eq_true, decide_eq_true_eq, beq_iff_eq] at starts
  rcases starts with (alpha | rfl) | ⟨⟨beyond, -⟩, -⟩
  · exact (bounds_of_isAlpha alpha).1
  · decide
  · exact Nat.le_trans (by decide) beyond

theorem isBlank_of_startsName {c : Char} (starts : startsName c = true) :
    Text.isBlank c = false := by
  simp only [startsName, Bool.or_eq_true, Bool.and_eq_true, Bool.not_eq_true', beq_iff_eq] at starts
  rcases starts with (alpha | rfl) | ⟨⟨-, notBlank⟩, -⟩
  · have := bounds_of_isAlpha alpha
    simp only [Text.isBlank, Bool.or_eq_false_iff, Bool.and_eq_false_iff, decide_eq_false_iff_not,
      beq_eq_false_iff_ne]
    omega
  · decide
  · exact notBlank

theorem ofSymbol?_of_startsName {c : Char} (starts : startsName c = true) :
    Operator.ofSymbol? c = none := by
  cases hop : Operator.ofSymbol? c with
  | none => rfl
  | some op =>
      rw [Operator.ofSymbol?_eq_some_iff.mp hop] at starts
      cases op <;> contradiction

theorem startsNumber_of_startsName {c : Char} (starts : startsName c = true) (rest : List Char) :
    startsNumber c rest = false := by
  have hle := le_of_startsName starts
  have notDigit : c.isDigit = false := by
    rw [Bool.eq_false_iff]
    intro digit
    have := bounds_of_isDigit digit
    omega
  have notPoint : (c == '.') = false := by
    rw [beq_eq_false_iff_ne]
    rintro rfl
    exact absurd hle (by decide)
  simp [startsNumber, notDigit, notPoint]

theorem isBlank_of_isDigit {c : Char} (digit : c.isDigit = true) : Text.isBlank c = false := by
  have := bounds_of_isDigit digit
  simp only [Text.isBlank, Bool.or_eq_false_iff, Bool.and_eq_false_iff, decide_eq_false_iff_not,
    beq_eq_false_iff_ne]
  omega

theorem ofSymbol?_of_isDigit {c : Char} (digit : c.isDigit = true) :
    Operator.ofSymbol? c = none := by
  cases hop : Operator.ofSymbol? c with
  | none => rfl
  | some op =>
      rw [Operator.ofSymbol?_eq_some_iff.mp hop] at digit
      cases op <;> contradiction

/-- That neither a name nor a number goes on. -/
def Ends (rest : List Char) : Prop :=
  ∀ c after, rest = c :: after → continuesName c = false ∧ c ≠ '.'

theorem takeWhile_append_of_stops {p : Char → Bool} {cs rest : List Char} (all : ∀ c ∈ cs, p c)
    (stops : ∀ c after, rest = c :: after → p c = false) : (cs ++ rest).takeWhile p = cs := by
  rw [List.takeWhile_append_of_pos all]
  cases rest with
  | nil => exact List.append_nil cs
  | cons c after => rw [List.takeWhile_cons, stops c after rfl, if_neg (by decide), List.append_nil]

/-- The ways to a token: a symbol, a number or a word. -/
inductive ScansTo (c : Char) (rest : List Char) : TokenKind → List Char → Prop
  | operator {op : Operator} : c = op.symbol → ScansTo c rest (.operator op) []
  | left : c = '(' → ScansTo c rest .left []
  | right : c = ')' → ScansTo c rest .right []
  | number {d : Decimal} : startsNumber c rest = true →
      Decimal.ofLiteral? (c :: numberTail rest) = some d →
      ScansTo c rest (.number d.toFloat) (numberTail rest)
  | word : startsName c = true →
      ScansTo c rest (.ofWord (String.ofList (c :: rest.takeWhile continuesName)))
        (rest.takeWhile continuesName)

section

variable {position : Nat} {c : Char} {rest tail : List Char} {kind : TokenKind}

theorem scansTo_of_scanToken (ok : scanToken position c rest = .ok (kind, tail)) :
    ScansTo c rest kind tail := by
  unfold scanToken at ok
  split at ok
  · rename_i op symbol
    cases ok
    exact .operator (Operator.ofSymbol?_eq_some_iff.mp symbol)
  · split_ifs at ok with left right number starts
    · cases ok
      exact .left left
    · cases ok
      exact .right right
    · split at ok
      · rename_i d literal
        cases ok
        exact .number number literal
      · contradiction
    · cases ok
      exact .word starts

theorem scanToken_eq_error {e : LexError} (failed : scanToken position c rest = .error e) :
    e = .unrecognizedCharacter c position ∨
      e = .invalidNumber (String.ofList (c :: numberTail rest)) position := by
  unfold scanToken at failed
  split at failed
  · contradiction
  · split_ifs at failed
    · split at failed
      · contradiction
      · cases failed
        exact .inr rfl
    · cases failed
      exact .inl rfl

theorem noSymbol_of_startsNumber (starts : startsNumber c rest = true) :
    Operator.ofSymbol? c = none ∧ c ≠ '(' ∧ c ≠ ')' := by
  rcases (Bool.or_eq_true _ _).mp starts with digit | point
  · refine ⟨ofSymbol?_of_isDigit digit, ?_, ?_⟩ <;> rintro rfl <;> contradiction
  · rw [beq_iff_eq.mp ((Bool.and_eq_true _ _).mp point).1]
    decide

theorem noSymbol_of_startsName (starts : startsName c = true) :
    Operator.ofSymbol? c = none ∧ c ≠ '(' ∧ c ≠ ')' := by
  refine ⟨ofSymbol?_of_startsName starts, ?_, ?_⟩ <;> rintro rfl <;> contradiction

theorem ScansTo.scanToken (scans : ScansTo c rest kind tail) (position : Nat) :
    scanToken position c rest = .ok (kind, tail) := by
  cases scans with
  | operator symbol => rw [Formula.scanToken, Operator.ofSymbol?_eq_some_iff.mpr symbol]
  | left left =>
      subst left
      rfl
  | right right =>
      subst right
      rfl
  | number starts literal =>
      obtain ⟨noSymbol, notLeft, notRight⟩ := noSymbol_of_startsNumber starts
      simp only [Formula.scanToken, noSymbol, if_neg notLeft, if_neg notRight, starts, if_true,
        literal]
  | word starts =>
      obtain ⟨noSymbol, notLeft, notRight⟩ := noSymbol_of_startsName starts
      simp only [Formula.scanToken, noSymbol, if_neg notLeft, if_neg notRight,
        startsNumber_of_startsName starts, starts, if_true]
      rfl

end

theorem ScansTo.word_append {c : Char} {tail rest : List Char} (starts : startsName c = true)
    (continues : ∀ x ∈ tail, continuesName x) (ends : Ends rest) :
    ScansTo c (tail ++ rest) (.ofWord (String.ofList (c :: tail))) tail := by
  have scans : ScansTo c (tail ++ rest) _ _ := .word starts
  rwa [takeWhile_append_of_stops continues fun c after heq => (ends c after heq).1] at scans

theorem scanFrom_nil (position : Nat) : scanFrom position [] = .ok [] := by
  rw [scanFrom]

theorem scanFrom_blank {c : Char} (blank : Text.isBlank c = true) (position : Nat)
    (rest : List Char) : scanFrom position (c :: rest) = scanFrom (position + c.utf8Size) rest := by
  rw [scanFrom, if_pos blank]

theorem scanFrom_token {c : Char} (notBlank : Text.isBlank c = false) (position : Nat)
    (rest : List Char) :
    scanFrom position (c :: rest) = (scanToken position c rest).bind fun (kind, tail) =>
      (scanFrom (position + byteLength (c :: tail)) (rest.drop tail.length)).map
        (⟨kind, position⟩ :: ·) := by
  rw [scanFrom, notBlank, if_neg (by decide)]
  cases scanToken position c rest with
  | error e => rfl
  | ok first =>
      obtain ⟨kind, tail⟩ := first
      simp only [Except.bind]
      cases scanFrom (position + byteLength (c :: tail)) (rest.drop tail.length) <;> rfl

/-- That a text is a digit, and behind it digits and points. -/
def IsNumeral (cs : List Char) : Prop :=
  ∃ c tail, cs = c :: tail ∧ c.isDigit = true ∧ ∀ x ∈ tail, x.isDigit || x == '.'

/-- That a text has tokens of the given kinds, wherever it stands. -/
def Scans (cs : List Char) (kinds : List TokenKind) : Prop :=
  ∀ position, ∃ tokens, scanFrom position cs = .ok tokens ∧ tokens.map (·.kind) = kinds

namespace Scans

variable {rest : List Char} {kinds : List TokenKind}

theorem nil : Scans [] [] := by
  intro position
  exact ⟨[], by rw [scanFrom], rfl⟩

theorem blank {c : Char} (isBlank : Text.isBlank c = true) (scans : Scans rest kinds) :
    Scans (c :: rest) kinds := by
  intro position
  obtain ⟨tokens, ok, hkinds⟩ := scans (position + c.utf8Size)
  refine ⟨tokens, ?_, hkinds⟩
  rw [scanFrom, if_pos isBlank, ok]

theorem token {c : Char} {kind : TokenKind} (tail : List Char) (notBlank : Text.isBlank c = false)
    (first : ScansTo c (tail ++ rest) kind tail) (scans : Scans rest kinds) :
    Scans (c :: (tail ++ rest)) (kind :: kinds) := by
  intro position
  obtain ⟨tokens, ok, hkinds⟩ := scans (position + byteLength (c :: tail))
  refine ⟨⟨kind, position⟩ :: tokens, ?_, congrArg (kind :: ·) hkinds⟩
  rw [scanFrom_token notBlank, first.scanToken]
  simp only [Except.bind, List.drop_left, ok]
  rfl

theorem operator (op : Operator) (scans : Scans rest kinds) :
    Scans (op.symbol :: rest) (.operator op :: kinds) :=
  token [] (by cases op <;> decide) (.operator rfl) scans

theorem left (scans : Scans rest kinds) : Scans ('(' :: rest) (.left :: kinds) :=
  token [] (by decide) (.left rfl) scans

theorem right (scans : Scans rest kinds) : Scans (')' :: rest) (.right :: kinds) :=
  token [] (by decide) (.right rfl) scans

theorem word {c : Char} {tail : List Char} (starts : startsName c = true)
    (continues : ∀ x ∈ tail, continuesName x) (ends : Ends rest) (scans : Scans rest kinds) :
    Scans (c :: tail ++ rest) (.ofWord (String.ofList (c :: tail)) :: kinds) :=
  token tail (isBlank_of_startsName starts) (.word_append starts continues ends) scans

theorem number {numeral : List Char} {d : Decimal} (isNumeral : IsNumeral numeral)
    (literal : Decimal.ofLiteral? numeral = some d) (ends : Ends rest) (scans : Scans rest kinds) :
    Scans (numeral ++ rest) (.number d.toFloat :: kinds) := by
  obtain ⟨c, tail, rfl, digit, plain⟩ := isNumeral
  have htail : numberTail (tail ++ rest) = tail := by
    have mantissa : (tail ++ rest).takeWhile (fun c => c.isDigit || c == '.') = tail := by
      refine takeWhile_append_of_stops plain ?_
      intro c after heq
      obtain ⟨stops, notPoint⟩ := ends c after heq
      simp_all [continuesName]
    have noExponent : exponentPart rest = [] := by
      cases rest with
      | nil => rfl
      | cons mark after =>
          obtain ⟨stops, -⟩ := ends mark after rfl
          have notMark : Decimal.isExponentMark mark = false := by
            rw [Bool.eq_false_iff]
            intro isMark
            rcases Decimal.isExponentMark_iff.mp isMark with rfl | rfl <;> contradiction
          simp [exponentPart, notMark]
    rw [numberTail, mantissa, List.drop_left, noExponent, List.append_nil]
  have starts : startsNumber c (tail ++ rest) = true := by
    rw [startsNumber, digit, Bool.true_or]
  have first := ScansTo.number starts (by rw [htail]; exact literal)
  rw [htail] at first
  exact token tail (isBlank_of_isDigit digit) first scans

end Scans

/-- A text that has tokens is not empty. -/
theorem Scans.exists_tokens {source : String} {kinds : List TokenKind}
    (scans : Scans source.toList kinds) (some : kinds ≠ []) :
    ∃ tokens, scan source = .ok tokens ∧ tokens.map (·.kind) = kinds := by
  obtain ⟨tokens, ok, hkinds⟩ := scans 0
  refine ⟨tokens, ?_, hkinds⟩
  rw [scan, if_neg ?_, ok]
  rintro rfl
  rw [String.toList_empty, scanFrom] at ok
  cases ok
  exact some hkinds.symm

theorem scan_eq_scanFrom {source : String} (some : source ≠ "") :
    scan source = scanFrom 0 source.toList :=
  if_neg some

theorem scanFrom_of_scan {source : String} {tokens : List Token} (ok : scan source = .ok tokens) :
    scanFrom 0 source.toList = .ok tokens := by
  unfold scan at ok
  split at ok
  · contradiction
  · exact ok

theorem exists_scansTo_of_mem {position : Nat} {cs : List Char} {tokens : List Token}
    (ok : scanFrom position cs = .ok tokens) {token : Token} (member : token ∈ tokens) :
    ∃ c rest tail, ScansTo c rest token.kind tail := by
  fun_induction scanFrom position cs generalizing tokens with
  | case1 =>
      cases ok
      contradiction
  | case2 position c rest blank ih => exact ih ok member
  | case3 => contradiction
  | case4 => contradiction
  | case5 position c rest notBlank kind tail first after hafter ih =>
      cases ok
      rcases List.mem_cons.mp member with rfl | member
      · exact ⟨c, rest, tail, scansTo_of_scanToken first⟩
      · exact ih hafter member

/-- A text that is a name is one word from its first character to its last. -/
theorem exists_of_scan_eq_name {text : String} (one : scan text = .ok [⟨.name text, 0⟩]) :
    ∃ c tail, text.toList = c :: tail ∧ startsName c = true ∧ (∀ x ∈ tail, continuesName x) ∧
      TokenKind.ofWord text = .name text := by
  obtain ⟨c, rest, tail, scans⟩ :=
    exists_scansTo_of_mem (scanFrom_of_scan one) (List.mem_singleton_self _)
  dsimp only at scans
  generalize same : TokenKind.name text = kind at scans
  cases scans with
  | operator | left | right | number => contradiction
  | word starts =>
      obtain ⟨htext, -⟩ := TokenKind.ofWord_eq_name_iff.mp same.symm
      refine ⟨c, rest.takeWhile continuesName, ?_, starts, ?_, ?_⟩
      · rw [← htext, String.toList_ofList]
      · exact fun x member => List.mem_takeWhile_imp member
      · rw [htext]

theorem Scans.name {text : String} {rest : List Char} {kinds : List TokenKind}
    (one : scan text = .ok [⟨.name text, 0⟩]) (ends : Ends rest) (scans : Scans rest kinds) :
    Scans (text.toList ++ rest) (.name text :: kinds) := by
  obtain ⟨c, tail, htext, starts, continues, hword⟩ := exists_of_scan_eq_name one
  have words := Scans.word starts continues ends scans
  rwa [← htext, String.ofList_toList, hword] at words

theorem UnaryFn.word_name (f : UnaryFn) :
    ∃ c tail, f.name.toList = c :: tail ∧ startsName c = true ∧ ∀ x ∈ tail, continuesName x := by
  cases f <;> exact ⟨_, _, rfl, by decide, List.all_eq_true.mp (by decide)⟩

theorem Scans.function (f : UnaryFn) {rest : List Char} {kinds : List TokenKind}
    (ends : Ends rest) (scans : Scans rest kinds) :
    Scans (f.name.toList ++ rest) (.function f :: kinds) := by
  obtain ⟨c, tail, htext, starts, continues⟩ := f.word_name
  have words := Scans.word starts continues ends scans
  have hword : TokenKind.ofWord f.name = .function f := by
    rw [TokenKind.ofWord, UnaryFn.ofName?_name]
  rwa [← htext, String.ofList_toList, hword] at words

end Formula
