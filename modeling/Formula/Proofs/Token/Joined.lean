import Formula.Proofs.Token.Lexeme

/-!
Texts that are joined with blanks between them. No token looks beyond a blank, so that each text is
read as if it were alone, the second one at a later byte.
-/

set_option autoImplicit false

namespace Formula

/-- That a text ends, or goes on with a blank. -/
def BlankAhead (more : List Char) : Prop :=
  ∀ c after, more = c :: after → Text.isBlank c = true

namespace BlankAhead

variable {more : List Char}

section

variable {p : Char → Bool} (solid : ∀ c, p c = true → Text.isBlank c = false)

include solid

theorem not_taken {c : Char} {after : List Char} (ahead : BlankAhead (c :: after)) :
    p c = false := by
  rw [Bool.eq_false_iff]
  intro taken
  have blank := ahead c after rfl
  rw [solid c taken] at blank
  contradiction

theorem takeWhile_append (ahead : BlankAhead more) (cs : List Char) :
    (cs ++ more).takeWhile p = cs.takeWhile p := by
  induction cs with
  | nil =>
      cases more with
      | nil => rfl
      | cons c after => rw [List.nil_append, List.takeWhile_cons, not_taken solid ahead]; rfl
  | cons c rest ih => rw [List.cons_append, List.takeWhile_cons, List.takeWhile_cons, ih]

theorem head?_any_append (ahead : BlankAhead more) (cs : List Char) :
    (cs ++ more).head?.any p = cs.head?.any p := by
  cases cs with
  | cons c rest => rfl
  | nil =>
      cases more with
      | nil => rfl
      | cons c after => exact not_taken solid ahead

end

theorem signedDigits_append (ahead : BlankAhead more) (cs : List Char) :
    signedDigits (cs ++ more) = signedDigits cs := by
  have digits := fun c => isBlank_of_isDigit (c := c)
  cases cs with
  | cons sign rest =>
      rw [List.cons_append, signedDigits, signedDigits, ahead.head?_any_append digits,
        ahead.takeWhile_append digits, ← List.cons_append, ahead.takeWhile_append digits]
  | nil =>
      cases more with
      | nil => rfl
      | cons c after =>
          have notSign : (c == '+' || c == '-') = false :=
            not_taken (p := fun c => c == '+' || c == '-') (fun _ => isBlank_of_isSign) ahead
          rw [List.nil_append, signedDigits, notSign, Bool.false_and, if_neg (by decide),
            List.takeWhile_cons, not_taken digits ahead]
          rfl

theorem exponentPart_append (ahead : BlankAhead more) (cs : List Char) :
    exponentPart (cs ++ more) = exponentPart cs := by
  cases cs with
  | cons mark rest => rw [List.cons_append, exponentPart, exponentPart, ahead.signedDigits_append]
  | nil =>
      cases more with
      | nil => rfl
      | cons c after =>
          have notMark := not_taken (fun _ => isBlank_of_isExponentMark) ahead
          rw [List.nil_append, exponentPart, notMark, Bool.false_and, if_neg (by decide)]
          rfl

theorem numberTail_append (ahead : BlankAhead more) (cs : List Char) :
    numberTail (cs ++ more) = numberTail cs := by
  have plain (c : Char) := isBlank_of_isDigit_or_point (c := c)
  have inside : (cs.takeWhile fun c => c.isDigit || c == '.').length ≤ cs.length :=
    (List.takeWhile_prefix _).length_le
  simp only [numberTail, ahead.takeWhile_append plain, List.drop_append_of_le_length inside,
    ahead.exponentPart_append]

theorem scanToken_append (ahead : BlankAhead more) (position : Nat) (c : Char) (rest : List Char) :
    scanToken position c (rest ++ more) = scanToken position c rest := by
  simp only [scanToken, startsNumber, ahead.head?_any_append fun _ => isBlank_of_isDigit,
    ahead.numberTail_append, ahead.takeWhile_append fun _ => isBlank_of_continuesName]

theorem scanFrom_cons_append (ahead : BlankAhead more) {position : Nat} {c : Char}
    {rest tail : List Char} {kind : TokenKind} (notBlank : ¬Text.isBlank c = true)
    (first : scanToken position c rest = .ok (kind, tail)) :
    scanFrom position (c :: rest ++ more) =
      (scanFrom (position + byteLength (c :: tail)) (rest.drop tail.length ++ more)).map
        (⟨kind, position⟩ :: ·) := by
  have inside := (scansTo_of_scanToken first).isPrefix.length_le
  rw [List.cons_append, scanFrom_token (Bool.eq_false_iff.mpr notBlank), ahead.scanToken_append,
    first, ← List.drop_append_of_le_length inside]
  rfl

theorem scanFrom_append (ahead : BlankAhead more) (position : Nat) (cs : List Char) :
    scanFrom position (cs ++ more) = (scanFrom position cs).bind fun before =>
      (scanFrom (position + byteLength cs) more).map (before ++ ·) := by
  fun_induction scanFrom position cs with
  | case1 position =>
      change scanFrom position more = (scanFrom position more).map ([] ++ ·)
      cases scanFrom position more <;> rfl
  | case2 position c rest blank ih =>
      rw [List.cons_append, scanFrom_blank blank, ih, byteLength, Nat.add_assoc]
  | case3 position c rest notBlank e first =>
      rw [List.cons_append, scanFrom_token (Bool.eq_false_iff.mpr notBlank),
        ahead.scanToken_append, first]
      rfl
  | case4 position c rest notBlank kind tail first e failed ih =>
      rw [ahead.scanFrom_cons_append notBlank first, ih, failed]
      rfl
  | case5 position c rest notBlank kind tail first after ok ih =>
      rw [ahead.scanFrom_cons_append notBlank first, ih, ok]
      have bytes : position + byteLength (c :: tail) + byteLength (rest.drop tail.length) =
          position + byteLength (c :: rest) := by
        rw [Nat.add_assoc, ← byteLength_append, List.cons_append,
          (scansTo_of_scanToken first).append_drop]
      rw [bytes]
      simp only [Except.bind]
      cases scanFrom (position + byteLength (c :: rest)) more <;> rfl

end BlankAhead

def LexError.moved (bytes : Nat) : LexError → LexError
  | emptyInput => emptyInput
  | unrecognizedCharacter c position => unrecognizedCharacter c (bytes + position)
  | invalidNumber literal position => invalidNumber literal (bytes + position)

def Token.moved (bytes : Nat) (token : Token) : Token :=
  { token with position := bytes + token.position }

theorem scanToken_moved (bytes position : Nat) (c : Char) (rest : List Char) :
    scanToken (bytes + position) c rest = (scanToken position c rest).mapError (.moved bytes) := by
  unfold scanToken
  split
  · rfl
  · split_ifs
    · rfl
    · rfl
    · split <;> rfl
    · rfl
    · rfl

theorem scanFrom_moved (bytes position : Nat) (cs : List Char) :
    scanFrom (bytes + position) cs =
      ((scanFrom position cs).map (·.map (Token.moved bytes))).mapError (.moved bytes) := by
  fun_induction scanFrom position cs with
  | case1 position => exact scanFrom_nil _
  | case2 position c rest blank ih => rw [scanFrom_blank blank, Nat.add_assoc, ih]
  | case3 position c rest notBlank e first =>
      rw [scanFrom_token (Bool.eq_false_iff.mpr notBlank), scanToken_moved, first]
      rfl
  | case4 position c rest notBlank kind tail first e failed ih =>
      rw [scanFrom_token (Bool.eq_false_iff.mpr notBlank), scanToken_moved, first]
      simp only [Except.mapError, Except.bind]
      rw [Nat.add_assoc, ih, failed]
      rfl
  | case5 position c rest notBlank kind tail first after ok ih =>
      rw [scanFrom_token (Bool.eq_false_iff.mpr notBlank), scanToken_moved, first]
      simp only [Except.mapError, Except.bind]
      rw [Nat.add_assoc, ih, ok]
      rfl

theorem scanFrom_blanks {blanks : List Char} (blank : ∀ c ∈ blanks, Text.isBlank c = true)
    (position : Nat) (cs : List Char) :
    scanFrom position (blanks ++ cs) = scanFrom (position + byteLength blanks) cs := by
  induction blanks generalizing position with
  | nil => rfl
  | cons c rest ih =>
      rw [List.forall_mem_cons] at blank
      rw [List.cons_append, scanFrom_blank blank.1, ih blank.2, byteLength, Nat.add_assoc]

/-- Blanks keep texts apart: what is wrong with the first one is found as if it were alone, and so
is what is wrong with the second one, at a later byte; otherwise the tokens of both stand in a
row. -/
theorem scan_joined {first blanks second : String} (some : first ≠ "") (apart : blanks ≠ "")
    (other : second ≠ "") (blank : ∀ c ∈ blanks.toList, Text.isBlank c = true) :
    scan (first ++ blanks ++ second) =
      match scan first, scan second with
      | .error e, _ => .error e
      | .ok _, .error e => .error (e.moved (first ++ blanks).utf8ByteSize)
      | .ok before, .ok after =>
          .ok (before ++ after.map (·.moved (first ++ blanks).utf8ByteSize)) := by
  have ahead : BlankAhead (blanks.toList ++ second.toList) := by
    obtain ⟨b, rest, hblanks⟩ := List.exists_cons_of_ne_nil (mt String.toList_eq_nil_iff.mp apart)
    intro c after heq
    rw [hblanks, List.cons_append] at heq
    obtain ⟨rfl, -⟩ := List.cons.inj heq
    exact blank b (hblanks ▸ List.mem_cons_self)
  have nonempty : first ++ blanks ++ second ≠ "" := by
    intro empty
    exact other (String.append_eq_empty_iff.mp empty).2
  have bytes : byteLength first.toList + byteLength blanks.toList =
      (first ++ blanks).utf8ByteSize + 0 := by
    rw [byteLength_toList, byteLength_toList, String.utf8ByteSize_append, Nat.add_zero]
  rw [scan_eq_scanFrom nonempty, scan_eq_scanFrom some, scan_eq_scanFrom other,
    String.toList_append, String.toList_append, List.append_assoc, ahead.scanFrom_append,
    scanFrom_blanks blank, Nat.zero_add, bytes, scanFrom_moved]
  cases scanFrom 0 first.toList with
  | error e => rfl
  | ok before =>
      cases scanFrom 0 second.toList <;> rfl

/-- A wide blank after an exponent mark keeps the digits behind it from being an exponent. Where the
second text is wrong, the character is found behind the bytes of the first one and of the blank. -/
theorem scan_joined_exponent_mark :
    let blanks := "\u2003"
    (∀ c ∈ blanks.toList, Text.isBlank c = true) ∧
      scan ("2e" ++ blanks ++ "+5") =
        .ok [⟨.number 2, 0⟩, ⟨.name "e", 1⟩, ⟨.operator .add, 5⟩, ⟨.number 5, 6⟩] ∧
      scan ("2e" ++ blanks ++ "5#") = .error (.unrecognizedCharacter '#' 6) := by
  intro blanks
  have blank : ∀ c ∈ blanks.toList, Text.isBlank c = true := List.all_eq_true.mp (by decide)
  have first : scan "2e" = .ok [⟨.number 2, 0⟩, ⟨.name "e", 1⟩] := by decide +kernel
  have second : scan "+5" = .ok [⟨.operator .add, 0⟩, ⟨.number 5, 1⟩] := by decide +kernel
  have wrong : scan "5#" = .error (.unrecognizedCharacter '#' 1) := by decide +kernel
  refine ⟨blank, ?_, ?_⟩
  · rw [scan_joined (by decide) (by decide) (by decide) blank, first, second]
    rfl
  · rw [scan_joined (by decide) (by decide) (by decide) blank, first, wrong]
    rfl

end Formula
