import Formula.Proofs.Token.Arrives
import Formula.Proofs.Token.Literal

/-!
Where a number starts, the scan takes the longest start of the text that is a literal. It fails
there exactly if two points or more stand among the digits, since these are taken together.
-/

set_option autoImplicit false

namespace Formula

open Decimal

/-- That a piece is the longest start of a text of its form. -/
structure IsLongestStart (form : List Char → Prop) (cs piece : List Char) : Prop where
  isPrefix : piece <+: cs
  holds : form piece
  longest : ∀ other, other <+: cs → form other → other.length ≤ piece.length

theorem isPrefix_takeWhile {p : Char → Bool} {other cs : List Char} (start : other <+: cs)
    (all : ∀ x ∈ other, p x = true) : other <+: cs.takeWhile p := by
  obtain ⟨rest, rfl⟩ := start
  rw [List.takeWhile_append_of_pos all]
  exact List.prefix_append other _

section

variable {row cs : List Char}

theorem Decimal.IsDigits.head?_any (digits : IsDigits row) (start : row <+: cs) :
    cs.head?.any Char.isDigit = true := by
  obtain ⟨d, tail, rfl⟩ := List.exists_cons_of_ne_nil digits.some
  obtain ⟨rest, rfl⟩ := start
  exact digits.all d List.mem_cons_self

theorem isDigits_takeWhile (digit : cs.head?.any Char.isDigit = true) :
    IsDigits (cs.takeWhile Char.isDigit) := by
  refine ⟨?_, fun x member => List.mem_takeWhile_imp member⟩
  cases cs with
  | nil => contradiction
  | cons c rest =>
      have first : c.isDigit = true := digit
      rw [List.takeWhile_cons_of_pos first]
      exact List.cons_ne_nil c _

theorem Decimal.IsSigned.ne_nil (signed : IsSigned row) : row ≠ [] := by
  cases signed with
  | plain digits => exact digits.some
  | signed => exact List.cons_ne_nil _ _

theorem isSigned_signedDigits (some : signedDigits cs ≠ []) : IsSigned (signedDigits cs) := by
  cases cs with
  | nil => contradiction
  | cons sign rest =>
      rw [signedDigits] at some ⊢
      split
      · rename_i signed
        obtain ⟨isSign, digit⟩ := (Bool.and_eq_true _ _).mp signed
        exact .signed (isSign_iff.mp isSign) (isDigits_takeWhile digit)
      · rename_i unsigned
        rw [if_neg unsigned] at some
        exact .plain ⟨some, fun x member => List.mem_takeWhile_imp member⟩

theorem Decimal.IsSigned.isPrefix_signedDigits (signed : IsSigned row) (start : row <+: cs) :
    row <+: signedDigits cs := by
  cases signed with
  | plain digits =>
      have digit := digits.head?_any start
      cases cs with
      | nil => contradiction
      | cons c rest =>
          rw [signedDigits_cons_of_isDigit digit]
          exact isPrefix_takeWhile start digits.all
  | @signed sign digits isSign isDigits =>
      obtain ⟨rest, rfl⟩ := start
      have digits' := List.prefix_append digits rest
      rw [List.cons_append, signedDigits, isSign_iff.mpr isSign, isDigits.head?_any digits']
      exact (List.prefix_cons_inj sign).mpr (isPrefix_takeWhile digits' isDigits.all)

theorem isExponent_exponentPart (some : exponentPart cs ≠ []) : IsExponent (exponentPart cs) := by
  cases cs with
  | nil => contradiction
  | cons mark rest =>
      rw [exponentPart] at some ⊢
      split
      · rename_i marked
        simp only [Bool.and_eq_true, Bool.not_eq_true', List.isEmpty_eq_false_iff] at marked
        exact .mk (isExponentMark_iff.mp marked.1) (isSigned_signedDigits marked.2)
      · rename_i unmarked
        rw [if_neg unmarked] at some
        contradiction

theorem Decimal.IsExponent.isPrefix_exponentPart (exponent : IsExponent row) (start : row <+: cs) :
    row <+: exponentPart cs := by
  cases exponent with
  | @mk mark row isMark signed =>
      obtain ⟨rest, rfl⟩ := start
      have taken := signed.isPrefix_signedDigits (List.prefix_append row rest)
      have some : signedDigits (row ++ rest) ≠ [] := by
        intro none
        rw [none, List.prefix_nil] at taken
        exact signed.ne_nil taken
      rw [List.cons_append, exponentPart, if_pos (by simp [isExponentMark_iff.mpr isMark, some])]
      exact (List.prefix_cons_inj mark).mpr taken

end

/-- The digits and points at the head of a text. -/
def pointedDigits (cs : List Char) : List Char :=
  cs.takeWhile fun c => c.isDigit || c == '.'

section

variable {c : Char} {rest : List Char}

theorem plain_of_startsNumber (starts : startsNumber c rest = true) :
    (c.isDigit || c == '.') = true := by
  rcases (Bool.or_eq_true _ _).mp starts with digit | point
  · rw [digit, Bool.true_or]
  · rw [((Bool.and_eq_true _ _).mp point).1, Bool.or_true]

theorem isBlank_of_startsNumber (starts : startsNumber c rest = true) : Text.isBlank c = false :=
  isBlank_of_isDigit_or_point (plain_of_startsNumber starts)

theorem pointedDigits_cons (starts : startsNumber c rest = true) :
    pointedDigits (c :: rest) = c :: pointedDigits rest :=
  List.takeWhile_cons_of_pos (plain_of_startsNumber starts)

theorem cons_numberTail (starts : startsNumber c rest = true) :
    c :: numberTail rest = pointedDigits (c :: rest) ++
      exponentPart ((c :: rest).drop (pointedDigits (c :: rest)).length) := by
  rw [pointedDigits_cons starts]
  rfl

theorem exists_digit_of_startsNumber (starts : startsNumber c rest = true) :
    ∃ x ∈ pointedDigits (c :: rest), x.isDigit = true := by
  rw [pointedDigits_cons starts]
  rcases (Bool.or_eq_true _ _).mp starts with digit | point
  · exact ⟨c, List.mem_cons_self, digit⟩
  · -- Behind a point at the start there is a digit.
    obtain ⟨-, second⟩ := (Bool.and_eq_true _ _).mp point
    cases rest with
    | nil => contradiction
    | cons d rest =>
        have digit : d.isDigit = true := second
        have member : d ∈ pointedDigits (d :: rest) := by simp [pointedDigits, digit]
        exact ⟨d, List.mem_cons_of_mem c member, digit⟩

theorem plain_of_mem_pointedDigits {cs : List Char} :
    ∀ x ∈ pointedDigits cs, (x.isDigit || x == '.') = true :=
  fun _ member => List.mem_takeWhile_imp (p := fun c => c.isDigit || c == '.') member

theorem isMantissa_pointedDigits_iff (starts : startsNumber c rest = true) :
    IsMantissa (pointedDigits (c :: rest)) ↔ (pointedDigits (c :: rest)).count '.' < 2 := by
  rw [isMantissa_iff_count]
  constructor
  · rintro ⟨-, once, -⟩
    exact once
  · intro once
    exact ⟨plain_of_mem_pointedDigits, once, exists_digit_of_startsNumber starts⟩

/-- The digits and points of a text end where an exponent begins. -/
theorem pointedDigits_append {mantissa exponent after : List Char}
    (isMantissa : IsMantissa mantissa) (isExponent : IsExponent exponent) :
    pointedDigits (mantissa ++ (exponent ++ after)) = mantissa := by
  refine takeWhile_append_of_stops (isMantissa_iff_count.mp isMantissa).1 ?_
  intro mark row heq
  cases isExponent with
  | mk isMark =>
      obtain ⟨rfl, -⟩ := List.cons.inj heq
      rcases isMark with rfl | rfl <;> decide

theorem Decimal.IsLiteral.isMantissa_pointedDigits {cs : List Char} (literal : IsLiteral cs) :
    IsMantissa (pointedDigits cs) := by
  cases literal with
  | plain mantissa =>
      rwa [pointedDigits, List.takeWhile_eq_self_iff.mpr (isMantissa_iff_count.mp mantissa).1]
  | @scaled _ exponent mantissa isExponent =>
      rw [← List.append_nil exponent]
      rwa [pointedDigits_append mantissa isExponent]

theorem pointedDigits_numberTail (starts : startsNumber c rest = true) :
    pointedDigits (c :: numberTail rest) = pointedDigits (c :: rest) := by
  rw [cons_numberTail starts]
  exact takeWhile_append_of_stops plain_of_mem_pointedDigits exponentPart_stops

/-- No literal at the head of a text is longer than what is taken of it. -/
theorem Decimal.IsLiteral.isPrefix_numberTail {other : List Char} (literal : IsLiteral other)
    (starts : startsNumber c rest = true) (start : other <+: c :: rest) :
    other <+: c :: numberTail rest := by
  rw [cons_numberTail starts]
  cases literal with
  | plain mantissa =>
      have all := (isMantissa_iff_count.mp mantissa).1
      exact (isPrefix_takeWhile start all).trans (List.prefix_append _ _)
  | scaled mantissa exponent =>
      obtain ⟨after, heq⟩ := start
      rw [List.append_assoc] at heq
      rw [← heq, pointedDigits_append mantissa exponent, List.drop_left]
      exact (List.prefix_append_right_inj _).mpr
        (exponent.isPrefix_exponentPart (List.prefix_append _ after))

theorem isLiteral_numberTail_iff (starts : startsNumber c rest = true) :
    IsLiteral (c :: numberTail rest) ↔ (pointedDigits (c :: rest)).count '.' < 2 := by
  constructor
  · intro literal
    have mantissa := literal.isMantissa_pointedDigits
    rw [pointedDigits_numberTail starts] at mantissa
    exact (isMantissa_pointedDigits_iff starts).mp mantissa
  · intro once
    have mantissa := (isMantissa_pointedDigits_iff starts).mpr once
    rw [cons_numberTail starts]
    by_cases none : exponentPart ((c :: rest).drop (pointedDigits (c :: rest)).length) = []
    · rw [none, List.append_nil]
      exact .plain mantissa
    · exact .scaled mantissa (isExponent_exponentPart none)

theorem isLongestStart_numberTail (starts : startsNumber c rest = true)
    (once : (pointedDigits (c :: rest)).count '.' < 2) :
    IsLongestStart IsLiteral (c :: rest) (c :: numberTail rest) where
  isPrefix := (List.prefix_cons_inj c).mpr (numberTail_isPrefix rest)
  holds := (isLiteral_numberTail_iff starts).mpr once
  longest _ start literal := (literal.isPrefix_numberTail starts start).length_le

theorem exists_scansTo_number (starts : startsNumber c rest = true)
    (once : (pointedDigits (c :: rest)).count '.' < 2) :
    ∃ d, ofLiteral? (c :: numberTail rest) = some d ∧
      ScansTo c rest (.number d.toFloat) (numberTail rest) := by
  obtain ⟨d, literal⟩ := exists_ofLiteral?_iff.mpr ((isLiteral_numberTail_iff starts).mpr once)
  exact ⟨d, literal, .number starts literal⟩

theorem scanToken_of_two_points (starts : startsNumber c rest = true)
    (twice : 2 ≤ (pointedDigits (c :: rest)).count '.') (position : Nat) :
    scanToken position c rest =
      .error (.invalidNumber (String.ofList (c :: numberTail rest)) position) := by
  have refused : ofLiteral? (c :: numberTail rest) = none := by
    rw [Option.eq_none_iff_forall_ne_some]
    intro d literal
    have once := (isLiteral_numberTail_iff starts).mp (exists_ofLiteral?_iff.mp ⟨d, literal⟩)
    omega
  obtain ⟨noSymbol, notLeft, notRight⟩ := noSymbol_of_startsNumber starts
  simp only [scanToken, noSymbol, if_neg notLeft, if_neg notRight, starts, if_true, refused]

/-- Where no digits of an exponent follow the digits and points, these are all that is taken. -/
theorem cons_numberTail_of_not_isSigned {mark : Char} {more : List Char}
    (starts : startsNumber c rest = true)
    (heq : c :: rest = pointedDigits (c :: rest) ++ mark :: more)
    (unsigned : ∀ row, IsSigned row → ¬ row <+: more) :
    c :: numberTail rest = pointedDigits (c :: rest) := by
  have parts : pointedDigits (c :: rest) ++ (c :: rest).drop (pointedDigits (c :: rest)).length =
      c :: rest := List.prefix_iff_eq_append.mp (List.takeWhile_prefix _)
  have behind := List.append_cancel_left (parts.trans heq)
  have none : signedDigits more = [] := by
    by_contra some
    exact unsigned _ (isSigned_signedDigits some) (signedDigits_isPrefix more)
  have noExponent : exponentPart (mark :: more) = [] := by simp [exponentPart, none]
  rw [cons_numberTail starts, behind, noExponent, List.append_nil]

end

namespace Arrives

variable {source : String} {tokens : List Token} {passed rest : List Char} {c : Char}

theorem number (arrives : Arrives source tokens passed (c :: rest))
    (starts : startsNumber c rest = true) (once : (pointedDigits (c :: rest)).count '.' < 2) :
    ∃ d, ofLiteral? (c :: numberTail rest) = some d ∧
      Arrives source (tokens ++ [⟨.number d.toFloat, byteLength passed⟩])
        (passed ++ c :: numberTail rest) (rest.drop (numberTail rest).length) := by
  obtain ⟨d, literal, scans⟩ := exists_scansTo_number starts once
  exact ⟨d, literal, arrives.token (isBlank_of_startsNumber starts) (scans.scanToken _)⟩

theorem invalidNumber_iff (arrives : Arrives source tokens passed (c :: rest))
    (starts : startsNumber c rest = true) :
    (∃ literal, scan source = .error (.invalidNumber literal (byteLength passed))) ↔
      2 ≤ (pointedDigits (c :: rest)).count '.' := by
  rw [scan_eq_scanFrom arrives.source_ne_empty]
  constructor
  · rintro ⟨literal, failed⟩
    by_contra fewer
    obtain ⟨d, -, next⟩ := arrives.number starts (by omega)
    have later := next.le_of_invalidNumber failed
    have pos := byteLength_pos (List.cons_ne_nil c (numberTail rest))
    rw [byteLength_append] at later
    omega
  · intro twice
    have refused := scanToken_of_two_points starts twice (byteLength passed)
    exact ⟨_, scanFrom_eq_error_iff.mpr ⟨tokens, passed, c, rest, arrives,
      isBlank_of_startsNumber starts, refused⟩⟩

end Arrives

theorem startsName_of_isExponentMark {mark : Char} (isMark : mark = 'e' ∨ mark = 'E') :
    startsName mark = true := by
  rcases isMark with rfl | rfl <;> decide

/-- A number is as long as it can be. With two points or more among its digits it is refused;
otherwise it is the longest start of what is left that is a literal, and the scan goes on right
behind it. A mark that no digits of an exponent follow is not part of it, and wherever a mark stands
behind a number, the next token begins there. -/
theorem scan_takes_longest_number {source : String} {tokens : List Token} {passed rest : List Char}
    {c : Char} (arrives : Arrives source tokens passed (c :: rest))
    (starts : startsNumber c rest = true) :
    let row := pointedDigits (c :: rest)
    ((∃ literal, scan source = .error (.invalidNumber literal (byteLength passed))) ↔
        2 ≤ row.count '.') ∧
      (row.count '.' < 2 → ∃ lexeme after d, c :: rest = lexeme ++ after ∧
        IsLongestStart IsLiteral (c :: rest) lexeme ∧ ofLiteral? lexeme = some d ∧
        let found := tokens ++ [⟨.number d.toFloat, byteLength passed⟩]
        Arrives source found (passed ++ lexeme) after ∧
        (∀ all, scan source = .ok all → found <+: all) ∧
        (∀ mark more, c :: rest = row ++ mark :: more → mark = 'e' ∨ mark = 'E' →
          (∀ digits, IsSigned digits → ¬ digits <+: more) → after = mark :: more) ∧
        ∀ mark more, after = mark :: more → mark = 'e' ∨ mark = 'E' →
          let word := more.takeWhile continuesName
          Arrives source
            (found ++ [⟨.ofWord (String.ofList (mark :: word)), byteLength (passed ++ lexeme)⟩])
            (passed ++ lexeme ++ mark :: word) (more.drop word.length)) := by
  intro row
  refine ⟨arrives.invalidNumber_iff starts, ?_⟩
  intro once
  obtain ⟨d, literal, next⟩ := arrives.number starts once
  have taken : c :: rest = c :: numberTail rest ++ rest.drop (numberTail rest).length := by
    rw [List.cons_append, List.prefix_iff_eq_append.mp (numberTail_isPrefix rest)]
  refine ⟨c :: numberTail rest, rest.drop (numberTail rest).length, d, taken,
    isLongestStart_numberTail starts once, literal, next, fun all => next.isPrefix_of_scan, ?_, ?_⟩
  · intro mark more heq _ unsigned
    rw [cons_numberTail_of_not_isSigned starts heq unsigned] at taken
    exact List.append_cancel_left (taken.symm.trans heq)
  · intro mark more behind isMark
    rw [behind] at next
    exact next.word (startsName_of_isExponentMark isMark)

/-- Two numbers that touch, since the exponent of the first one ends at the point of the second, and
a mark behind them with a sign but no digit. A number with two points is refused, although it would
be a literal without the first of them. -/
theorem scan_takes_longest_number_touching :
    let source := "2e5.5E+x"
    let rest := ['5', 'E', '+', 'x']
    Arrives source [⟨.number 200000, 0⟩] ['2', 'e', '5'] ('.' :: rest) ∧
      startsNumber '.' rest = true ∧
      (¬ ∃ literal, scan source = .error (.invalidNumber literal 3)) ∧
      Arrives source [⟨.number 200000, 0⟩, ⟨.number 0.5, 3⟩, ⟨.ofWord "E", 5⟩]
        ['2', 'e', '5', '.', '5', 'E'] ['+', 'x'] ∧
      ∃ literal, scan "1..2e3" = .error (.invalidNumber literal 0) := by
  intro source rest
  have begins : Arrives source [] [] source.toList := .start
  have letters : source.toList = '2' :: 'e' :: '5' :: '.' :: rest := by decide
  rw [letters] at begins
  have first : scanToken (byteLength []) '2' ('e' :: '5' :: '.' :: rest) =
      .ok (.number 200000, ['e', '5']) := by decide +kernel
  have arrives : Arrives source [⟨.number 200000, 0⟩] ['2', 'e', '5'] ('.' :: rest) :=
    begins.token (by decide) first
  have unsigned : ∀ digits, IsSigned digits → ¬ digits <+: ['+', 'x'] := by
    intro digits signed start
    exact signed.ne_nil (List.prefix_nil.mp (signed.isPrefix_signedDigits start))
  obtain ⟨refused, taken⟩ := scan_takes_longest_number arrives rfl
  obtain ⟨lexeme, after, d, parts, -, value, -, -, ends, goes⟩ := taken (by decide)
  obtain rfl := ends 'E' ['+', 'x'] rfl (.inr rfl) unsigned
  have short : ['.', '5'] ++ ['E', '+', 'x'] = lexeme ++ ['E', '+', 'x'] := parts
  obtain rfl := List.append_cancel_right short
  obtain rfl : ⟨5, -1⟩ = d := Option.some.inj value
  have half : (⟨5, -1⟩ : Decimal).toFloat = 0.5 := by decide +kernel
  have next := goes 'E' ['+', 'x'] rfl (.inr rfl)
  rw [half] at next
  have pointed : Arrives "1..2e3" [] [] "1..2e3".toList := .start
  have twice := (scan_takes_longest_number pointed rfl).1.mpr (by decide)
  exact ⟨arrives, rfl, mt refused.mp (by decide), next, twice⟩

end Formula
