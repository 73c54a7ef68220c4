import Formula.Proofs.Token.Scan

/-!
How much of a text a token takes: a start of it without blanks, and never more than it needs to be
the same token when it stands alone.
-/

set_option autoImplicit false

namespace Formula

theorem signedDigits_isPrefix (cs : List Char) : signedDigits cs <+: cs := by
  cases cs with
  | nil => exact List.prefix_refl _
  | cons sign rest =>
      rw [signedDigits]
      split
      · exact (List.prefix_cons_inj sign).mpr (List.takeWhile_prefix _)
      · exact List.takeWhile_prefix _

theorem exponentPart_isPrefix (cs : List Char) : exponentPart cs <+: cs := by
  cases cs with
  | nil => exact List.prefix_refl _
  | cons mark rest =>
      rw [exponentPart]
      split
      · exact (List.prefix_cons_inj mark).mpr (signedDigits_isPrefix rest)
      · exact List.nil_prefix

theorem numberTail_isPrefix (cs : List Char) : numberTail cs <+: cs := by
  let mantissa := cs.takeWhile fun c => c.isDigit || c == '.'
  have taken : mantissa ++ cs.drop mantissa.length = cs :=
    List.prefix_iff_eq_append.mp (List.takeWhile_prefix _)
  have parts := (List.prefix_append_right_inj mantissa).mpr
    (exponentPart_isPrefix (cs.drop mantissa.length))
  rwa [taken] at parts

theorem head?_any_takeWhile (p : Char → Bool) (cs : List Char) :
    (cs.takeWhile p).head?.any p = cs.head?.any p := by
  cases cs with
  | nil => rfl
  | cons c rest => cases hc : p c <;> simp [hc]

/-- A digit is no sign, so that nothing but digits is taken from there on. -/
theorem signedDigits_cons_of_isDigit {c : Char} (digit : c.isDigit = true) (rest : List Char) :
    signedDigits (c :: rest) = (c :: rest).takeWhile Char.isDigit := by
  have notSign : (c == '+' || c == '-') = false := by
    rw [Bool.eq_false_iff, ne_eq, isSign_iff]
    rintro (rfl | rfl) <;> contradiction
  rw [signedDigits, notSign, Bool.false_and, if_neg (by decide)]

theorem signedDigits_of_isDigit {cs : List Char} (digits : ∀ x ∈ cs, x.isDigit = true) :
    signedDigits cs = cs := by
  cases cs with
  | nil => rfl
  | cons c rest =>
      rw [signedDigits_cons_of_isDigit (digits c List.mem_cons_self),
        List.takeWhile_eq_self_iff.mpr digits]

theorem signedDigits_signedDigits (cs : List Char) :
    signedDigits (signedDigits cs) = signedDigits cs := by
  cases cs with
  | nil => rfl
  | cons sign rest =>
      rw [signedDigits]
      split
      · rename_i signed
        rw [signedDigits, head?_any_takeWhile, if_pos signed, List.takeWhile_idem]
      · exact signedDigits_of_isDigit fun _ member => List.mem_takeWhile_imp member

theorem exponentPart_exponentPart (cs : List Char) :
    exponentPart (exponentPart cs) = exponentPart cs := by
  cases cs with
  | nil => rfl
  | cons mark rest =>
      rw [exponentPart]
      split
      · rename_i marked
        rw [exponentPart, signedDigits_signedDigits, if_pos marked]
      · rfl

/-- An exponent is no part of the digits and points before it. -/
theorem exponentPart_stops {cs : List Char} (c : Char) (after : List Char)
    (heq : exponentPart cs = c :: after) : (c.isDigit || c == '.') = false := by
  cases cs with
  | nil => contradiction
  | cons mark rest =>
      rw [exponentPart] at heq
      split at heq
      · rename_i marked
        obtain ⟨rfl, -⟩ := List.cons.inj heq
        obtain ⟨isMark, -⟩ := (Bool.and_eq_true _ _).mp marked
        rcases Decimal.isExponentMark_iff.mp isMark with rfl | rfl <;> decide
      · contradiction

theorem numberTail_numberTail (cs : List Char) : numberTail (numberTail cs) = numberTail cs := by
  let plain (c : Char) : Bool := c.isDigit || c == '.'
  have all : ∀ x ∈ cs.takeWhile plain, plain x := fun x member => List.mem_takeWhile_imp member
  have mantissa : (numberTail cs).takeWhile plain = cs.takeWhile plain :=
    takeWhile_append_of_stops all exponentPart_stops
  calc numberTail (numberTail cs)
      = cs.takeWhile plain ++ exponentPart ((numberTail cs).drop (cs.takeWhile plain).length) := by
        rw [← mantissa]
        rfl
    _ = numberTail cs := by
        rw [numberTail, List.drop_left, exponentPart_exponentPart]

section

variable {c : Char}

theorem isBlank_of_isSign (sign : (c == '+' || c == '-') = true) : Text.isBlank c = false := by
  rcases isSign_iff.mp sign with rfl | rfl <;> decide

theorem isBlank_of_isExponentMark (mark : Decimal.isExponentMark c = true) :
    Text.isBlank c = false := by
  rcases Decimal.isExponentMark_iff.mp mark with rfl | rfl <;> decide

theorem isBlank_of_isDigit_or_point (plain : (c.isDigit || c == '.') = true) :
    Text.isBlank c = false := by
  rcases (Bool.or_eq_true _ _).mp plain with digit | point
  · exact isBlank_of_isDigit digit
  · rw [beq_iff_eq.mp point]
    decide

theorem isBlank_of_continuesName (continues : continuesName c = true) :
    Text.isBlank c = false := by
  rcases (Bool.or_eq_true _ _).mp continues with starts | digit
  · exact isBlank_of_startsName starts
  · exact isBlank_of_isDigit digit

variable {cs : List Char}

theorem isBlank_of_mem_signedDigits (member : c ∈ signedDigits cs) : Text.isBlank c = false := by
  cases cs with
  | nil => contradiction
  | cons sign rest =>
      rw [signedDigits] at member
      split at member
      · rename_i signed
        rcases List.mem_cons.mp member with rfl | member
        · exact isBlank_of_isSign ((Bool.and_eq_true _ _).mp signed).1
        · exact isBlank_of_isDigit (List.mem_takeWhile_imp member)
      · exact isBlank_of_isDigit (List.mem_takeWhile_imp member)

theorem isBlank_of_mem_exponentPart (member : c ∈ exponentPart cs) : Text.isBlank c = false := by
  cases cs with
  | nil => contradiction
  | cons mark rest =>
      rw [exponentPart] at member
      split at member
      · rename_i marked
        rcases List.mem_cons.mp member with rfl | member
        · exact isBlank_of_isExponentMark ((Bool.and_eq_true _ _).mp marked).1
        · exact isBlank_of_mem_signedDigits member
      · contradiction

theorem isBlank_of_mem_numberTail (member : c ∈ numberTail cs) : Text.isBlank c = false := by
  rcases List.mem_append.mp member with member | member
  · exact isBlank_of_isDigit_or_point
      (List.mem_takeWhile_imp (p := fun c => c.isDigit || c == '.') member)
  · exact isBlank_of_mem_exponentPart member

end

theorem startsNumber_numberTail (c : Char) (rest : List Char) :
    startsNumber c (numberTail rest) = startsNumber c rest := by
  have head : (numberTail rest).head?.any Char.isDigit = rest.head?.any Char.isDigit := by
    cases rest with
    | nil => rfl
    | cons x rest =>
        cases digit : x.isDigit with
        | true => simp [numberTail, digit]
        | false =>
            have start := numberTail_isPrefix (x :: rest)
            cases htail : numberTail (x :: rest) with
            | nil => simp [digit]
            | cons y tail =>
                rw [htail] at start
                obtain ⟨rfl, -⟩ := List.cons_prefix_cons.mp start
                rfl
  rw [startsNumber, startsNumber, head]

namespace ScansTo

variable {c : Char} {rest tail : List Char} {kind : TokenKind}

/-- What a token takes is the start of what is there. -/
theorem isPrefix (scans : ScansTo c rest kind tail) : tail <+: rest := by
  cases scans with
  | operator | left | right => exact List.nil_prefix
  | number => exact numberTail_isPrefix rest
  | word => exact List.takeWhile_prefix _

theorem append_drop (scans : ScansTo c rest kind tail) : tail ++ rest.drop tail.length = rest :=
  List.prefix_iff_eq_append.mp scans.isPrefix

theorem isBlank_of_mem (scans : ScansTo c rest kind tail) {x : Char} (member : x ∈ tail) :
    Text.isBlank x = false := by
  cases scans with
  | operator | left | right => contradiction
  | number => exact isBlank_of_mem_numberTail member
  | word => exact isBlank_of_continuesName (List.mem_takeWhile_imp member)

/-- A token does not depend on what stands behind it. -/
theorem alone (scans : ScansTo c rest kind tail) : ScansTo c tail kind tail := by
  cases scans with
  | operator symbol => exact .operator symbol
  | left left => exact .left left
  | right right => exact .right right
  | number starts literal =>
      have same := numberTail_numberTail rest
      have scans := ScansTo.number ((startsNumber_numberTail c rest).trans starts)
        (by rw [same]; exact literal)
      rwa [same] at scans
  | word starts =>
      have scans : ScansTo c (rest.takeWhile continuesName) _ _ := .word starts
      rwa [List.takeWhile_idem] at scans

end ScansTo

end Formula
