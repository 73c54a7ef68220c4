import Formula.Decimal.Shortest
import Formula.Proofs.Token.Literal
import Formula.Width

/-!
How numbers are written: digits with at most a point among them, and a sign before those of a
negative number.
-/

set_option autoImplicit false

namespace Formula

/-- That a text is written by position: digits, and behind them nothing or a point with digits. -/
def IsPositional (cs : List Char) : Prop :=
  ∃ whole fraction, whole ≠ [] ∧ (∀ x ∈ whole, x.isDigit = true) ∧
    (∀ x ∈ fraction, x.isDigit = true) ∧ (cs = whole ∨ cs = whole ++ '.' :: fraction)

theorem isNumeral_append {digits rest : List Char} (some : digits ≠ [])
    (all : ∀ x ∈ digits, x.isDigit = true) (plain : ∀ x ∈ rest, x.isDigit || x == '.') :
    IsNumeral (digits ++ rest) := by
  obtain ⟨c, tail, rfl⟩ := List.exists_cons_of_ne_nil some
  refine ⟨c, tail ++ rest, rfl, all c List.mem_cons_self, ?_⟩
  intro x member
  rcases List.mem_append.mp member with member | member
  · rw [all x (List.mem_cons_of_mem c member), Bool.true_or]
  · exact plain x member

theorem IsPositional.isNumeral {cs : List Char} (positional : IsPositional cs) : IsNumeral cs := by
  obtain ⟨whole, fraction, some, digits, digits', rfl | rfl⟩ := positional
  · rw [← List.append_nil cs]
    exact isNumeral_append some digits nofun
  · refine isNumeral_append some digits ?_
    intro x member
    rcases List.mem_cons.mp member with rfl | member
    · decide
    · rw [digits' x member, Bool.true_or]

/-- What is written by position can be read. -/
theorem IsPositional.exists_ofLiteral? {cs : List Char} (positional : IsPositional cs) :
    ∃ d, Decimal.ofLiteral? cs = some d := by
  rw [Decimal.exists_ofLiteral?_iff]
  obtain ⟨whole, fraction, some, digits, digits', rfl | rfl⟩ := positional
  · exact .plain (.whole ⟨some, digits⟩)
  · exact .plain (.pointBehind ⟨some, digits⟩ digits')

theorem Decimal.isPositional_positional (d : Decimal) : IsPositional d.positional := by
  have digits : ∀ x ∈ Nat.toDigits 10 d.digits, x.isDigit = true := by
    intro x member
    exact Nat.isDigit_of_mem_toDigits (by decide) (by decide) member
  have padded {n : Nat} {row : List Char} (all : ∀ x ∈ row, x.isDigit = true) :
      ∀ x ∈ List.replicate n '0' ++ row, x.isDigit = true := by
    intro x member
    rcases List.mem_append.mp member with member | member
    · rw [List.eq_of_mem_replicate member]
      decide
    · exact all x member
  simp only [positional]
  split_ifs with whole mixed
  · refine ⟨_, [], ?_, ?_, nofun, .inl rfl⟩
    · exact List.append_ne_nil_of_left_ne_nil Nat.toDigits_ne_nil _
    · intro x member
      rcases List.mem_append.mp member with member | member
      · exact digits x member
      · rw [List.eq_of_mem_replicate member]
        decide
  · refine ⟨_, _, ?_, fun x member => digits x (List.mem_of_mem_take member),
      fun x member => digits x (List.mem_of_mem_drop member), .inr rfl⟩
    rw [ne_eq, List.take_eq_nil_iff, not_or]
    exact ⟨by omega, Nat.toDigits_ne_nil⟩
  · exact ⟨['0'], _, List.cons_ne_nil '0' [], List.all_eq_true.mp (by decide), padded digits,
      .inr rfl⟩

/-- That the digits with which a number is written stand for it, if the number is finite. -/
def ReadsBack (c : Float) : Prop :=
  ∀ n s e, Binary.ofFloat c = .finite n s e → ∃ numeral d, Decimal.ofLiteral? numeral = some d ∧
    ((Width.text c).toList = numeral ∧ d.toFloat = c ∨
      (Width.text c).toList = '-' :: numeral ∧ -d.toFloat = c)

theorem ofLiteral?_minus (cs : List Char) : Decimal.ofLiteral? ('-' :: cs) = none := by
  simp [Decimal.ofLiteral?, Decimal.isExponentMark, Char.isDigit]

/-- A finite number is written by position, behind a sign if it is negative. -/
theorem exists_text_eq_positional {c : Float} {negative : Bool} {significand : Nat} {exponent : Int}
    (finite : Binary.ofFloat c = .finite negative significand exponent) :
    ∃ row, IsPositional row ∧ (Width.text c).toList = if negative then '-' :: row else row := by
  change ∃ row, IsPositional row ∧ ((Binary.ofFloat c).text .binary64).toList = _
  rw [finite]
  simp only [Binary.Value.text, String.toList_ofList]
  refine ⟨_, ?_, rfl⟩
  split
  · exact ⟨['0'], [], List.cons_ne_nil '0' [], List.all_eq_true.mp (by decide), nofun, .inl rfl⟩
  · exact Decimal.isPositional_positional _

theorem ReadsBack.exists_numeral {c : Float} (reads : ReadsBack c) {negative : Bool}
    {significand : Nat} {exponent : Int}
    (finite : Binary.ofFloat c = .finite negative significand exponent) :
    ∃ numeral d, IsNumeral numeral ∧ Decimal.ofLiteral? numeral = some d ∧
      (Width.text c).toList = (if negative then '-' :: numeral else numeral) ∧
      (if negative then -d.toFloat else d.toFloat) = c := by
  obtain ⟨row, isPositional, htext⟩ := exists_text_eq_positional finite
  have isNumeral := isPositional.isNumeral
  obtain ⟨numeral, d, literal, ⟨hplain, value⟩ | ⟨hminus, value⟩⟩ := reads _ _ _ finite
  · cases negative with
    | true =>
        rw [← hplain, htext, if_pos rfl, ofLiteral?_minus] at literal
        contradiction
    | false =>
        obtain rfl : numeral = row := hplain.symm.trans htext
        exact ⟨numeral, d, isNumeral, literal, htext, value⟩
  · cases negative with
    | true =>
        obtain rfl : numeral = row := (List.cons.inj (hminus.symm.trans htext)).2
        exact ⟨numeral, d, isNumeral, literal, htext, value⟩
    | false =>
        obtain ⟨first, tail, rfl, digit, -⟩ := isNumeral
        rw [← (List.cons.inj (hminus.symm.trans htext)).1] at digit
        contradiction

end Formula
