import Formula.Proofs.Token.Scan

/-!
The literals of numbers: digits with at most one point among them or at either end, and behind them
an exponent or nothing. They are the texts that are read as a decimal, and no other text is.
-/

set_option autoImplicit false

namespace Formula.Decimal

/-- That a text is one digit or more. -/
structure IsDigits (cs : List Char) : Prop where
  some : cs ≠ []
  all : ∀ x ∈ cs, x.isDigit = true

inductive IsMantissa : List Char → Prop
  | whole {whole} : IsDigits whole → IsMantissa whole
  | pointBehind {whole fraction} : IsDigits whole → (∀ x ∈ fraction, x.isDigit = true) →
      IsMantissa (whole ++ '.' :: fraction)
  | pointBefore {whole fraction} : (∀ x ∈ whole, x.isDigit = true) → IsDigits fraction →
      IsMantissa (whole ++ '.' :: fraction)

/-- What stands behind the mark of an exponent. -/
inductive IsSigned : List Char → Prop
  | plain {digits} : IsDigits digits → IsSigned digits
  | signed {sign digits} : sign = '+' ∨ sign = '-' → IsDigits digits → IsSigned (sign :: digits)

inductive IsExponent : List Char → Prop
  | mk {mark row} : mark = 'e' ∨ mark = 'E' → IsSigned row → IsExponent (mark :: row)

inductive IsLiteral : List Char → Prop
  | plain {mantissa} : IsMantissa mantissa → IsLiteral mantissa
  | scaled {mantissa exponent} : IsMantissa mantissa → IsExponent exponent →
      IsLiteral (mantissa ++ exponent)

section

variable {c : Char} {cs : List Char}

theorem not_isExponentMark_of_isDigit (digit : c.isDigit = true) : isExponentMark c = false := by
  rw [Bool.eq_false_iff]
  intro mark
  rcases isExponentMark_iff.mp mark with rfl | rfl <;> contradiction

theorem ne_point_of_isDigit (digit : c.isDigit = true) : (c != '.') = true := by
  rw [bne_iff_ne]
  rintro rfl
  contradiction

theorem isDigits_iff : IsDigits cs ↔ cs ≠ [] ∧ cs.all Char.isDigit := by
  rw [List.all_eq_true]
  constructor
  · rintro ⟨nonempty, all⟩
    exact ⟨nonempty, all⟩
  · rintro ⟨nonempty, all⟩
    exact ⟨nonempty, all⟩

/-- Among digits and points, a row of digits is what has no point and is not empty. -/
theorem isDigits_iff_count : IsDigits cs ↔
    (∀ x ∈ cs, (x.isDigit || x == '.') = true) ∧ cs.count '.' = 0 ∧ ∃ x ∈ cs, x.isDigit = true := by
  constructor
  · intro digits
    obtain ⟨d, member⟩ := List.exists_mem_of_ne_nil cs digits.some
    refine ⟨?_, ?_, d, member, digits.all d member⟩
    · intro x member
      rw [digits.all x member, Bool.true_or]
    · rw [List.count_eq_zero]
      intro point
      exact absurd (digits.all '.' point) (by decide)
  · rintro ⟨plain, noPoint, d, member, -⟩
    refine ⟨List.ne_nil_of_mem member, ?_⟩
    intro x member
    rcases (Bool.or_eq_true _ _).mp (plain x member) with digit | point
    · exact digit
    · rw [beq_iff_eq.mp point] at member
      exact absurd member (List.count_eq_zero.mp noPoint)

end

/-- A point may stand anywhere in a row of digits, also at its ends, and it may be missing. -/
theorem isMantissa_iff {cs : List Char} : IsMantissa cs ↔ IsDigits cs ∨
    ∃ whole fraction, cs = whole ++ '.' :: fraction ∧ IsDigits (whole ++ fraction) := by
  constructor
  · intro mantissa
    cases mantissa with
    | whole digits => exact .inl digits
    | pointBehind digits digits' =>
        refine .inr ⟨_, _, rfl, List.append_ne_nil_of_left_ne_nil digits.some _, ?_⟩
        exact List.forall_mem_append.mpr ⟨digits.all, digits'⟩
    | pointBefore digits digits' =>
        refine .inr ⟨_, _, rfl, List.append_ne_nil_of_right_ne_nil _ digits'.some, ?_⟩
        exact List.forall_mem_append.mpr ⟨digits, digits'.all⟩
  · rintro (digits | ⟨whole, fraction, rfl, some, digits⟩)
    · exact .whole digits
    · obtain ⟨digits, digits'⟩ := List.forall_mem_append.mp digits
      by_cases empty : whole = []
      · subst empty
        exact .pointBefore nofun ⟨some, digits'⟩
      · exact .pointBehind ⟨empty, digits⟩ digits'

theorem isDigits_append_iff {whole fraction : List Char} : IsDigits (whole ++ fraction) ↔
    (∀ x ∈ whole ++ '.' :: fraction, (x.isDigit || x == '.') = true) ∧
      (whole ++ '.' :: fraction).count '.' < 2 ∧
      ∃ x ∈ whole ++ '.' :: fraction, x.isDigit = true := by
  have moved : (whole ++ '.' :: fraction).Perm ('.' :: (whole ++ fraction)) := List.perm_middle
  simp only [isDigits_iff_count, moved.mem_iff, moved.count_eq, List.count_cons_self,
    List.forall_mem_cons, List.exists_mem_cons_iff]
  have point : ('.'.isDigit || '.' == '.') = true := by decide
  have notDigit : ¬ '.'.isDigit = true := by decide
  constructor
  · rintro ⟨plain, noPoint, digit⟩
    exact ⟨⟨point, plain⟩, by omega, .inr digit⟩
  · rintro ⟨⟨-, plain⟩, once, digit⟩
    exact ⟨plain, by omega, digit.resolve_left notDigit⟩

/-- By its characters, a mantissa has digits and points only, at most one point, and a digit. -/
theorem isMantissa_iff_count {cs : List Char} : IsMantissa cs ↔
    (∀ x ∈ cs, (x.isDigit || x == '.') = true) ∧ cs.count '.' < 2 ∧ ∃ x ∈ cs, x.isDigit = true := by
  rw [isMantissa_iff]
  constructor
  · rintro (digits | ⟨whole, fraction, rfl, digits⟩)
    · obtain ⟨plain, noPoint, digit⟩ := isDigits_iff_count.mp digits
      exact ⟨plain, by omega, digit⟩
    · exact isDigits_append_iff.mp digits
  · rintro ⟨plain, once, digit⟩
    by_cases point : '.' ∈ cs
    · obtain ⟨whole, fraction, rfl⟩ := List.append_of_mem point
      exact .inr ⟨whole, fraction, rfl, isDigits_append_iff.mpr ⟨plain, once, digit⟩⟩
    · exact .inl (isDigits_iff_count.mpr ⟨plain, List.count_eq_zero.mpr point, digit⟩)

theorem eq_false_of_dropWhile_eq_cons {p : Char → Bool} {cs rest : List Char} {c : Char}
    (heq : cs.dropWhile p = c :: rest) : p c = false := by
  have stops := List.head_dropWhile_not p (by rw [heq]; exact List.cons_ne_nil c rest)
  simpa only [heq, List.head_cons] using stops

theorem isMantissa_iff_halves {cs : List Char} : IsMantissa cs ↔
    IsDigits (cs.takeWhile (· != '.') ++ (cs.dropWhile (· != '.')).drop 1) := by
  rw [isMantissa_iff]
  constructor
  · rintro (digits | ⟨whole, fraction, rfl, digits⟩)
    · have points := fun x member => ne_point_of_isDigit (digits.all x member)
      rwa [List.takeWhile_eq_self_iff.mpr points, List.dropWhile_eq_nil_iff.mpr points,
        List.drop_nil, List.append_nil]
    · have points := fun x member =>
        ne_point_of_isDigit (digits.all x (List.mem_append_left fraction member))
      rw [List.takeWhile_append_of_pos points, List.dropWhile_append_of_pos points]
      simpa using digits
  · intro digits
    have split := List.takeWhile_append_dropWhile (p := (· != '.')) (l := cs)
    cases hdrop : cs.dropWhile (· != '.') with
    | nil =>
        rw [hdrop] at digits split
        rw [List.drop_nil, List.append_nil] at digits
        rw [List.append_nil] at split
        exact .inl (split ▸ digits)
    | cons c fraction =>
        have point := eq_false_of_dropWhile_eq_cons hdrop
        rw [bne_eq_false_iff_eq] at point
        subst point
        rw [hdrop] at digits split
        exact .inr ⟨_, fraction, split.symm, digits⟩

theorem exists_exponentOf?_iff {row : List Char} :
    (∃ e, exponentOf? row = some e) ↔ IsSigned row := by
  constructor
  · rintro ⟨e, read⟩
    unfold exponentOf? at read
    split at read <;> split_ifs at read with digits
    · exact .signed (.inl rfl) (isDigits_iff.mpr digits)
    · exact .signed (.inr rfl) (isDigits_iff.mpr digits)
    · exact .plain (isDigits_iff.mpr digits)
  · intro signed
    cases signed with
    | signed sign digits =>
        have readable := isDigits_iff.mp digits
        rcases sign with rfl | rfl
        · exact ⟨_, if_pos readable⟩
        · exact ⟨_, if_pos readable⟩
    | plain digits =>
        unfold exponentOf?
        split
        · exact absurd (digits.all '+' List.mem_cons_self) (by decide)
        · exact absurd (digits.all '-' List.mem_cons_self) (by decide)
        · exact ⟨_, if_pos (isDigits_iff.mp digits)⟩

theorem IsMantissa.not_isExponentMark {cs : List Char} (mantissa : IsMantissa cs) :
    ∀ x ∈ cs, (!isExponentMark x) = true := by
  intro x member
  obtain ⟨plain, -⟩ := isMantissa_iff_count.mp mantissa
  rcases (Bool.or_eq_true _ _).mp (plain x member) with digit | point
  · rw [not_isExponentMark_of_isDigit digit]
    rfl
  · rw [beq_iff_eq.mp point]
    decide

/-- The reader splits a text at the first mark of an exponent. -/
theorem exists_ofLiteral?_iff_split {cs : List Char} :
    (∃ d, ofLiteral? cs = some d) ↔ IsMantissa (cs.takeWhile (!isExponentMark ·)) ∧
      (cs.dropWhile (!isExponentMark ·) = [] ∨ IsExponent (cs.dropWhile (!isExponentMark ·))) := by
  simp only [ofLiteral?]
  constructor
  · rintro ⟨d, read⟩
    split_ifs at read with readable
    refine ⟨isMantissa_iff_halves.mpr (isDigits_iff.mpr readable.symm), ?_⟩
    split at read
    · rename_i hrest
      exact .inl hrest
    · rename_i mark row hrest
      obtain ⟨e, hread, -⟩ := Option.map_eq_some_iff.mp read
      have isMark := eq_false_of_dropWhile_eq_cons hrest
      rw [Bool.not_eq_false', isExponentMark_iff] at isMark
      rw [hrest]
      exact .inr (.mk isMark (exists_exponentOf?_iff.mp ⟨e, hread⟩))
  · rintro ⟨mantissa, ends⟩
    rw [if_pos (isDigits_iff.mp (isMantissa_iff_halves.mp mantissa)).symm]
    split
    · exact ⟨_, rfl⟩
    · rename_i mark row hrest
      rw [hrest] at ends
      cases ends.resolve_left (List.cons_ne_nil mark row) with
      | mk _ signed =>
          obtain ⟨e, hread⟩ := exists_exponentOf?_iff.mpr signed
          exact ⟨_, Option.map_eq_some_iff.mpr ⟨e, hread, rfl⟩⟩

/-- The literals are read as decimals, and nothing else is. -/
theorem exists_ofLiteral?_iff {cs : List Char} :
    (∃ d, ofLiteral? cs = some d) ↔ IsLiteral cs := by
  rw [exists_ofLiteral?_iff_split]
  constructor
  · rintro ⟨mantissa, ends⟩
    rw [← List.takeWhile_append_dropWhile (p := (!isExponentMark ·)) (l := cs)]
    rcases ends with empty | exponent
    · rw [empty, List.append_nil]
      exact .plain mantissa
    · exact .scaled mantissa exponent
  · intro literal
    cases literal with
    | plain mantissa =>
        have unmarked := mantissa.not_isExponentMark
        rw [List.takeWhile_eq_self_iff.mpr unmarked, List.dropWhile_eq_nil_iff.mpr unmarked]
        exact ⟨mantissa, .inl rfl⟩
    | scaled mantissa exponent =>
        have unmarked := mantissa.not_isExponentMark
        obtain ⟨isMark, signed⟩ := exponent
        have marked := isExponentMark_iff.mpr isMark
        rw [List.takeWhile_append_of_pos unmarked, List.dropWhile_append_of_pos unmarked]
        simp only [List.takeWhile_cons, List.dropWhile_cons, marked]
        simpa using ⟨mantissa, .mk isMark signed⟩

end Formula.Decimal
