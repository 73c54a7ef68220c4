import Formula.Proofs.Equation.WellFormed

/-!
Reading again what has been written out. The text of an equation has more parentheses than the text
that was read, and the limit of nesting is the same for both. So a text can be accepted while the
text of its equation is not; nothing else can be wrong with it.
-/

set_option autoImplicit false

namespace Formula

namespace Expr

/-- The text of an expression is read again exactly if it is not nested too deep, and this is all
that can be wrong with it. -/
theorem read_text_answers {e : Expr Float}
    (names : ∀ name ∈ e.names, scan name = .ok [⟨.name name, 0⟩]) :
    (∃ again v, read e.text = .ok (again, v)) ∧
        e.term.height ≤ maxNesting ∧ e.nesting ≤ maxNesting ∨
      (∃ position, read e.text = .error (.parse (.nestingTooDeep maxNesting position))) ∧
        (maxNesting < e.term.height ∨ maxNesting < e.nesting) := by
  obtain ⟨kinds, term, spells⟩ := exists_spells names
  obtain ⟨tokens, scanned, hkinds⟩ := spells.scan_text
  have derives := spells.derives head_nil
  rw [List.append_nil, ← hkinds] at derives
  unfold read
  rw [scanned, ← spells.height_eq]
  rcases Term.ofTokens_answers (derives.loosen (Nat.zero_le 4)) with
    ⟨⟨found, ok⟩, low⟩ | ⟨⟨position, deep⟩, high⟩
  · obtain ⟨again, bound⟩ := exists_ofTerm fun name => (mem_finalize ok).mpr
    refine .inl ⟨⟨again, found.finalize, ?_⟩, low⟩
    simp only [ok, bound]
  · refine .inr ⟨⟨position, ?_⟩, high⟩
    simp only [deep]

/-- An expression behind a number of signs. -/
def signed (signs : Nat) (e : Expr Float) : Expr Float := neg^[signs] e

theorem signed_succ (n : Nat) (e : Expr Float) : signed (n + 1) e = neg (signed n e) :=
  Function.iterate_succ_apply' neg n e

theorem not_isConst_signed (n : Nat) (name : String) (slot : Nat) :
    ¬ (signed n (var name slot)).isConst := by
  cases n with
  | zero => nofun
  | succ n =>
      rw [signed_succ]
      nofun

theorem nesting_signed (n : Nat) (name : String) (slot : Nat) :
    (signed n (var name slot)).nesting = 2 * n := by
  induction n with
  | zero => rfl
  | succ n ih =>
      rw [signed_succ, nesting, ih]
      rfl

theorem height_signed (n : Nat) (name : String) (slot : Nat) :
    (signed n (var name slot)).term.height = n + 1 := by
  induction n with
  | zero => rfl
  | succ n ih => rw [signed_succ, term, Term.height, ih]

theorem names_signed (n : Nat) (name : String) (slot : Nat) :
    (signed n (var name slot)).term.names = [name] := by
  induction n with
  | zero => rfl
  | succ n ih => rw [signed_succ, term, Term.names, ih]

/-- A text of signs before an `x`. -/
def signsText (n : Nat) : String := String.ofList (List.replicate n '-' ++ ['x'])

theorem scans_signs (n : Nat) :
    Scans (List.replicate n '-' ++ ['x'])
      (List.replicate n (.operator .sub) ++ [.name "x"]) := by
  induction n with
  | zero =>
      have word : TokenKind.ofWord (String.ofList ['x']) = .name "x" := by decide
      have scans : Scans (['x'] ++ []) [.ofWord (String.ofList ['x'])] :=
        .word (by decide) nofun ends_nil .nil
      rwa [word] at scans
  | succ n ih => exact .operator .sub ih

theorem derives_signs (n : Nat) :
    Derives .unary (List.replicate n (.operator .sub) ++ [.name "x"]) []
      (signed n (var "x" 0)).term n := by
  induction n with
  | zero => exact .ofApplication (.ofPrimary (.name head_nil))
  | succ n ih =>
      rw [signed_succ]
      exact .minus ih

theorem ofTerm_signed {v : Variables} {slot : Nat} (found : v.slot? "x" = some slot) (n : Nat) :
    ofTerm v (signed n (var "x" 0)).term = .ok (signed n (var "x" slot)) := by
  induction n with
  | zero =>
      change ofTerm v (.var "x") = .ok (.var "x" slot)
      rw [ofTerm, found]
  | succ n ih =>
      rw [signed_succ, signed_succ, term, ofTerm, ih]
      exact congrArg Except.ok (foldRoot_neg (not_isConst_signed n "x" slot))

/-- Fewer signs than the limit are read. -/
theorem exists_read_signs {n : Nat} (few : n < maxNesting) :
    ∃ slot v, read (signsText n) = .ok (signed n (var "x" slot), v) := by
  have scans := scans_signs n
  rw [← String.toList_ofList (l := List.replicate n '-' ++ ['x'])] at scans
  have derives := derives_signs n
  obtain ⟨tokens, scanned, hkinds⟩ := scans.exists_tokens derives.input_ne_nil
  rw [← hkinds] at derives
  have hheight := height_signed n "x" 0
  unfold read signsText
  rw [scanned]
  rcases Term.ofTokens_answers (derives.loosen (Nat.zero_le 4)) with
    ⟨⟨found, ok⟩, -⟩ | ⟨-, high⟩
  · have member : "x" ∈ found.finalize.names := by
      rw [mem_finalize ok, names_signed]
      exact List.mem_singleton_self "x"
    obtain ⟨slot, known⟩ := Variables.exists_slot? member
    refine ⟨slot, found.finalize, ?_⟩
    simp only [ok, ofTerm_signed known]
  · omega

end Expr

namespace Session

open Equation

variable {α : Type} [Width α]

/-- A text of signs is accepted up to the limit, but the text of its equation, which has a
parenthesis behind each of them, only up to half of it. -/
theorem reread_signs {n : Nat} (few : n < maxNesting) :
    ∃ start : Equation α, (Equation.read (Expr.signsText n)).value = .ok start ∧
      ((∃ again : Equation α, (Equation.read start.text).value = .ok again) ↔
        2 * n ≤ maxNesting) := by
  obtain ⟨slot, v, ok⟩ := Expr.exists_read_signs few
  have opened : (Equation.read (Expr.signsText n) : Logged (Except _ (Equation α))).value = _ :=
    read_of_read ok
  have names : ∀ name ∈ (Expr.signed n (.var "x" slot)).names,
      scan name = .ok [⟨.name name, 0⟩] := by
    intro name member
    rw [← Expr.mem_names_term, Expr.names_signed, List.mem_singleton] at member
    rw [member]
    cbv
  have hnesting := Expr.nesting_signed n "x" slot
  refine ⟨_, opened, ?_⟩
  rcases Expr.read_text_answers names with ⟨⟨again, w, ok'⟩, low⟩ | ⟨⟨position, deep⟩, high⟩
  · exact iff_of_true ⟨_, read_of_read ok'⟩ (hnesting ▸ low.2)
  · have hheight := Expr.height_signed n "x" slot
    refine iff_of_false ?_ (by omega)
    rintro ⟨again, accepted⟩
    obtain ⟨_, _, ok', -⟩ := exists_of_read accepted
    cases ok'.symm.trans deep

/-- With 257 signs the text of the equation is refused. -/
theorem reread_signs_refused :
    ∃ start : Equation Float, (Equation.read (Expr.signsText 257)).value = .ok start ∧
      ¬ ∃ again : Equation Float, (Equation.read start.text).value = .ok again := by
  obtain ⟨start, opened, iff⟩ := @reread_signs Float _ 257 (by decide)
  exact ⟨start, opened, fun accepted => absurd (iff.mp accepted) (by decide)⟩

/-- The text of an equation that is reached from another text is read again exactly if it is not
nested too deep. -/
theorem reread_iff {source : String} {start eq : Equation α}
    (opened : (Equation.read source).value = .ok start) {asked : List (Place × Request α)}
    {s : Session α} (ran : run? [start] asked = some s) {place : Place}
    (found : s.at? place = some eq) :
    ((∃ again : Equation α, (Equation.read eq.text).value = .ok again) ↔
      eq.expr.term.height ≤ maxNesting ∧ eq.expr.nesting ≤ maxNesting) ∧
    ∀ error, (Equation.read eq.text : Logged (Except EquationError (Equation α))).value =
      .error error → ∃ position, error = .parse (.nestingTooDeep maxNesting position) := by
  obtain ⟨e, v, ok, rfl⟩ := exists_of_read opened
  have read := Expr.readFrom_of_read ok
  obtain ⟨sound, isPartial⟩ := reached_from rfl ran found
  have wellFormed := wellFormed_of_isPartialOf read sound isPartial
  have names : ∀ name ∈ eq.expr.names, scan name = .ok [⟨.name name, 0⟩] := by
    intro name member
    obtain ⟨slot, occurs⟩ := Expr.mem_names_iff.mp member
    have known := Expr.mem_names_iff.mpr ⟨slot, wellFormed.subset occurs⟩
    exact read.scan name ((read.mem_names_iff name).mpr known)
  rcases Expr.read_text_answers names with ⟨⟨again, w, ok'⟩, low⟩ | ⟨⟨position, deep⟩, high⟩
  · have accepted : (Equation.read eq.text : Logged (Except _ (Equation α))).value = _ :=
      read_of_read ok'
    refine ⟨iff_of_true ⟨_, accepted⟩ low, ?_⟩
    intro error failed
    rw [accepted] at failed
    contradiction
  · have refused : (Equation.read eq.text : Logged (Except _ (Equation α))).value = _ :=
      read_of_error deep
    refine ⟨iff_of_false ?_ (by omega), ?_⟩
    · rintro ⟨again, accepted⟩
      rw [refused] at accepted
      contradiction
    · intro error failed
      exact ⟨position, Except.error.inj (failed.symm.trans refused)⟩

/-- The first partial by `x` of a sine times a power is written out and read again. -/
theorem reread_iff_sine_power :
    let source := "sin(y) * x^z"
    let byX : Place := ⟨0, [(.first, 0)]⟩
    ∃ (start eq : Equation Float) (s : Session Float), (Equation.read source).value = .ok start ∧
      run? [start] [(⟨0, []⟩, .firstPartials)] = some s ∧ s.at? byX = some eq ∧
      ∃ again : Equation Float, (Equation.read eq.text).value = .ok again := by
  intro source byX
  let e : Expr Float :=
    .binary .mul (.call .sin (.var "y" 1)) (.binary .pow (.var "x" 0) (.var "z" 2))
  let v : Variables := ⟨["x", "y", "z"]⟩
  have ok : Expr.read source = .ok (e, v) := read_sine_power
  have opened : (Equation.read source : Logged (Except _ (Equation Float))).value = _ :=
    read_of_read ok
  have runs : ((run? [(ofParts source e v : Logged (Equation Float)).value]
      [(⟨0, []⟩, .firstPartials)]).bind (·.at? byX)).map (fun eq =>
        decide (eq.expr.term.height ≤ maxNesting ∧ eq.expr.nesting ≤ maxNesting)) = some true := by
    decide +kernel
  obtain ⟨eq, hruns, low⟩ := Option.map_eq_some_iff.mp runs
  obtain ⟨s, ran, found⟩ := Option.bind_eq_some_iff.mp hruns
  exact ⟨_, eq, s, opened, ran, found, (reread_iff opened ran found).1.mpr (of_decide_eq_true low)⟩

end Session

end Formula
