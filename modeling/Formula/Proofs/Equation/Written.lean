import Formula.Proofs.Equation.Routes

/-!
Requests that are refused, and what is written where one is not. The checks come before anything is
derived or written, so that a refusal leaves behind what it found; a success overwrites the square
of the variables and nothing else, also in a grid whose rows are not equally long.
-/

set_option autoImplicit false

namespace Formula

/-- The number of columns is the length of the shortest row, and zero if there are no rows. -/
theorem Grid.columns_eq_min? {α : Type} (g : Grid α) : g.columns = g.shape.min?.getD 0 := by
  induction g with
  | nil => rfl
  | cons row rest ih =>
      cases rest with
      | nil => rfl
      | cons next rest =>
          obtain ⟨least, hleast⟩ := Option.isSome_iff_exists.mp
            (List.isSome_min?_of_ne_nil (List.cons_ne_nil next.length (rest.map List.length)))
          rw [shape, List.map_cons, hleast, Option.getD_some] at ih
          rw [columns, ih, shape, List.map_cons, List.map_cons, List.min?_cons, hleast]
          · rfl
          · exact List.cons_ne_nil _ _

theorem Grid.dimensions_eq {α : Type} (g : Grid α) :
    g.dimensions = (g.length, g.shape.min?.getD 0) := by
  rw [dimensions, columns_eq_min?]

/-- The error of a result that is none. -/
def refusal? {β : Type} : Except EquationError β → Option EquationError
  | .error e => some e
  | .ok _ => none

theorem refusal?_eq_some_iff {β : Type} {result : Except EquationError β} {e : EquationError} :
    refusal? result = some e ↔ result = .error e := by
  cases result <;> simp [refusal?]

theorem refusal?_map {β γ : Type} (f : β → γ) (result : Except EquationError β) :
    refusal? (result.map f) = refusal? result := by
  cases result <;> rfl

namespace Answer

variable {α : Type}

/-- The error with which a request is refused. -/
def error? : Answer α → Option EquationError
  | value result => refusal? result
  | row result => refusal? result
  | grid result => refusal? result
  | writtenRow written => refusal? written.outcome
  | writtenGrid written => refusal? written.outcome
  | equation result => refusal? result
  | equations _ => none

theorem equationsOf_of_error? {answer : Answer α} {e : EquationError}
    (refused : answer.error? = some e) : answer.equationsOf = [] := by
  cases answer with
  | value | row | grid | writtenRow | writtenGrid => rfl
  | equations partials => contradiction
  | equation result =>
      obtain rfl := refusal?_eq_some_iff.mp refused
      rfl

end Answer

namespace Equation

section

variable {α : Type} {eq p : Equation α}

theorem keep_kept {degree : Degree} {partials : List (Equation α)}
    (kept : eq.kept degree = some partials) : eq.keep partials degree = eq := by
  cases eq
  cases degree <;> cases kept <;> rfl

theorem modify_eq_self_of_getElem? {β : Type} {f : β → β} {l : List β} {i : Nat} {b : β}
    (found : l[i]? = some b) (same : f b = b) : l.modify i f = l := by
  apply List.ext_getElem?
  intro j
  rw [List.getElem?_modify]
  by_cases here : i = j
  · subst here
    simp [found, same]
  · simp [here]

/-- What changes nothing at a place changes nothing around it. -/
theorem modify_eq_self {f : Equation α → Equation α} {path : Path}
    (found : eq.at? path = some p) (same : f p = p) : eq.modify f path = eq := by
  induction path generalizing eq with
  | nil =>
      obtain rfl := Option.some.inj found
      exact same
  | cons step path ih =>
      obtain ⟨degree, i⟩ := step
      obtain ⟨partials, kept, rest⟩ := Option.bind_eq_some_iff.mp found
      obtain ⟨q, hq, foundIn⟩ := Option.bind_eq_some_iff.mp rest
      simp only [modify, kept]
      rw [modify_eq_self_of_getElem? hq (ih foundIn), keep_kept kept]

end

variable {α : Type} [Width α] {eq : Equation α} {point row : List α} {grid : Grid α}

theorem writeGradient_of_point (length : point.length ≠ eq.size) :
    (eq.writeGradient point row).value =
      (⟨.error (.invalidInputLength eq.size point.length), row⟩, eq) := by
  rw [writeGradient, checkPoint, if_neg length]
  rfl

theorem writeGradient_of_room (length : point.length = eq.size) (room : row.length ≠ eq.size) :
    (eq.writeGradient point row).value =
      (⟨.error (.invalidOutputLength eq.size row.length), row⟩, eq) := by
  simp only [writeGradient, checkPoint, if_pos length, if_pos room]
  rfl

theorem writeHessian_of_point (length : point.length ≠ eq.size) :
    (eq.writeHessian point grid).value =
      (⟨.error (.invalidInputLength eq.size point.length), grid⟩, eq) := by
  rw [writeHessian, checkPoint, if_neg length]
  rfl

theorem writeHessian_of_room (length : point.length = eq.size)
    (room : grid.dimensions ≠ (eq.size, eq.size)) :
    (eq.writeHessian point grid).value =
      (⟨.error (.invalidOutputShape (eq.size, eq.size) grid.dimensions), grid⟩, eq) := by
  simp only [writeHessian, checkPoint, if_pos length, if_pos room]
  rfl

theorem writeGradient_refused {e : EquationError}
    (refused : (eq.writeGradient point row).value.1.outcome = .error e) :
    (eq.writeGradient point row).value.2 = eq := by
  by_cases length : point.length = eq.size
  · by_cases room : row.length = eq.size
    · simp [writeGradient, checkPoint, length, room] at refused
    · rw [writeGradient_of_room length room]
  · rw [writeGradient_of_point length]

theorem writeHessian_refused {e : EquationError}
    (refused : (eq.writeHessian point grid).value.1.outcome = .error e) :
    (eq.writeHessian point grid).value.2 = eq := by
  by_cases length : point.length = eq.size
  · by_cases room : grid.dimensions = (eq.size, eq.size)
    · simp [writeHessian, checkPoint, length, room] at refused
    · rw [writeHessian_of_room length room]
  · rw [writeHessian_of_point length]

theorem Sound.partialByName_refused (sound : eq.Sound) {name : String} {e : EquationError}
    (refused : (eq.partialByName name).value.1 = .error e) :
    (eq.partialByName name).value.2 = eq := by
  cases found : eq.vars.slot? name with
  | none =>
      simp only [partialByName, found]
      rfl
  | some slot =>
      have answer := sound.partialByName_value name
      rw [found, refused] at answer
      contradiction

theorem Sound.secondPartial_refused (sound : eq.Sound) {r c : Nat} {e : EquationError}
    (refused : (eq.secondPartial r c).value.1 = .error e) :
    (eq.secondPartial r c).value.2 = eq := by
  have answer := sound.secondPartial_value r c
  rw [refused] at answer
  cases hrow : eq.checkSlot r with
  | error =>
      simp only [secondPartial, hrow]
      rfl
  | ok =>
      cases hcolumn : eq.checkSlot c with
      | error =>
          simp only [secondPartial, hrow, hcolumn]
          rfl
      | ok =>
          rw [hrow, hcolumn] at answer
          contradiction

/-- An equation that refuses a request is what it was before. -/
theorem Sound.ask_refused (sound : eq.Sound) {request : Request α} {e : EquationError}
    (refused : (eq.ask request).1.error? = some e) : (eq.ask request).2 = eq := by
  cases request with
  -- These keep nothing, whether they are refused or not.
  | evaluate | partialBy | deriveBy | copy => rfl
  | firstPartials | secondPartials => contradiction
  | partialByName name => exact sound.partialByName_refused (refusal?_eq_some_iff.mp refused)
  | secondPartial r c => exact sound.secondPartial_refused (refusal?_eq_some_iff.mp refused)
  | gradient point =>
      have outcome := (refusal?_map _ _).symm.trans refused
      exact writeGradient_refused (refusal?_eq_some_iff.mp outcome)
  | hessian point =>
      have outcome := (refusal?_map _ _).symm.trans refused
      exact writeHessian_refused (refusal?_eq_some_iff.mp outcome)
  | writeGradient point row => exact writeGradient_refused (refusal?_eq_some_iff.mp refused)
  | writeHessian point grid => exact writeHessian_refused (refusal?_eq_some_iff.mp refused)

/-- What becomes of a row that the gradient at a point is to be written into. -/
structure WritesGradient (eq : Equation α) (point row : List α) : Prop where
  point_refused : point.length ≠ eq.size → (eq.writeGradient point row).value =
    (⟨.error (.invalidInputLength eq.size point.length), row⟩, eq)
  row_refused : point.length = eq.size → row.length ≠ eq.size → (eq.writeGradient point row).value =
    (⟨.error (.invalidOutputLength eq.size row.length), row⟩, eq)
  written : point.length = eq.size → row.length = eq.size → ∃ row',
    (eq.writeGradient point row).value.1 = ⟨.ok (), row'⟩ ∧
    Row.writeFrom? 0 (eq.firstPartials.value.1.map (·.compiled.call point)) row = some row' ∧
    row'.length = row.length ∧
    ∀ i < eq.size, ∃ v, row'[i]? = some v ∧
      (eq.partialBy i).value.bind (·.evaluate point) = .ok v

/-- What becomes of a grid that the Hessian at a point is to be written into. Its columns are
counted by its shortest row. -/
structure WritesHessian (eq : Equation α) (point : List α) (grid : Grid α) : Prop where
  point_refused : point.length ≠ eq.size → (eq.writeHessian point grid).value =
    (⟨.error (.invalidInputLength eq.size point.length), grid⟩, eq)
  grid_refused : point.length = eq.size → (grid.length, grid.shape.min?.getD 0) ≠ (eq.size, eq.size) →
    (eq.writeHessian point grid).value =
      (⟨.error (.invalidOutputShape (eq.size, eq.size) (grid.length, grid.shape.min?.getD 0)),
        grid⟩, eq)
  written : point.length = eq.size → (grid.length, grid.shape.min?.getD 0) = (eq.size, eq.size) →
    ∃ grid', (eq.writeHessian point grid).value.1 = ⟨.ok (), grid'⟩ ∧
      Grid.writeAll? ((upperTriangle eq.size).zip
        (eq.secondPartials.value.1.map (·.compiled.call point))) grid = some grid' ∧
      grid'.shape = grid.shape ∧
      (∀ r < eq.size, ∀ c < eq.size, ∃ v, grid'.at? r c = some v ∧
        (eq.secondPartial r c).value.1.bind (·.evaluate point) = .ok v) ∧
      ∀ r c, ¬(r < eq.size ∧ c < eq.size) → grid'.at? r c = grid.at? r c

theorem Sound.writesGradient (sound : eq.Sound) (point row : List α) :
    eq.WritesGradient point row where
  point_refused := writeGradient_of_point
  row_refused := writeGradient_of_room
  written length room := by
    refine ⟨_, sound.writeGradient_ok length room, sound.writeFrom?_ok point room, ?_, ?_⟩
    · rw [List.length_map, List.length_range, room]
    · intro i hi
      refine ⟨_, ?_, sound.partialBy_evaluate length hi⟩
      rw [List.getElem?_map, List.getElem?_range hi, Option.map_some]

theorem Sound.writesHessian (sound : eq.Sound) (point : List α) (grid : Grid α) :
    eq.WritesHessian point grid where
  point_refused := writeHessian_of_point
  grid_refused length room := by
    rw [← Grid.dimensions_eq] at room ⊢
    exact writeHessian_of_room length room
  written length room := by
    rw [← Grid.dimensions_eq] at room
    obtain ⟨grid', written, hshape, hentry⟩ := sound.writeAll?_ok point room
    refine ⟨grid', sound.writeHessian_of_writeAll? length room written, written, hshape, ?_, ?_⟩
    · intro r hr c hc
      exact ⟨_, (hentry r c).trans (if_pos ⟨hr, hc⟩), sound.secondPartial_evaluate length hr hc⟩
    · intro r c outside
      exact (hentry r c).trans (if_neg outside)

end Equation

namespace Session

open Equation

variable {α : Type} [Width α] {start s s' : Session α}

/-- A request that is refused leaves all that is held as it is. -/
theorem Sound.ask?_refused (sound : Sound start s) {place : Place} {request : Request α}
    {answer : Answer α} {e : EquationError} (asked : s.ask? place request = some (answer, s'))
    (refused : answer.error? = some e) : s' = s := by
  obtain ⟨eq, found, result⟩ := Option.bind_eq_some_iff.mp asked
  obtain ⟨rfl, rfl⟩ := Prod.ext_iff.mp (Option.some.inj result)
  obtain ⟨held, hheld, foundIn⟩ := Option.bind_eq_some_iff.mp found
  have same : held.modify (fun p => (p.ask request).2) place.path = held :=
    modify_eq_self foundIn ((sound.at? found).1.ask_refused refused)
  dsimp only
  rw [Answer.equationsOf_of_error? refused, List.append_nil,
    modify_eq_self_of_getElem? hheld same]

/-- Whatever an equation keeps, a request that it refuses changes nothing, and a write into a buffer
either is refused by the lengths, before anything is derived, or overwrites exactly the entries of
the variables. -/
theorem writes_whole_or_nothing {asked : List (Place × Request α)}
    (fresh : ∀ eq ∈ start, eq = eq.afresh) (ran : start.run? asked = some s) {place : Place}
    {eq : Equation α} (found : s.at? place = some eq) :
    (∀ request answer s' e, s.ask? place request = some (answer, s') → answer.error? = some e →
      s' = s) ∧
    (∀ point row, eq.WritesGradient point row) ∧
    ∀ point grid, eq.WritesHessian point grid := by
  obtain ⟨sound, -⟩ := (sound_start fresh).run? ran
  obtain ⟨eqSound, -⟩ := sound.at? found
  exact ⟨fun _ _ _ _ => sound.ask?_refused, eqSound.writesGradient, eqSound.writesHessian⟩

/-- Of a product the first partials are kept, then its Hessian is to be written into grids with a
row too short and with a row longer than needed, and a derivative by an unknown name is asked for. -/
theorem writes_whole_or_nothing_ragged :
    let start : Session Float :=
      [(ofParts "x*y" (.binary .mul (.var "x" 0) (.var "y" 1)) ⟨["x", "y"]⟩).value]
    let here : Place := ⟨0, []⟩
    (∀ eq ∈ start, eq = eq.afresh) ∧
      ∃ s eq, start.run? [(here, .firstPartials)] = some s ∧ s.at? here = some eq ∧
        (∃ answer, s.ask? here (.partialByName "w") = some (answer, s) ∧
          answer.error? = some (.derivativeNotFound "w")) ∧
        (eq.writeHessian [2, 3] [[9], [9, 9]]).value =
          (⟨.error (.invalidOutputShape (2, 2) (2, 1)), [[9], [9, 9]]⟩, eq) ∧
        ∃ grid, (eq.writeHessian [2, 3] [[9, 9, 9], [9, 9]]).value.1 = ⟨.ok (), grid⟩ ∧
          grid.shape = [3, 2] ∧ grid.at? 0 2 = some 9 ∧
          ∃ v, grid.at? 1 0 = some v ∧
            (eq.secondPartial 1 0).value.1.bind (·.evaluate [2, 3]) = .ok v := by
  intro start here
  have fresh : ∀ eq ∈ start, eq = eq.afresh := by
    intro eq member
    rw [List.mem_singleton.mp member]
    rfl
  have runs : ((start.run? [(here, .firstPartials)]).bind (·.at? here)).map (·.vars) =
      some ⟨["x", "y"]⟩ := by
    rfl
  obtain ⟨eq, hruns, hvars⟩ := Option.map_eq_some_iff.mp runs
  obtain ⟨s, ran, found⟩ := Option.bind_eq_some_iff.mp hruns
  have hsize : eq.size = 2 := by
    rw [Equation.size, hvars]
    rfl
  have length : ([2, 3] : List Float).length = eq.size := hsize.symm
  obtain ⟨refusals, -, writes⟩ := writes_whole_or_nothing fresh ran found
  have refused : (eq.ask (.partialByName "w")).1.error? = some (.derivativeNotFound "w") := by
    simp only [ask, partialByName, hvars]
    rfl
  have asked : s.ask? here (.partialByName "w") = some ((eq.ask (.partialByName "w")).1, _) :=
    Option.bind_eq_some_iff.mpr ⟨eq, found, rfl⟩
  refine ⟨fresh, s, eq, ran, found, ⟨_, ?_, refused⟩, ?_, ?_⟩
  · rw [asked, refusals _ _ _ _ asked refused]
  · have room := (writes [2, 3] [[9], [9, 9]]).grid_refused length
    rw [hsize] at room
    exact room (by decide)
  · obtain ⟨grid, written, -, shape, entries, others⟩ :=
      (writes [2, 3] [[9, 9, 9], [9, 9]]).written length (by rw [hsize]; rfl)
    rw [hsize] at entries others
    exact ⟨grid, written, shape, others 0 2 (by omega), entries 1 (by omega) 0 (by omega)⟩

end Session

end Formula
