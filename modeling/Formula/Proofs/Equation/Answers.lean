import Formula.Proofs.Equation.Kept
import Formula.Proofs.Equation.Triangle
import Formula.Proofs.Variables

/-!
The answers of an equation, told by its expression and its variables alone: what it keeps does not
show in them.
-/

set_option autoImplicit false

namespace Formula

namespace Equation

section

variable {α : Type} {eq : Equation α}

theorem checkSlot_of_lt {slot : Nat} (inside : slot < eq.size) : eq.checkSlot slot = .ok () :=
  if_pos inside

theorem checkSlot_eq_ok {slot : Nat} (ok : eq.checkSlot slot = .ok ()) : slot < eq.size := by
  unfold checkSlot at ok
  split at ok
  · assumption
  · contradiction

theorem Grows.size_eq {eq' : Equation α} (grows : eq.Grows eq') : eq'.size = eq.size := by
  change eq'.bare.size = eq.bare.size
  rw [grows.bare]

theorem checkPoint_bare (eq : Equation α) (point : List α) :
    eq.bare.checkPoint point = eq.checkPoint point := rfl

theorem map_eq_of_map_bare {β : Type} {f : Equation α → β}
    (blind : ∀ p : Equation α, f p.bare = f p) {partials others : List (Equation α)}
    (same : partials.map bare = others) : partials.map f = others.map f := by
  have hcomp : f ∘ bare = f := funext blind
  rw [← same, List.map_map, hcomp]

end

variable {α : Type} [Width α] {eq : Equation α}

/-- The value of a partial at a point. -/
def firstValue (eq : Equation α) (point : List α) (slot : Nat) : α :=
  (eq.derive slot).value.compiled.call point

/-- The value of a partial of a partial at a point. -/
def secondValue (eq : Equation α) (point : List α) (entry : Nat × Nat) : α :=
  ((eq.derive entry.1).value.derive entry.2).value.compiled.call point

namespace Yields

variable {result : List (Equation α) × Equation α}

theorem map_getElem?_first (yields : eq.Yields .first result) {slot : Nat}
    (inside : slot < eq.size) : result.1[slot]?.map bare = some (eq.derive slot).value := by
  rw [← List.getElem?_map, yields.same, derivedAfresh, List.getElem?_map,
    List.getElem?_range inside, Option.map_some]

theorem map_getElem?_second (yields : eq.Yields .second result) {row column : Nat}
    (upper : row ≤ column) (inside : column < eq.size) :
    result.1[triangularIndex eq.size row column]?.map bare =
      some ((eq.derive row).value.derive column).value := by
  rw [← List.getElem?_map, yields.same, derivedAfresh, List.getElem?_map,
    getElem?_upperTriangle upper inside, Option.map_some]

theorem firstValues (yields : eq.Yields .first result) (point : List α) :
    result.1.map (·.compiled.call point) = (List.range eq.size).map (eq.firstValue point) := by
  rw [map_eq_of_map_bare (fun _ => rfl) yields.same, derivedAfresh, List.map_map]
  rfl

theorem secondValues (yields : eq.Yields .second result) (point : List α) :
    result.1.map (·.compiled.call point) = (upperTriangle eq.size).map (eq.secondValue point) := by
  rw [map_eq_of_map_bare (fun _ => rfl) yields.same, derivedAfresh, List.map_map]
  rfl

end Yields

namespace Sound

theorem partialBy_value (sound : eq.Sound) (slot : Nat) :
    (eq.partialBy slot).value.map bare =
      (eq.checkSlot slot).map fun _ => (eq.derive slot).value := by
  unfold partialBy
  cases check : eq.checkSlot slot with
  | error e => rfl
  | ok =>
      cases first : eq.first with
      | none => rfl
      | some partials =>
          have kept : eq.kept .first = some partials := first
          have place := (sound.yields_kept kept).map_getElem?_first (checkSlot_eq_ok check)
          obtain ⟨p, hp, hbare⟩ := Option.map_eq_some_iff.mp place
          simp only [Option.bind_some, hp]
          exact congrArg Except.ok hbare

theorem partialByName_value (sound : eq.Sound) (name : String) :
    (eq.partialByName name).value.1.map bare =
      match eq.vars.slot? name with
      | none => .error (.derivativeNotFound name)
      | some slot => .ok (eq.derive slot).value := by
  unfold partialByName
  cases found : eq.vars.slot? name with
  | none => rfl
  | some slot =>
      have place := sound.yields_firstPartials.map_getElem?_first
        (Variables.slot_lt_of_slot? found)
      obtain ⟨p, hp, hbare⟩ := Option.map_eq_some_iff.mp place
      simp only [Logged.value_bind, hp]
      exact congrArg Except.ok hbare

theorem secondPartial_value (sound : eq.Sound) (row column : Nat) :
    (eq.secondPartial row column).value.1.map bare =
      match eq.checkSlot row, eq.checkSlot column with
      | .error e, _ => .error e
      | .ok (), .error e => .error e
      | .ok (), .ok () =>
          .ok ((eq.derive (min row column)).value.derive (max row column)).value := by
  unfold secondPartial
  cases hrow : eq.checkSlot row with
  | error e => rfl
  | ok =>
      cases hcolumn : eq.checkSlot column with
      | error e => rfl
      | ok =>
          have yields := sound.yields_secondPartials
          have upper : min row column ≤ max row column :=
            Nat.le_trans (Nat.min_le_left _ _) (Nat.le_max_left _ _)
          have place := yields.map_getElem?_second upper
            (Nat.max_lt.mpr ⟨checkSlot_eq_ok hrow, checkSlot_eq_ok hcolumn⟩)
          obtain ⟨p, hp, hbare⟩ := Option.map_eq_some_iff.mp place
          simp only [Logged.value_bind, yields.grows.size_eq, hp]
          exact congrArg Except.ok hbare

theorem bare (sound : eq.Sound) : eq.bare.Sound :=
  sound.built ▸ sound_ofParts eq.source eq.expr eq.vars

theorem writeGradient_bare (sound : eq.Sound) (point row : List α) :
    (eq.bare.writeGradient point row).value.1 = (eq.writeGradient point row).value.1 := by
  have hsize : eq.bare.size = eq.size := rfl
  have hvalues := (sound.bare.yields_firstPartials.firstValues point).trans
    (sound.yields_firstPartials.firstValues point).symm
  simp only [writeGradient, checkPoint_bare, hsize]
  split
  · rfl
  · split
    · rfl
    · simp only [Logged.value_bind, Logged.value_pure, hvalues]

theorem writeHessian_bare (sound : eq.Sound) (point : List α) (grid : Grid α) :
    (eq.bare.writeHessian point grid).value.1 = (eq.writeHessian point grid).value.1 := by
  have hsize : eq.bare.size = eq.size := rfl
  have yields := sound.yields_secondPartials
  have yields' := sound.bare.yields_secondPartials
  have hvalues := (yields'.secondValues point).trans (yields.secondValues point).symm
  simp only [writeHessian, checkPoint_bare, hsize]
  split
  · rfl
  · split
    · rfl
    · simp only [Logged.value_bind, Logged.value_pure, hvalues, yields.grows.size_eq,
        yields'.grows.size_eq, hsize]

/-- An equation answers as it would if it had just been built. -/
theorem ask_bare (sound : eq.Sound) (request : Request α) :
    (eq.bare.ask request).1.bare = (eq.ask request).1.bare := by
  cases request with
  | evaluate | deriveBy | copy => rfl
  | partialBy slot =>
      refine congrArg Answer.equation ?_
      rw [sound.bare.partialBy_value, sound.partialBy_value]
      rfl
  | partialByName name =>
      refine congrArg Answer.equation ?_
      rw [sound.bare.partialByName_value, sound.partialByName_value]
      rfl
  | secondPartial row column =>
      refine congrArg Answer.equation ?_
      rw [sound.bare.secondPartial_value, sound.secondPartial_value]
      rfl
  | firstPartials =>
      refine congrArg Answer.equations ?_
      rw [sound.bare.yields_firstPartials.same, sound.yields_firstPartials.same,
        derivedAfresh_bare]
  | secondPartials =>
      refine congrArg Answer.equations ?_
      rw [sound.bare.yields_secondPartials.same, sound.yields_secondPartials.same,
        derivedAfresh_bare]
  | gradient point =>
      have hsize : eq.bare.size = eq.size := rfl
      have same := sound.writeGradient_bare point (List.replicate eq.size 0)
      refine congrArg Answer.row ?_
      simp only [gradient, Logged.value_bind, Logged.value_pure, hsize, same]
  | hessian point =>
      have hsize : eq.bare.size = eq.size := rfl
      have same := sound.writeHessian_bare point (Grid.zeros eq.size eq.size)
      refine congrArg Answer.grid ?_
      simp only [hessian, Logged.value_bind, Logged.value_pure, hsize, same]
  | writeGradient point row => exact congrArg Answer.writtenRow (sound.writeGradient_bare point row)
  | writeHessian point grid =>
      exact congrArg Answer.writtenGrid (sound.writeHessian_bare point grid)

end Sound

end Equation

end Formula
