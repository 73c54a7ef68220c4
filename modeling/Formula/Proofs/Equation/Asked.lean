import Formula.Proofs.Equation.Answers

/-!
What a request does: the equation that is asked stays sound and keeps no less than before, and the
equations of the answer are sound partials of it.
-/

set_option autoImplicit false

namespace Formula

namespace Equation

section

variable {α : Type} {eq : Equation α}

/-- That an equation is a partial of another one, of some degree. -/
def IsPartialOf (p eq : Equation α) : Prop :=
  p.vars = eq.vars ∧ ∃ slots : List Nat, (∀ slot ∈ slots, slot < eq.size) ∧
    p.expr = slots.foldl (fun e slot => e.derivative slot) eq.expr

namespace IsPartialOf

theorem refl (eq : Equation α) : eq.IsPartialOf eq := ⟨rfl, [], by simp, rfl⟩

theorem trans {p q eq : Equation α} (outer : p.IsPartialOf q) (inner : q.IsPartialOf eq) :
    p.IsPartialOf eq := by
  obtain ⟨hvars, slots, inside, hexpr⟩ := outer
  obtain ⟨hvars', slots', inside', hexpr'⟩ := inner
  refine ⟨hvars.trans hvars', slots' ++ slots, ?_, ?_⟩
  · intro slot member
    rcases List.mem_append.mp member with member | member
    · exact inside' slot member
    · have hinside := inside slot member
      rwa [size, hvars'] at hinside
  · rw [hexpr, hexpr', List.foldl_append]

theorem of_bare {p q eq : Equation α} (same : p.bare = q.bare) (isPartial : q.IsPartialOf eq) :
    p.IsPartialOf eq := by
  have hvars : p.bare.vars = q.bare.vars := by rw [same]
  have hexpr : p.bare.expr = q.bare.expr := by rw [same]
  obtain ⟨hvars', slots, inside, hexpr'⟩ := isPartial
  exact ⟨hvars.trans hvars', slots, inside, hexpr.trans hexpr'⟩

end IsPartialOf

end

variable {α : Type} [Width α] {eq : Equation α}

theorem partialByName_state (eq : Equation α) (name : String) :
    (eq.partialByName name).value.2 = eq ∨
      (eq.partialByName name).value.2 = eq.firstPartials.value.2 := by
  unfold partialByName
  split
  · exact .inl rfl
  · right
    simp only [Logged.value_bind]
    split <;> rfl

theorem writeGradient_state (eq : Equation α) (point row : List α) :
    (eq.writeGradient point row).value.2 = eq ∨
      (eq.writeGradient point row).value.2 = eq.firstPartials.value.2 := by
  unfold writeGradient
  split
  · exact .inl rfl
  · split
    · exact .inl rfl
    · exact .inr rfl

theorem secondPartial_state (eq : Equation α) (row column : Nat) :
    (eq.secondPartial row column).value.2 = eq ∨
      (eq.secondPartial row column).value.2 = eq.secondPartials.value.2 := by
  unfold secondPartial
  split
  · exact .inl rfl
  · exact .inl rfl
  · right
    simp only [Logged.value_bind]
    split <;> rfl

theorem writeHessian_state (eq : Equation α) (point : List α) (grid : Grid α) :
    (eq.writeHessian point grid).value.2 = eq ∨
      (eq.writeHessian point grid).value.2 = eq.secondPartials.value.2 := by
  unfold writeHessian
  split
  · exact .inl rfl
  · split
    · exact .inl rfl
    · exact .inr rfl

/-- Asking derives the partials of a degree at most. -/
theorem ask_state (eq : Equation α) (request : Request α) :
    (eq.ask request).2 = eq ∨ (eq.ask request).2 = eq.firstPartials.value.2 ∨
      (eq.ask request).2 = eq.secondPartials.value.2 := by
  have viaFirst {eq' : Equation α} (h : eq' = eq ∨ eq' = eq.firstPartials.value.2) :
      eq' = eq ∨ eq' = eq.firstPartials.value.2 ∨ eq' = eq.secondPartials.value.2 :=
    h.imp_right .inl
  have viaSecond {eq' : Equation α} (h : eq' = eq ∨ eq' = eq.secondPartials.value.2) :
      eq' = eq ∨ eq' = eq.firstPartials.value.2 ∨ eq' = eq.secondPartials.value.2 :=
    h.imp_right .inr
  cases request with
  | evaluate | partialBy | deriveBy | copy => exact .inl rfl
  | firstPartials => exact .inr (.inl rfl)
  | secondPartials => exact .inr (.inr rfl)
  | partialByName name => exact viaFirst (eq.partialByName_state name)
  | gradient point => exact viaFirst (eq.writeGradient_state point _)
  | writeGradient point row => exact viaFirst (eq.writeGradient_state point row)
  | secondPartial row column => exact viaSecond (eq.secondPartial_state row column)
  | hessian point => exact viaSecond (eq.writeHessian_state point _)
  | writeHessian point grid => exact viaSecond (eq.writeHessian_state point grid)

theorem Sound.ask (sound : eq.Sound) (request : Request α) :
    (eq.ask request).2.Sound ∧ eq.Grows (eq.ask request).2 := by
  rcases eq.ask_state request with state | state | state
  · rw [state]
    exact ⟨sound, .refl eq⟩
  · rw [state]
    exact ⟨sound.yields_firstPartials.sound, sound.yields_firstPartials.grows⟩
  · rw [state]
    exact ⟨sound.yields_secondPartials.sound, sound.yields_secondPartials.grows⟩

namespace IsPartialOf

theorem derive {slot : Nat} (inside : slot < eq.size) : (eq.derive slot).value.IsPartialOf eq :=
  ⟨rfl, [slot], by simpa using inside, rfl⟩

/-- What is derived to be kept are partials. -/
theorem of_mem_derivedAfresh {degree : Degree} {p : Equation α}
    (member : p ∈ eq.derivedAfresh degree) : p.IsPartialOf eq := by
  cases degree with
  | first =>
      obtain ⟨slot, inside, rfl⟩ := List.mem_map.mp member
      exact derive (List.mem_range.mp inside)
  | second =>
      obtain ⟨⟨row, column⟩, inside, rfl⟩ := List.mem_map.mp member
      obtain ⟨hle, hlt⟩ := mem_upperTriangle.mp inside
      have outer : ((eq.derive row).value.derive column).value.IsPartialOf (eq.derive row).value :=
        derive hlt
      exact outer.trans (derive (Nat.lt_of_le_of_lt hle hlt))

end IsPartialOf

theorem Yields.isPartialOf {degree : Degree} {result : List (Equation α) × Equation α}
    (yields : eq.Yields degree result) {p : Equation α} (member : p ∈ result.1) :
    p.IsPartialOf eq := by
  have bare_member : p.bare ∈ eq.derivedAfresh degree :=
    yields.same ▸ List.mem_map_of_mem member
  exact .of_bare (bare_bare p).symm (.of_mem_derivedAfresh bare_member)

theorem Yields.of_getElem? {degree : Degree} {result : List (Equation α) × Equation α}
    (yields : eq.Yields degree result) {i : Nat} {p : Equation α} (found : result.1[i]? = some p) :
    p.Sound ∧ p.IsPartialOf eq := by
  have member := List.mem_of_getElem? found
  exact ⟨yields.inside p member, yields.isPartialOf member⟩

theorem deriveBy_eq_ok {names : List String} {p : Equation α}
    (answer : (eq.deriveBy names).value = .ok p) :
    p = (ofExpr ((names.filterMap eq.vars.slot?).foldl (fun e slot => e.derivative slot) eq.expr)
      eq.vars).value := by
  unfold deriveBy at answer
  simp only at answer
  split at answer
  · contradiction
  · exact (Except.ok.inj answer).symm

namespace Sound

theorem partialBy_ok (sound : eq.Sound) {slot : Nat} {p : Equation α}
    (answer : (eq.partialBy slot).value = .ok p) : p.Sound ∧ p.IsPartialOf eq := by
  unfold partialBy at answer
  split at answer
  · contradiction
  · rename_i inside
    split at answer
    · rename_i q found
      obtain rfl := Except.ok.inj answer
      obtain ⟨partials, kept, hq⟩ := Option.bind_eq_some_iff.mp found
      have kept' : eq.kept .first = some partials := kept
      exact (sound.yields_kept kept').of_getElem? hq
    · obtain rfl := Except.ok.inj answer
      exact ⟨sound_ofParts _ _ _, .derive (checkSlot_eq_ok inside)⟩

theorem partialByName_ok (sound : eq.Sound) {name : String} {p : Equation α}
    (answer : (eq.partialByName name).value.1 = .ok p) : p.Sound ∧ p.IsPartialOf eq := by
  have yields := sound.yields_firstPartials
  unfold partialByName at answer
  split at answer
  · contradiction
  · simp only [Logged.value_bind] at answer
    split at answer
    · rename_i q found
      obtain rfl := Except.ok.inj answer
      exact yields.of_getElem? found
    · contradiction

theorem secondPartial_ok (sound : eq.Sound) {row column : Nat} {p : Equation α}
    (answer : (eq.secondPartial row column).value.1 = .ok p) : p.Sound ∧ p.IsPartialOf eq := by
  have yields := sound.yields_secondPartials
  unfold secondPartial at answer
  split at answer
  · contradiction
  · contradiction
  · simp only [Logged.value_bind] at answer
    split at answer
    · rename_i q found
      obtain rfl := Except.ok.inj answer
      exact yields.of_getElem? found
    · contradiction

theorem equationsOf_ask (sound : eq.Sound) (request : Request α) {p : Equation α}
    (member : p ∈ (eq.ask request).1.equationsOf) : p.Sound ∧ p.IsPartialOf eq := by
  have single {result : Except EquationError (Equation α)}
      (member : p ∈ (Answer.equation result).equationsOf) : result = .ok p := by
    cases result with
    | error => exact absurd member List.not_mem_nil
    | ok q => rw [List.mem_singleton.mp member]
  cases request with
  | evaluate | gradient | hessian | writeGradient | writeHessian =>
      exact absurd member List.not_mem_nil
  | partialBy slot => exact sound.partialBy_ok (single member)
  | partialByName name => exact sound.partialByName_ok (single member)
  | secondPartial row column => exact sound.secondPartial_ok (single member)
  | deriveBy names =>
      rw [deriveBy_eq_ok (single member)]
      refine ⟨sound_ofParts _ _ _, rfl, _, ?_, rfl⟩
      intro slot inside
      obtain ⟨name, -, found⟩ := List.mem_filterMap.mp inside
      exact Variables.slot_lt_of_slot? found
  | firstPartials =>
      have yields := sound.yields_firstPartials
      exact ⟨yields.inside p member, yields.isPartialOf member⟩
  | secondPartials =>
      have yields := sound.yields_secondPartials
      exact ⟨yields.inside p member, yields.isPartialOf member⟩
  | copy =>
      rw [← Except.ok.inj (single member)]
      exact ⟨sound, .refl eq⟩

end Sound

end Equation

end Formula
