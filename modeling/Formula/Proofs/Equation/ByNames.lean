import Formula.Proofs.Equation.Reached
import Formula.Proofs.Equation.Routes

/-!
Higher partials by a list of names. Known names are derived by in turn, as if one partial were asked
of the other; unknown names are reported together, each once and where it stands first. The test
for unknown names looks at their joined text, which the empty name alone leaves empty: that one
name is passed over.
-/

set_option autoImplicit false

namespace Formula

theorem joined_eq_empty_iff {names : List String} :
    ", ".intercalate names = "" ↔ names = [] ∨ names = [""] := by
  match names with
  | [] => exact iff_of_true String.intercalate_nil (.inl rfl)
  | [name] => simp [String.intercalate_singleton]
  | first :: second :: rest =>
      refine iff_of_false ?_ (by simp)
      intro empty
      have length := congrArg String.length empty
      rw [String.intercalate_cons_cons, String.length_append, String.length_append] at length
      have separator : ", ".length = 2 := rfl
      rw [String.length_empty] at length
      omega

theorem eraseDups_eq_nil_iff {names : List String} : names.eraseDups = [] ↔ names = [] := by
  cases names with
  | nil => exact iff_of_true List.eraseDups_nil rfl
  | cons name rest => simp [List.eraseDups_cons]

/-- Names are joined to the empty text if they are all empty. -/
theorem joined_eraseDups_eq_empty_iff {names : List String} :
    ", ".intercalate names.eraseDups = "" ↔ ∀ name ∈ names, name = "" := by
  rw [joined_eq_empty_iff, eraseDups_eq_nil_iff]
  cases names with
  | nil => simp
  | cons first rest =>
      have others : (rest.filter fun name => !name == first) = [] ↔
          ∀ name ∈ rest, name = first := by
        simp [List.filter_eq_nil_iff]
      rw [List.eraseDups_cons, List.cons_eq_cons, eraseDups_eq_nil_iff, others,
        List.forall_mem_cons]
      constructor
      · rintro (none | ⟨rfl, same⟩)
        · contradiction
        · exact ⟨rfl, same⟩
      · rintro ⟨rfl, same⟩
        exact .inr ⟨rfl, same⟩

namespace Variables

theorem map_some_filterMap_slot? (v : Variables) (names : List String) :
    (names.filterMap v.slot?).map some = (names.filter (· ∈ v.names)).map v.slot? := by
  induction names with
  | nil => rfl
  | cons name rest ih =>
      by_cases known : name ∈ v.names
      · obtain ⟨slot, found⟩ := exists_slot? known
        rw [List.filterMap_cons_some found, List.filter_cons_of_pos (by simpa using known),
          List.map_cons, List.map_cons, ih, found]
      · rw [List.filterMap_cons_none (slot?_eq_none_iff.mpr known),
          List.filter_cons_of_neg (by simpa using known), ih]

end Variables

namespace Equation

/-- Gathering the distinct names on the way leaves each where it stands first. -/
theorem distinct_eq_eraseDups (names : List String) : distinct names = names.eraseDups := by
  induction names using List.reverseRecOn with
  | nil => rfl
  | append_singleton seen name ih =>
      rw [distinct, List.foldl_append, ← distinct, ih, List.eraseDups_append]
      by_cases member : name ∈ seen
      · simp [member, List.cons_removeAll]
      · simp [member, List.cons_removeAll, List.eraseDups_cons]

variable {α : Type} [Width α] {eq : Equation α}

/-- The partials by slots in turn, each asked of the one before. -/
def partialsBy (eq : Equation α) (slots : List Nat) : Except EquationError (Equation α) :=
  slots.foldlM (fun p slot => (p.partialBy slot).value) eq

theorem Sound.exists_partialsBy (sound : eq.Sound) {slots : List Nat}
    (inside : ∀ slot ∈ slots, slot < eq.size) :
    ∃ q, eq.partialsBy slots = .ok q ∧ q.vars = eq.vars ∧
      q.expr = slots.foldl (fun e slot => e.derivative slot) eq.expr ∧
      (slots ≠ [] → q.bare = (ofExpr q.expr q.vars).value) := by
  induction slots generalizing eq with
  | nil => exact ⟨eq, rfl, rfl, rfl, fun none => absurd rfl none⟩
  | cons slot rest ih =>
      rw [List.forall_mem_cons] at inside
      have answer := sound.partialBy_value slot
      rw [checkSlot_of_lt inside.1] at answer
      obtain ⟨p, hp, same⟩ := map_eq_ok answer
      change p.bare = (eq.derive slot).value at same
      have vars : p.bare.vars = eq.vars := by
        rw [same]
        rfl
      have expr : p.bare.expr = eq.expr.derivative slot := by
        rw [same]
        rfl
      have size : p.size = eq.size := congrArg Variables.size vars
      obtain ⟨q, hq, hvars, hexpr, hbare⟩ := ih (sound.partialBy_ok hp).1
        (by simpa only [size] using inside.2)
      refine ⟨q, ?_, hvars.trans vars, ?_, fun _ => ?_⟩
      · rw [partialsBy, List.foldlM_cons, hp]
        exact hq
      · rw [hexpr, List.foldl_cons, ← expr]
        rfl
      · cases rest with
        | nil =>
            obtain rfl := Except.ok.inj hq
            rw [same]
            change _ = (ofExpr p.bare.expr p.bare.vars).value
            rw [expr, vars]
            rfl
        | cons => exact hbare (List.cons_ne_nil _ _)

/-- What a list of names may answer. Every unknown name is reported, except for the empty one if it
is the only one. -/
theorem deriveBy_value (eq : Equation α) (names : List String) :
    (eq.deriveBy names).value =
      if ∀ name ∈ names, name ∈ eq.vars.names ∨ name = "" then
        .ok (ofExpr ((names.filterMap eq.vars.slot?).foldl (fun e slot => e.derivative slot) eq.expr)
          eq.vars).value
      else
        .error (.derivativeNotFound
          (", ".intercalate (names.filter (· ∉ eq.vars.names)).eraseDups)) := by
  have unknown : (names.filter fun name => (eq.vars.slot? name).isNone) =
      names.filter (· ∉ eq.vars.names) := by
    apply List.filter_congr
    intro name _
    rw [Bool.eq_iff_iff, Option.isNone_iff_eq_none, Variables.slot?_eq_none_iff, decide_eq_true_iff]
  have empty : ", ".intercalate (names.filter (· ∉ eq.vars.names)).eraseDups = "" ↔
      ∀ name ∈ names, name ∈ eq.vars.names ∨ name = "" := by
    rw [joined_eraseDups_eq_empty_iff]
    simp only [List.mem_filter, decide_eq_true_iff, and_imp, or_iff_not_imp_left]
  rw [deriveBy, unknown, distinct_eq_eraseDups]
  by_cases answered : ∀ name ∈ names, name ∈ eq.vars.names ∨ name = ""
  · rw [if_pos answered, empty.mpr answered]
    rfl
  · rw [if_neg answered]
    exact congrArg Logged.value (if_pos (mt empty.mp answered))

end Equation

namespace Session

open Equation

variable {α : Type} [Width α] {start s : Session α}

/-- A list of names leads to the partial by all of them that are known, one after the other, as it
is reached by asking for a partial of a partial; or to an error that shows the unknown ones. Only
the empty name is neither known nor shown. -/
theorem deriveBy_answers {asked : List (Place × Request α)}
    (fresh : ∀ eq ∈ start, eq = eq.afresh) (ran : start.run? asked = some s) {place : Place}
    {eq : Equation α} (found : s.at? place = some eq) (names : List String) :
    ((∃ p, (eq.deriveBy names).value = .ok p) ↔
        ∀ name ∈ names, name ∈ eq.vars.names ∨ name = "") ∧
      (∀ p, (eq.deriveBy names).value = .ok p → ∃ slots q,
        slots.map some = (names.filter (· ∈ eq.vars.names)).map eq.vars.slot? ∧
        p.expr = slots.foldl (fun e slot => e.derivative slot) eq.expr ∧ p.vars = eq.vars ∧
        eq.partialsBy slots = .ok q ∧ q.expr = p.expr ∧ q.vars = p.vars ∧
        (slots ≠ [] → q.bare = p)) ∧
      ∀ error, (eq.deriveBy names).value = .error error →
        error = .derivativeNotFound
          (", ".intercalate (names.filter (· ∉ eq.vars.names)).eraseDups) := by
  obtain ⟨sound, -⟩ := (sound_start fresh).run? ran
  obtain ⟨sound, -⟩ := sound.at? found
  rw [deriveBy_value]
  by_cases answered : ∀ name ∈ names, name ∈ eq.vars.names ∨ name = ""
  · rw [if_pos answered]
    refine ⟨iff_of_true ⟨_, rfl⟩ answered, ?_, nofun⟩
    rintro p ⟨⟩
    have inside : ∀ slot ∈ names.filterMap eq.vars.slot?, slot < eq.size := by
      intro slot member
      obtain ⟨name, -, found⟩ := List.mem_filterMap.mp member
      exact Variables.slot_lt_of_slot? found
    obtain ⟨q, hq, vars, expr, bare⟩ := sound.exists_partialsBy inside
    refine ⟨_, q, Variables.map_some_filterMap_slot? _ _, rfl, rfl, hq, expr, vars, ?_⟩
    intro some
    rw [bare some, expr, vars]
  · rw [if_neg answered]
    refine ⟨iff_of_false nofun answered, nofun, ?_⟩
    rintro error ⟨⟩
    rfl

/-- From the first partial of a cube: by `x` twice, and by names among which two are unknown, which
are shown once each. -/
theorem deriveBy_answers_cube :
    let start : Session Float :=
      [(ofParts "x^3" (.binary .pow (.var "x" 0) (.const 3)) ⟨["x"]⟩).value]
    (∀ eq ∈ start, eq = eq.afresh) ∧
      ∃ s eq, start.run? [(⟨0, []⟩, .firstPartials)] = some s ∧ s.at? ⟨0, [(.first, 0)]⟩ = some eq ∧
        (∃ p slots q, (eq.deriveBy ["x", "x"]).value = .ok p ∧ slots.map some = [some 0, some 0] ∧
          eq.partialsBy slots = .ok q ∧ q.bare = p) ∧
        (eq.deriveBy ["x", "w", "", "x", "w"]).value = .error (.derivativeNotFound "w, ") := by
  intro start
  have fresh : ∀ eq ∈ start, eq = eq.afresh := by
    intro eq member
    rw [List.mem_singleton.mp member]
    rfl
  have runs : ((start.run? [(⟨0, []⟩, .firstPartials)]).bind (·.at? ⟨0, [(.first, 0)]⟩)).map
      (·.vars) = some ⟨["x"]⟩ := by
    rfl
  obtain ⟨eq, hruns, hvars⟩ := Option.map_eq_some_iff.mp runs
  obtain ⟨s, ran, found⟩ := Option.bind_eq_some_iff.mp hruns
  refine ⟨fresh, s, eq, ran, found, ?_, ?_⟩
  · obtain ⟨answers, parts, -⟩ := deriveBy_answers fresh ran found ["x", "x"]
    obtain ⟨p, hp⟩ := answers.mpr (by simp [hvars])
    obtain ⟨slots, q, hslots, -, -, hq, -, -, bare⟩ := parts p hp
    have known : slots.map some = [some 0, some 0] := by
      rw [hslots, hvars]
      decide
    exact ⟨p, slots, q, hp, known, hq, bare fun none => by simp [none] at known⟩
  · obtain ⟨answers, -, errors⟩ := deriveBy_answers fresh ran found ["x", "w", "", "x", "w"]
    cases failed : (eq.deriveBy ["x", "w", "", "x", "w"]).value with
    | ok p =>
        have known := answers.mp ⟨p, failed⟩
        rw [hvars] at known
        exact absurd known (by decide)
    | error error =>
        rw [errors error failed, hvars]
        rfl

/-- The empty name is no variable, and still it is passed over: of the square of `x` by `x` and by
the empty name only one derivative is taken. -/
theorem deriveBy_passes_over_empty_name :
    let eq : Equation Float :=
      (ofParts "x^2" (.binary .pow (.var "x" 0) (.const 2)) ⟨["x"]⟩).value
    "" ∉ eq.vars.names ∧
      ∃ p, (eq.deriveBy ["x", ""]).value = .ok p ∧ p.expr = eq.expr.derivative 0 := by
  intro eq
  have answer := deriveBy_value eq ["x", ""]
  rw [if_pos (by decide)] at answer
  exact ⟨by decide, _, answer, rfl⟩

end Session

end Formula
