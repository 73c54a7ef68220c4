import Formula.Proofs.Equation.Session

/-!
What an equation keeps is what it would derive if it kept nothing. The invariant says so at every
depth, and deriving partials, to keep them, preserves it.
-/

set_option autoImplicit false

namespace Formula

namespace Equation

variable {α : Type}

@[simp] theorem bare_bare (eq : Equation α) : eq.bare.bare = eq.bare := rfl

@[simp] theorem bare_keep (eq : Equation α) (partials : List (Equation α)) (degree : Degree) :
    (eq.keep partials degree).bare = eq.bare := by
  cases degree <;> rfl

theorem kept_keep (eq : Equation α) (partials : List (Equation α)) (degree other : Degree) :
    (eq.keep partials degree).kept other =
      if other = degree then some partials else eq.kept other := by
  cases degree <;> cases other <;> rfl

/-- That an equation has become another one by keeping more. -/
structure Grows (eq eq' : Equation α) : Prop where
  bare : eq'.bare = eq.bare
  kept : ∀ degree partials, eq.kept degree = some partials → eq'.kept degree = some partials

theorem Grows.refl (eq : Equation α) : Grows eq eq := ⟨rfl, fun _ _ => id⟩

theorem Grows.trans {eq eq' eq'' : Equation α} (first : Grows eq eq') (second : Grows eq' eq'') :
    Grows eq eq'' :=
  ⟨second.bare.trans first.bare, fun degree partials kept =>
    second.kept degree partials (first.kept degree partials kept)⟩

/-- Partials may be kept where there were none. -/
theorem Grows.keep {eq : Equation α} {degree : Degree} (none : eq.kept degree = none)
    (partials : List (Equation α)) : Grows eq (eq.keep partials degree) := by
  refine ⟨bare_keep eq partials degree, ?_⟩
  intro other others kept
  rw [kept_keep]
  split
  · rename_i same
    rw [same, none] at kept
    contradiction
  · exact kept

variable [Width α]

/-- The equation as it is when it has just been built. -/
def afresh (eq : Equation α) : Equation α := (ofParts eq.source eq.expr eq.vars).value

/-- The partials of a degree, just derived. -/
def derivedAfresh (eq : Equation α) : Degree → List (Equation α)
  | .first => (List.range eq.size).map fun slot => (eq.derive slot).value
  | .second => (upperTriangle eq.size).map fun (row, column) =>
      ((eq.derive row).value.derive column).value

/-- That an equation keeps what it would derive, all the way down. -/
inductive Sound : Equation α → Prop
  | intro {eq : Equation α} (built : eq.bare = eq.afresh)
      (kept : ∀ degree partials, eq.kept degree = some partials →
        partials.map bare = eq.derivedAfresh degree)
      (inside : ∀ degree partials, eq.kept degree = some partials → ∀ p ∈ partials, Sound p)
      (grounded : eq.kept .second ≠ none → eq.kept .first ≠ none) : Sound eq

variable {eq : Equation α}

theorem Sound.built (sound : eq.Sound) : eq.bare = eq.afresh := by
  cases sound with
  | intro built => exact built

theorem Sound.kept (sound : eq.Sound) {degree : Degree} {partials : List (Equation α)}
    (kept : eq.kept degree = some partials) : partials.map bare = eq.derivedAfresh degree := by
  cases sound with
  | intro _ same => exact same degree partials kept

theorem Sound.inside (sound : eq.Sound) {degree : Degree} {partials : List (Equation α)}
    (kept : eq.kept degree = some partials) : ∀ p ∈ partials, p.Sound := by
  cases sound with
  | intro _ _ inside => exact inside degree partials kept

theorem Sound.grounded (sound : eq.Sound) (second : eq.kept .second ≠ none) :
    eq.kept .first ≠ none := by
  cases sound with
  | intro _ _ _ grounded => exact grounded second

/-- An equation that has just been built keeps nothing. -/
theorem sound_ofParts (source : String) (expr : Expr Float) (vars : Variables) :
    (ofParts source expr vars : Logged (Equation α)).value.Sound := by
  refine .intro rfl ?_ ?_ ?_
  · intro degree partials kept
    cases degree <;> contradiction
  · intro degree partials kept
    cases degree <;> contradiction
  · intro second
    contradiction

theorem derivedAfresh_bare (eq : Equation α) (degree : Degree) :
    eq.bare.derivedAfresh degree = eq.derivedAfresh degree := by
  cases degree <;> rfl

/-- What an equation keeps may be exchanged for what is just as sound. -/
theorem Sound.keep (sound : eq.Sound) {degree : Degree} {partials : List (Equation α)}
    (same : partials.map bare = eq.derivedAfresh degree) (inside : ∀ p ∈ partials, p.Sound)
    (grounded : degree = .second → eq.kept .first ≠ none) : (eq.keep partials degree).Sound := by
  have hbare := bare_keep eq partials degree
  have hderived (other : Degree) :
      (eq.keep partials degree).derivedAfresh other = eq.derivedAfresh other := by
    rw [← derivedAfresh_bare, hbare, derivedAfresh_bare]
  refine .intro ?_ ?_ ?_ ?_
  · have hafresh : (eq.keep partials degree).afresh = eq.afresh := by cases degree <;> rfl
    rw [hbare, hafresh, sound.built]
  · intro other others kept
    rw [kept_keep] at kept
    rw [hderived]
    split at kept
    · rename_i hother
      obtain rfl := Option.some.inj kept
      rw [hother, same]
    · exact sound.kept kept
  · intro other others kept
    rw [kept_keep] at kept
    split at kept
    · obtain rfl := Option.some.inj kept
      exact inside
    · exact sound.inside kept
  · intro second
    rw [kept_keep] at second ⊢
    split
    · exact nofun
    · split at second
      · rename_i hsecond
        exact grounded hsecond.symm
      · exact sound.grounded second

/-- What asking for the partials of a degree yields. -/
structure Yields (eq : Equation α) (degree : Degree)
    (result : List (Equation α) × Equation α) : Prop where
  same : result.1.map bare = eq.derivedAfresh degree
  inside : ∀ p ∈ result.1, p.Sound
  sound : result.2.Sound
  grows : eq.Grows result.2
  kept : result.2.kept degree = some result.1

theorem Sound.yields_kept (sound : eq.Sound) {degree : Degree} {partials : List (Equation α)}
    (kept : eq.kept degree = some partials) : eq.Yields degree (partials, eq) :=
  ⟨sound.kept kept, sound.inside kept, sound, .refl eq, kept⟩

/-- Partials that have just been derived are kept. -/
theorem Sound.yields_keep (sound : eq.Sound) {degree : Degree} (none : eq.kept degree = none)
    {partials : List (Equation α)} (same : partials = eq.derivedAfresh degree)
    (inside : ∀ p ∈ partials, p.Sound) (bare : partials.map bare = partials)
    (grounded : degree = .second → eq.kept .first ≠ .none) :
    eq.Yields degree (partials, eq.keep partials degree) where
  same := bare.trans same
  inside := inside
  sound := sound.keep (bare.trans same) inside grounded
  grows := .keep none partials
  kept := by rw [kept_keep, if_pos rfl]

theorem Sound.yields_firstPartials (sound : eq.Sound) :
    eq.Yields .first eq.firstPartials.value := by
  unfold firstPartials
  cases first : eq.first with
  | some partials => exact sound.yields_kept first
  | none =>
      have none : eq.kept .first = none := first
      simp only [Logged.value_bind, Logged.value_mapM, Logged.value_pure]
      refine sound.yields_keep none rfl ?_ ?_ nofun
      · intro p member
        obtain ⟨slot, -, rfl⟩ := List.mem_map.mp member
        exact sound_ofParts _ _ _
      · rw [List.map_map]
        rfl

theorem zipIdx_range (n : Nat) : (List.range n).zipIdx = (List.range n).map fun i => (i, i) := by
  apply List.ext_getElem
  · simp
  · intro i hleft hright
    simp

/-- The derivations of the second partials run through the upper triangle. -/
theorem map_derivationsOf {first : List (Equation α)}
    (same : first.map bare = eq.derivedAfresh .first) :
    ((derivationsOf first).map fun (p, column) => (p.derive column).value) =
      eq.derivedAfresh .second := by
  have hlength : first.length = eq.size := by
    rw [← List.length_map, same, derivedAfresh, List.length_map, List.length_range]
  let row (p : Equation α × Nat) : List (Equation α) :=
    (List.range' p.2 (eq.size - p.2)).map fun column => (p.1.derive column).value
  calc (derivationsOf first).map (fun (p, column) => (p.derive column).value)
      = first.zipIdx.flatMap row := by
        rw [derivationsOf, List.map_flatMap, hlength]
        simp only [List.map_map]
        rfl
    _ = (first.map bare).zipIdx.flatMap row := by
        rw [List.zipIdx_map, List.flatMap_map]
        rfl
    _ = (List.range eq.size).flatMap fun i => row ((eq.derive i).value, i) := by
        rw [same, derivedAfresh, List.zipIdx_map, zipIdx_range, List.map_map, List.flatMap_map]
        rfl
    _ = eq.derivedAfresh .second := by
        rw [derivedAfresh, upperTriangle, List.map_flatMap]
        simp only [List.map_map]
        rfl

theorem second_firstPartials (eq : Equation α) :
    eq.firstPartials.value.2.second = eq.second := by
  unfold firstPartials
  cases eq.first <;> rfl

theorem Grows.yields {eq' : Equation α} {degree : Degree} {result : List (Equation α) × Equation α}
    (grows : eq.Grows eq') (yields : eq'.Yields degree result) : eq.Yields degree result where
  same := by rw [yields.same, ← derivedAfresh_bare, grows.bare, derivedAfresh_bare]
  inside := yields.inside
  sound := yields.sound
  grows := grows.trans yields.grows
  kept := yields.kept

theorem Sound.yields_secondPartials (sound : eq.Sound) :
    eq.Yields .second eq.secondPartials.value := by
  unfold secondPartials
  cases second : eq.second with
  | some partials => exact sound.yields_kept second
  | none =>
      have hsecond := second_firstPartials eq
      obtain ⟨same, inside, sound', grows, kept⟩ := sound.yields_firstPartials
      simp only [Logged.value_bind, Logged.value_mapM, Logged.value_pure]
      generalize eq.firstPartials.value = result at *
      obtain ⟨first, eq'⟩ := result
      have hderived := map_derivationsOf same
      rw [← derivedAfresh_bare, ← grows.bare, derivedAfresh_bare] at hderived
      have none : eq'.kept .second = none := hsecond.trans second
      refine grows.yields (sound'.yields_keep none hderived ?_ ?_ ?_)
      · intro p member
        obtain ⟨⟨p, column⟩, -, rfl⟩ := List.mem_map.mp member
        exact sound_ofParts _ _ _
      · rw [List.map_map]
        rfl
      · intro _
        rw [kept]
        exact nofun

end Equation
end Formula
