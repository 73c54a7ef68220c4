import Formula.Proofs.Equation.Asked

/-!
The equations that a caller can come to hold, whatever is asked and in whatever order: each of them
is sound, it is a partial of one of the equations that were held at first, and what is kept
anywhere stays.
-/

set_option autoImplicit false

namespace Formula

namespace Equation

section

variable {α : Type} {eq : Equation α}

/-- That what is kept in an equation, at any depth, is kept in another one at the same path. -/
def Extends (eq eq' : Equation α) : Prop :=
  ∀ path p, eq.at? path = some p → ∃ p', eq'.at? path = some p' ∧ p'.bare = p.bare ∧
    ∀ degree partials, p.kept degree = some partials →
      ∃ partials', p'.kept degree = some partials' ∧ partials'.map bare = partials.map bare

theorem Extends.refl (eq : Equation α) : eq.Extends eq :=
  fun _ p found => ⟨p, found, rfl, fun _ partials kept => ⟨partials, kept, rfl⟩⟩

theorem Extends.trans {eq eq' eq'' : Equation α} (first : eq.Extends eq')
    (second : eq'.Extends eq'') : eq.Extends eq'' := by
  intro path p found
  obtain ⟨p', found', same, keeps⟩ := first path p found
  obtain ⟨p'', found'', same', keeps'⟩ := second path p' found'
  refine ⟨p'', found'', same'.trans same, ?_⟩
  intro degree partials kept
  obtain ⟨partials', kept', equal⟩ := keeps degree partials kept
  obtain ⟨partials'', kept'', equal'⟩ := keeps' degree partials' kept'
  exact ⟨partials'', kept'', equal'.trans equal⟩

theorem Extends.bare {eq eq' : Equation α} (ext : eq.Extends eq') : eq'.bare = eq.bare := by
  obtain ⟨p', found, same, -⟩ := ext [] eq rfl
  rwa [← Option.some.inj found] at same

theorem Grows.extends {eq eq' : Equation α} (grows : eq.Grows eq') : eq.Extends eq' := by
  intro path p found
  cases path with
  | nil =>
      obtain rfl := Option.some.inj found
      exact ⟨eq', rfl, grows.bare, fun degree partials kept =>
        ⟨partials, grows.kept degree partials kept, rfl⟩⟩
  | cons step path =>
      obtain ⟨degree, i⟩ := step
      refine ⟨p, ?_, rfl, fun _ partials kept => ⟨partials, kept, rfl⟩⟩
      obtain ⟨partials, kept, rest⟩ := Option.bind_eq_some_iff.mp found
      rw [at?, grows.kept degree partials kept]
      exact rest

theorem map_bare_of_extends {partials partials' : List (Equation α)}
    (each : List.Forall₂ Extends partials partials') :
    partials'.map Equation.bare = partials.map Equation.bare := by
  induction each with
  | nil => rfl
  | cons head _ ih => rw [List.map_cons, List.map_cons, head.bare, ih]

/-- The partials that are kept may be exchanged, one by one, for such as keep no less. -/
theorem extends_keep {degree : Degree} {partials partials' : List (Equation α)}
    (kept : eq.kept degree = some partials)
    (each : List.Forall₂ Extends partials partials') : eq.Extends (eq.keep partials' degree) := by
  have same := map_bare_of_extends each
  intro path p found
  cases path with
  | nil =>
      obtain rfl := Option.some.inj found
      refine ⟨_, rfl, bare_keep _ _ _, ?_⟩
      intro other others keptOther
      rw [kept_keep]
      split
      · rename_i hother
        rw [hother, kept] at keptOther
        obtain rfl := Option.some.inj keptOther
        exact ⟨partials', rfl, same⟩
      · exact ⟨others, keptOther, rfl⟩
  | cons step path =>
      obtain ⟨other, i⟩ := step
      obtain ⟨others, keptOther, rest⟩ := Option.bind_eq_some_iff.mp found
      obtain ⟨q, hq, foundIn⟩ := Option.bind_eq_some_iff.mp rest
      simp only [at?, kept_keep]
      split
      · rename_i hother
        rw [hother, kept] at keptOther
        obtain rfl := Option.some.inj keptOther
        obtain ⟨inside, rfl⟩ := List.getElem?_eq_some_iff.mp hq
        have inside' : i < partials'.length := each.length_eq ▸ inside
        obtain ⟨p', found', holds⟩ := each.get inside inside' path p foundIn
        refine ⟨p', ?_, holds⟩
        rw [Option.bind_eq_bind, Option.bind_some, List.getElem?_eq_getElem inside']
        exact found'
      · refine ⟨p, ?_, rfl, fun _ partials kept => ⟨partials, kept, rfl⟩⟩
        rw [keptOther]
        exact rest

theorem forall₂_modify {β : Type} {R : β → β → Prop} {f : β → β} {l : List β}
    (refl : ∀ b ∈ l, R b b) (step : ∀ b ∈ l, R b (f b)) (i : Nat) :
    List.Forall₂ R l (l.modify i f) := by
  induction l generalizing i with
  | nil => cases i <;> exact .nil
  | cons b rest ih =>
      rw [List.forall_mem_cons] at refl step
      cases i with
      | zero => exact .cons step.1 (List.forall₂_same.mpr refl.2)
      | succ i => exact .cons refl.1 (ih refl.2 step.2 i)

end

variable {α : Type} [Width α] {eq : Equation α}

/-- What keeps an equation sound and only lets it grow may be done at any place inside of one. -/
theorem Sound.modify {f : Equation α → Equation α}
    (step : ∀ p : Equation α, p.Sound → (f p).Sound ∧ p.Grows (f p)) (path : Path)
    (sound : eq.Sound) : (eq.modify f path).Sound ∧ eq.Extends (eq.modify f path) := by
  induction path generalizing eq with
  | nil => exact ⟨(step eq sound).1, (step eq sound).2.extends⟩
  | cons place path ih =>
      obtain ⟨degree, i⟩ := place
      simp only [Equation.modify]
      cases kept : eq.kept degree with
      | none => exact ⟨sound, .refl eq⟩
      | some partials =>
          have each : List.Forall₂ (fun p p' => p'.Sound ∧ p.Extends p') partials
              (partials.modify i fun p => p.modify f path) := by
            refine forall₂_modify ?_ ?_ i
            · exact fun p member => ⟨sound.inside kept p member, .refl p⟩
            · exact fun p member => ih (sound.inside kept p member)
          obtain ⟨inside, -⟩ := (List.forall₂_and_left _ _).mp each.flip
          have extends' := each.imp fun _ _ => And.right
          refine ⟨sound.keep ?_ inside ?_, extends_keep kept extends'⟩
          · rw [map_bare_of_extends extends', sound.kept kept]
          · rintro rfl
            exact sound.grounded (Option.ne_none_iff_exists'.mpr ⟨_, kept⟩)

/-- Wherever one looks inside of a sound equation, there are sound equations, its partials. -/
theorem Sound.at? (sound : eq.Sound) {path : Path} {p : Equation α} (found : eq.at? path = some p) :
    p.Sound ∧ p.IsPartialOf eq := by
  induction path generalizing eq with
  | nil =>
      obtain rfl := Option.some.inj found
      exact ⟨sound, .refl eq⟩
  | cons step path ih =>
      obtain ⟨degree, i⟩ := step
      obtain ⟨partials, kept, rest⟩ := Option.bind_eq_some_iff.mp found
      obtain ⟨q, hq, foundIn⟩ := Option.bind_eq_some_iff.mp rest
      obtain ⟨qSound, inner⟩ := (sound.yields_kept kept).of_getElem? hq
      obtain ⟨pSound, isPartial⟩ := ih qSound foundIn
      exact ⟨pSound, isPartial.trans inner⟩

end Equation

namespace Session

open Equation

section

variable {α : Type} {s s' : Session α}

/-- That a caller holds no less than before. -/
def Extends (s s' : Session α) : Prop :=
  ∀ (holder : Nat) (eq : Equation α), s[holder]? = some eq →
    ∃ eq', s'[holder]? = some eq' ∧ eq.Extends eq'

theorem Extends.refl (s : Session α) : s.Extends s := fun _ eq found => ⟨eq, found, .refl eq⟩

theorem Extends.trans {s'' : Session α} (first : s.Extends s') (second : s'.Extends s'') :
    s.Extends s'' := by
  intro holder eq found
  obtain ⟨eq', found', ext⟩ := first holder eq found
  obtain ⟨eq'', found'', ext'⟩ := second holder eq' found'
  exact ⟨eq'', found'', ext.trans ext'⟩

theorem Extends.at? (ext : s.Extends s') {place : Place} {eq : Equation α}
    (found : s.at? place = some eq) : ∃ eq', s'.at? place = some eq' ∧ eq'.bare = eq.bare ∧
      ∀ degree partials, eq.kept degree = some partials →
        ∃ partials', eq'.kept degree = some partials' ∧
          partials'.map Equation.bare = partials.map Equation.bare := by
  obtain ⟨held, hheld, foundIn⟩ := Option.bind_eq_some_iff.mp found
  obtain ⟨held', hheld', ext'⟩ := ext place.holder held hheld
  obtain ⟨eq', foundIn', holds⟩ := ext' place.path eq foundIn
  exact ⟨eq', Option.bind_eq_some_iff.mpr ⟨held', hheld', foundIn'⟩, holds⟩

end

variable {α : Type} [Width α] {start s s' : Session α}

/-- That what is held is sound, and a partial of something that was held at first. -/
def Sound (start s : Session α) : Prop :=
  ∀ eq ∈ s, eq.Sound ∧ ∃ first ∈ start, eq.IsPartialOf first

theorem sound_start (fresh : ∀ eq ∈ start, eq = eq.afresh) : Sound start start := by
  intro eq member
  refine ⟨?_, eq, member, .refl eq⟩
  rw [fresh eq member]
  exact sound_ofParts _ _ _

theorem Sound.at? (sound : Sound start s) {place : Place} {eq : Equation α}
    (found : s.at? place = some eq) : eq.Sound ∧ ∃ first ∈ start, eq.IsPartialOf first := by
  obtain ⟨held, hheld, foundIn⟩ := Option.bind_eq_some_iff.mp found
  obtain ⟨heldSound, first, member, isPartial⟩ := sound held (List.mem_of_getElem? hheld)
  obtain ⟨eqSound, inner⟩ := heldSound.at? foundIn
  exact ⟨eqSound, first, member, inner.trans isPartial⟩

/-- One request leaves behind what is sound, and nothing is lost. -/
theorem Sound.ask? (sound : Sound start s) {place : Place} {request : Request α} {answer : Answer α}
    (asked : s.ask? place request = some (answer, s')) : Sound start s' ∧ s.Extends s' := by
  obtain ⟨eq, found, result⟩ := Option.bind_eq_some_iff.mp asked
  obtain ⟨eqSound, first, member, isPartial⟩ := sound.at? found
  obtain ⟨-, rfl⟩ := Prod.ext_iff.mp (Option.some.inj result)
  have modified (held : Equation α) (heldSound : held.Sound) :=
    heldSound.modify (fun p psound => psound.ask request) place.path
  have each : List.Forall₂
      (fun held held' => (held'.Sound ∧ ∃ first ∈ start, held'.IsPartialOf first) ∧
        held.Extends held')
      s (s.modify place.holder fun held => held.modify (fun p => (p.ask request).2) place.path) := by
    refine forall₂_modify ?_ ?_ _
    · exact fun held heldIn => ⟨sound held heldIn, .refl held⟩
    · intro held heldIn
      obtain ⟨heldSound, first, member, isPartial⟩ := sound held heldIn
      obtain ⟨sound', ext⟩ := modified held heldSound
      exact ⟨⟨sound', first, member, .of_bare ext.bare isPartial⟩, ext⟩
  obtain ⟨sound', -⟩ := (List.forall₂_and_left _ _).mp each.flip
  constructor
  · intro p pIn
    rcases List.mem_append.mp pIn with pIn | pIn
    · exact sound' p pIn
    · obtain ⟨psound, inner⟩ := eqSound.equationsOf_ask request pIn
      exact ⟨psound, first, member, inner.trans isPartial⟩
  · intro holder held hheld
    obtain ⟨inside, rfl⟩ := List.getElem?_eq_some_iff.mp hheld
    have inside' := each.length_eq ▸ inside
    refine ⟨_, ?_, (each.get inside inside').2⟩
    rw [List.getElem?_append_left inside', List.getElem?_eq_getElem inside']
    rfl

theorem Sound.run? (sound : Sound start s) {asked : List (Place × Request α)}
    (ran : s.run? asked = some s') : Sound start s' ∧ s.Extends s' := by
  induction asked generalizing s with
  | nil =>
      obtain rfl := Option.some.inj ran
      exact ⟨sound, .refl s⟩
  | cons ask rest ih =>
      rw [Session.run?, List.foldlM_cons] at ran
      obtain ⟨s₁, hstep, hrest⟩ := Option.bind_eq_some_iff.mp ran
      obtain ⟨⟨answer, s₂⟩, hask, rfl⟩ := Option.map_eq_some_iff.mp hstep
      obtain ⟨sound₁, ext⟩ := sound.ask? hask
      obtain ⟨sound', ext'⟩ := ih sound₁ hrest
      exact ⟨sound', ext.trans ext'⟩

/-- What an equation keeps does not show in its answers. It is what would be derived now, and it
never changes. -/
theorem keeping_transparent {asked more : List (Place × Request α)}
    (fresh : ∀ eq ∈ start, eq = eq.afresh) (ran : start.run? asked = some s)
    (ranOn : s.run? more = some s') {place : Place} {eq : Equation α}
    (found : s.at? place = some eq) :
    (∀ request, (eq.ask request).1.bare = (eq.afresh.ask request).1.bare) ∧
      (∀ partials, eq.first = some partials → partials.length = eq.size ∧
        partials.map expr = (List.range eq.size).map eq.expr.derivative) ∧
      (∀ partials, eq.second = some partials → partials.length = eq.size * (eq.size + 1) / 2 ∧
        partials.map expr = (upperTriangle eq.size).map fun (row, column) =>
          (eq.expr.derivative row).derivative column) ∧
      (eq.second ≠ none → eq.first ≠ none) ∧
      ∃ eq', s'.at? place = some eq' ∧ eq'.bare = eq.bare ∧
        ∀ degree partials, eq.kept degree = some partials →
          ∃ partials', eq'.kept degree = some partials' ∧
            partials'.map Equation.bare = partials.map Equation.bare := by
  obtain ⟨sound, -⟩ := (sound_start fresh).run? ran
  obtain ⟨eqSound, -⟩ := sound.at? found
  obtain ⟨-, ext⟩ := sound.run? ranOn
  refine ⟨?_, ?_, ?_, eqSound.grounded, ext.at? found⟩
  · intro request
    rw [← eqSound.built, eqSound.ask_bare]
  · intro partials first
    have kept : eq.kept .first = some partials := first
    have same := eqSound.kept kept
    refine ⟨?_, ?_⟩
    · rw [← List.length_map, same, derivedAfresh, List.length_map, List.length_range]
    · rw [map_eq_of_map_bare (fun _ => rfl) same, derivedAfresh, List.map_map]
      rfl
  · intro partials second
    have kept : eq.kept .second = some partials := second
    have same := eqSound.kept kept
    refine ⟨?_, ?_⟩
    · rw [← List.length_map, same, derivedAfresh, List.length_map, length_upperTriangle]
    · rw [map_eq_of_map_bare (fun _ => rfl) same, derivedAfresh, List.map_map]
      rfl

/-- Of a product the second partials are asked for, then the gradient of a first partial in its
place, then a copy. -/
theorem keeping_transparent_product :
    let start : Session Float :=
      [(ofParts "x*y" (.binary .mul (.var "x" 0) (.var "y" 1)) ⟨["x", "y"]⟩).value]
    let byY : Place := ⟨0, [(.first, 1)]⟩
    let asked : List (Place × Request Float) :=
      [(⟨0, []⟩, .secondPartials), (byY, .gradient [2, 3]), (⟨0, []⟩, .copy)]
    let more : List (Place × Request Float) :=
      [(byY, .secondPartial 1 0), (⟨1, []⟩, .hessian [1, 1])]
    (∀ eq ∈ start, eq = eq.afresh) ∧
      ∃ s s' eq, start.run? asked = some s ∧ s.run? more = some s' ∧ s.at? byY = some eq ∧
        (∀ request, (eq.ask request).1.bare = (eq.afresh.ask request).1.bare) ∧
        (∀ partials, eq.first = some partials → partials.length = eq.size ∧
          partials.map expr = (List.range eq.size).map eq.expr.derivative) ∧
        ∃ eq', s'.at? byY = some eq' ∧ eq'.bare = eq.bare := by
  intro start byY asked more
  have fresh : ∀ eq ∈ start, eq = eq.afresh := by
    intro eq member
    rw [List.mem_singleton.mp member]
    rfl
  have runs : ((start.run? asked).bind fun s =>
      (s.run? more).bind fun _ => s.at? byY).isSome := by
    decide +kernel
  obtain ⟨eq, hruns⟩ := Option.isSome_iff_exists.mp runs
  obtain ⟨s, ran, hmore⟩ := Option.bind_eq_some_iff.mp hruns
  obtain ⟨s', ranOn, found⟩ := Option.bind_eq_some_iff.mp hmore
  obtain ⟨answers, first, -, -, eq', found', same, -⟩ := keeping_transparent fresh ran ranOn found
  exact ⟨fresh, s, s', eq, ran, ranOn, found, answers, first, eq', found', same⟩

end Session

end Formula
