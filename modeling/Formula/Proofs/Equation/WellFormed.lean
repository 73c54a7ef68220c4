import Formula.Proofs.Equation.Reached
import Formula.Proofs.Expr.Read
import Formula.Proofs.Expr.Value
import Formula.Proofs.Program.Slots

/-!
The equations that can be reached from a text. Whatever is derived on the way, names and slots go
together, the expression is folded, and no value at a point of the right length is missing.
-/

set_option autoImplicit false

namespace Formula

theorem Expr.Folded.hasVariable_iff {α : Type} {e : Expr α} (folded : e.Folded) :
    e.hasVariable = false ↔ e.isConst := by
  induction e with
  | const c => exact iff_of_true rfl rfl
  | var name slot => exact iff_of_false nofun nofun
  | neg body ih =>
      refine iff_of_false ?_ nofun
      exact fun none => folded.1 ((ih folded.2).mp none)
  | binary op left right ihleft ihright =>
      refine iff_of_false ?_ nofun
      intro none
      obtain ⟨noLeft, noRight⟩ := Bool.or_eq_false_iff.mp none
      exact folded.1 ⟨(ihleft folded.2.1).mp noLeft, (ihright folded.2.2).mp noRight⟩
  | call f argument ih =>
      refine iff_of_false ?_ nofun
      exact fun none => folded.1 ((ih folded.2).mp none)

namespace Equation

variable {α : Type} [Width α]

theorem exists_of_read {source : String} {eq : Equation α} (ok : (read source).value = .ok eq) :
    ∃ e v, Expr.read source = .ok (e, v) ∧ eq = (ofParts source e v).value := by
  unfold read at ok
  split at ok
  · contradiction
  · rename_i e v hread
    exact ⟨e, v, hread, (Except.ok.inj ok).symm⟩

theorem read_of_read {source : String} {e : Expr Float} {v : Variables}
    (ok : Expr.read source = .ok (e, v)) :
    (read source).value = .ok (ofParts source e v : Logged (Equation α)).value := by
  rw [read, ok]
  rfl

theorem read_of_error {source : String} {error : EquationError}
    (failed : Expr.read source = .error error) :
    (read source : Logged (Except EquationError (Equation α))).value = .error error := by
  rw [read, failed]
  rfl

/-- What is known of an equation that has been reached from another one. -/
structure WellFormed (start eq : Equation α) : Prop where
  vars : eq.vars = start.vars
  name? : ∀ name slot, (name, slot) ∈ eq.expr.vars → eq.vars.name? slot = some name
  subset : eq.expr.vars ⊆ start.expr.vars
  folded : eq.expr.Folded
  constant : (eq.expr.constantValue? : Option α).isSome ↔ eq.expr.isConst
  present : ∀ point : List α, point.length = eq.size → ∀ p, eq.compiled = .program p →
    ∀ slot ∈ slotsRead p.instrs, ∃ v, point[slot]? = some v

theorem wellFormed_of_isPartialOf {source : String} {start eq : Equation α}
    (read : Expr.ReadFrom source start.expr start.vars) (sound : eq.Sound)
    (isPartial : eq.IsPartialOf start) : WellFormed start eq := by
  obtain ⟨hvars, slots, -, hexpr⟩ := isPartial
  have within : eq.expr.Within start.expr.vars := by
    rw [hexpr]
    exact Expr.Within.foldl_derivative ⟨read.folded, subset_rfl⟩ slots
  have named (name : String) (slot : Nat) (member : (name, slot) ∈ eq.expr.vars) :
      eq.vars.name? slot = some name := by
    rw [hvars]
    exact Variables.name?_of_slot? (read.slot? name slot (within.subset member))
  refine ⟨hvars, named, within.subset, within.folded, ?_, ?_⟩
  · rw [Expr.constantValue?_eq eq.expr [], ← within.folded.hasVariable_iff]
    cases eq.expr.hasVariable <;> simp
  · intro point length p compiled slot member
    have built : (Compiled.ofExpr eq.expr).value = eq.compiled :=
      (congrArg Equation.compiled sound.built).symm
    obtain ⟨name, occurs⟩ := Compiled.mem_vars_of_mem_slotsRead (built.trans compiled) member
    obtain ⟨inside, -⟩ := List.getElem?_eq_some_iff.mp (named name slot occurs)
    exact ⟨_, List.getElem?_eq_getElem (length ▸ inside)⟩

end Equation

namespace Session

open Equation

variable {α : Type} [Width α]

/-- Whatever is reached from an equation that has just been built is a sound partial of it. -/
theorem reached_from {start eq : Equation α} (fresh : start = start.afresh)
    {asked : List (Place × Request α)} {s : Session α} (ran : run? [start] asked = some s)
    {place : Place} (found : s.at? place = some eq) : eq.Sound ∧ eq.IsPartialOf start := by
  have each : ∀ eq ∈ [start], eq = eq.afresh := by
    intro eq member
    rwa [List.mem_singleton.mp member]
  obtain ⟨sound, -⟩ := (sound_start each).run? ran
  obtain ⟨eqSound, first, member, isPartial⟩ := sound.at? found
  rw [List.mem_singleton.mp member] at isPartial
  exact ⟨eqSound, isPartial⟩

/-- Names are never missing where a text is read, and all that is reached from its equation is well
formed. -/
theorem read_wellFormed (source : String) :
    (∀ name, Expr.read source ≠ .error (.variableNotFound name)) ∧
      ∀ e v, Expr.read source = .ok (e, v) →
        (∀ name, name ∈ v.names ↔ name ∈ e.names) ∧
        (∀ name ∈ v.names, UnaryFn.ofName? name = none ∧ namedConstant? name = none) ∧
        ∃ start : Equation α, (Equation.read source).value = .ok start ∧ start.expr = e ∧
          start.vars = v ∧
          ∀ asked s place eq, run? [start] asked = some s → s.at? place = some eq →
            WellFormed start eq := by
  refine ⟨Expr.read_ne_variableNotFound source, ?_⟩
  intro e v ok
  have read := Expr.readFrom_of_read ok
  refine ⟨read.mem_names_iff, fun name member => not_reserved (read.scan name member),
    _, read_of_read ok, rfl, rfl, ?_⟩
  intro asked s place eq ran found
  obtain ⟨sound, isPartial⟩ := reached_from rfl ran found
  exact wellFormed_of_isPartialOf read sound isPartial

theorem read_sine_power :
    Expr.read "sin(y) * x^z" =
      .ok (.binary .mul (.call .sin (.var "y" 1)) (.binary .pow (.var "x" 0) (.var "z" 2)),
        ⟨["x", "y", "z"]⟩) := by
  cbv

/-- From a sine times a power, a second partial of the first partial by `x` is reached. -/
theorem read_wellFormed_sine_power :
    let source := "sin(y) * x^z"
    let byX : Place := ⟨0, [(.first, 0)]⟩
    let asked : List (Place × Request Float) := [(⟨0, []⟩, .firstPartials), (byX, .secondPartials)]
    ∃ start s eq, (Equation.read source).value = .ok start ∧ run? [start] asked = some s ∧
      s.at? ⟨0, [(.first, 0), (.second, 1)]⟩ = some eq ∧ start.vars.names = ["x", "y", "z"] ∧
      (∀ name, name ∈ start.vars.names ↔ name ∈ start.expr.names) ∧ WellFormed start eq := by
  intro source byX asked
  let e : Expr Float :=
    .binary .mul (.call .sin (.var "y" 1)) (.binary .pow (.var "x" 0) (.var "z" 2))
  let v : Variables := ⟨["x", "y", "z"]⟩
  have ok : Expr.read source = .ok (e, v) := read_sine_power
  obtain ⟨names, -, start, hread, -, -, reached⟩ := (@read_wellFormed Float _ source).2 e v ok
  obtain rfl : start = (ofParts source e v).value :=
    Except.ok.inj (hread.symm.trans (read_of_read ok))
  have runs : ((run? [(ofParts source e v).value] asked).bind
      (·.at? ⟨0, [(.first, 0), (.second, 1)]⟩)).isSome := by
    decide +kernel
  obtain ⟨eq, hruns⟩ := Option.isSome_iff_exists.mp runs
  obtain ⟨s, ran, found⟩ := Option.bind_eq_some_iff.mp hruns
  exact ⟨_, s, eq, hread, ran, found, rfl, names, reached asked s _ eq ran found⟩

end Session

end Formula
