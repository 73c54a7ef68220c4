import Formula.Proofs.Buffer
import Formula.Proofs.Equation.Reached

/-!
The many ways to the value of a derivative: whole gradients and Hessians, single partials, and
derivatives by name. They all lead to the same number.
-/

set_option autoImplicit false

namespace Formula

namespace Equation

variable {α : Type} [Width α] {eq : Equation α}

theorem map_eq_ok {β γ ε : Type} {f : β → γ} {result : Except ε β} {c : γ}
    (mapped : result.map f = .ok c) : ∃ b, result = .ok b ∧ f b = c := by
  cases result with
  | error => contradiction
  | ok b => exact ⟨b, rfl, Except.ok.inj mapped⟩

theorem evaluate_ok {q : Equation α} {result : Except EquationError (Equation α)}
    (answer : result.map bare = .ok q) {point : List α} (length : point.length = q.size) :
    result.bind (·.evaluate point) = .ok (q.compiled.call point) := by
  obtain ⟨p, rfl, rfl⟩ := map_eq_ok answer
  have check : p.checkPoint point = .ok () := if_pos length
  change p.evaluate point = _
  rw [evaluate, check]
  rfl

namespace Sound

theorem writeFrom?_ok (sound : eq.Sound) (point : List α) {row : List α}
    (room : row.length = eq.size) :
    Row.writeFrom? 0 (eq.firstPartials.value.1.map (·.compiled.call point)) row =
      some ((List.range eq.size).map (eq.firstValue point)) := by
  rw [sound.yields_firstPartials.firstValues]
  refine Row.writeFrom?_zero ?_
  rw [List.length_map, List.length_range, room]

theorem writeGradient_ok (sound : eq.Sound) {point row : List α} (length : point.length = eq.size)
    (room : row.length = eq.size) :
    (eq.writeGradient point row).value.1 =
      ⟨.ok (), (List.range eq.size).map (eq.firstValue point)⟩ := by
  simp only [writeGradient, checkPoint, if_pos length, room, ne_eq, not_true_eq_false, if_false,
    Logged.value_bind, Logged.value_pure, sound.writeFrom?_ok point room, Option.getD_some]

theorem gradient_ok (sound : eq.Sound) {point : List α} (length : point.length = eq.size) :
    (eq.gradient point).value.1 = .ok ((List.range eq.size).map (eq.firstValue point)) := by
  have room : (List.replicate eq.size (0 : α)).length = eq.size := List.length_replicate
  have written := sound.writeGradient_ok length room
  simp only [gradient, Logged.value_bind, Logged.value_pure, written]
  rfl

/-- No write of a Hessian is outside of a grid that has a square for the variables. -/
theorem writeAll?_ok (sound : eq.Sound) (point : List α) {grid : Grid α}
    (room : grid.dimensions = (eq.size, eq.size)) :
    ∃ grid', Grid.writeAll? ((upperTriangle eq.size).zip
        (eq.secondPartials.value.1.map (·.compiled.call point))) grid = some grid' ∧
      grid'.shape = grid.shape ∧ ∀ r c, grid'.at? r c =
        if r < eq.size ∧ c < eq.size then some (eq.secondValue point (min r c, max r c))
        else grid.at? r c := by
  have upper : ∀ key ∈ upperTriangle eq.size, key.1 ≤ key.2 :=
    fun key member => (mem_upperTriangle.mp member).1
  have inside : ∀ key ∈ upperTriangle eq.size,
      grid.Inside key.1 key.2 ∧ grid.Inside key.2 key.1 := by
    intro key member
    obtain ⟨hle, hlt⟩ := mem_upperTriangle.mp member
    have hrow := Nat.lt_of_le_of_lt hle hlt
    exact ⟨Grid.inside_of_dimensions room hrow hlt, Grid.inside_of_dimensions room hlt hrow⟩
  obtain ⟨grid', hwrite, hshape, hentry⟩ :=
    Grid.writeAll?_upper (eq.secondValue point) upper inside
  refine ⟨grid', ?_, hshape, ?_⟩
  · rw [sound.yields_secondPartials.secondValues, ← List.map_prod_left_eq_zip, hwrite]
  · intro r c
    have square : (min r c, max r c) ∈ upperTriangle eq.size ↔ r < eq.size ∧ c < eq.size := by
      rw [mem_upperTriangle]
      omega
    rw [hentry]
    simp only [square]

theorem writeHessian_of_writeAll? (sound : eq.Sound) {point : List α} {grid grid' : Grid α}
    (length : point.length = eq.size) (room : grid.dimensions = (eq.size, eq.size))
    (written : Grid.writeAll? ((upperTriangle eq.size).zip
      (eq.secondPartials.value.1.map (·.compiled.call point))) grid = some grid') :
    (eq.writeHessian point grid).value.1 = ⟨.ok (), grid'⟩ := by
  simp only [writeHessian, checkPoint, if_pos length, room, ne_eq, not_true_eq_false, if_false,
    Logged.value_bind, Logged.value_pure, sound.yields_secondPartials.grows.size_eq, written,
    Option.getD_some]

/-- The Hessian is written into the square of the variables, and nothing else is. -/
theorem writeHessian_ok (sound : eq.Sound) {point : List α} {grid : Grid α}
    (length : point.length = eq.size) (room : grid.dimensions = (eq.size, eq.size)) :
    ∃ grid', (eq.writeHessian point grid).value.1 = ⟨.ok (), grid'⟩ ∧ grid'.shape = grid.shape ∧
      ∀ r c, grid'.at? r c =
        if r < eq.size ∧ c < eq.size then some (eq.secondValue point (min r c, max r c))
        else grid.at? r c := by
  obtain ⟨grid', written, holds⟩ := sound.writeAll?_ok point room
  exact ⟨grid', sound.writeHessian_of_writeAll? length room written, holds⟩

theorem hessian_ok (sound : eq.Sound) {point : List α} (length : point.length = eq.size) :
    ∃ grid, (eq.hessian point).value.1 = .ok grid ∧
      grid.shape = List.replicate eq.size eq.size ∧
      ∀ r < eq.size, ∀ c < eq.size,
        grid.at? r c = some (eq.secondValue point (min r c, max r c)) := by
  obtain ⟨grid, written, hshape, hentry⟩ :=
    sound.writeHessian_ok length (Grid.dimensions_zeros eq.size)
  refine ⟨grid, ?_, hshape.trans (Grid.shape_zeros _ _), ?_⟩
  · simp only [hessian, Logged.value_bind, Logged.value_pure, written]
    rfl
  · intro r hr c hc
    rw [hentry, if_pos ⟨hr, hc⟩]

theorem partialBy_evaluate (sound : eq.Sound) {point : List α} (length : point.length = eq.size)
    {slot : Nat} (inside : slot < eq.size) :
    (eq.partialBy slot).value.bind (·.evaluate point) = .ok (eq.firstValue point slot) := by
  have answer := sound.partialBy_value slot
  rw [checkSlot_of_lt inside] at answer
  exact evaluate_ok answer length

theorem partialByName_evaluate (sound : eq.Sound) {point : List α}
    (length : point.length = eq.size) {name : String} {slot : Nat}
    (found : eq.vars.slot? name = some slot) :
    (eq.partialByName name).value.1.bind (·.evaluate point) = .ok (eq.firstValue point slot) := by
  have answer := sound.partialByName_value name
  rw [found] at answer
  exact evaluate_ok answer length

theorem secondPartial_evaluate (sound : eq.Sound) {point : List α}
    (length : point.length = eq.size) {row column : Nat} (hrow : row < eq.size)
    (hcolumn : column < eq.size) :
    (eq.secondPartial row column).value.1.bind (·.evaluate point) =
      .ok (eq.secondValue point (min row column, max row column)) := by
  have answer := sound.secondPartial_value row column
  rw [checkSlot_of_lt hrow, checkSlot_of_lt hcolumn] at answer
  exact evaluate_ok answer length

theorem partialBy_partialBy_evaluate (sound : eq.Sound) {point : List α}
    (length : point.length = eq.size) {first second : Nat} (hfirst : first < eq.size)
    (hsecond : second < eq.size) :
    ((eq.partialBy first).value.bind fun p => (p.partialBy second).value).bind
      (·.evaluate point) = .ok (eq.secondValue point (first, second)) := by
  have answer := sound.partialBy_value first
  rw [checkSlot_of_lt hfirst] at answer
  obtain ⟨p, hp, same⟩ := map_eq_ok answer
  have hsize : p.bare.size = eq.size := by
    rw [same]
    rfl
  have hvalue : p.bare.firstValue point second = eq.secondValue point (first, second) := by
    rw [same]
    rfl
  rw [hp, ← hvalue]
  exact (sound.partialBy_ok hp).1.partialBy_evaluate (length.trans hsize.symm)
    (hsecond.trans_eq hsize.symm)

end Sound

theorem deriveBy_of_known {names : List String}
    (known : ∀ name ∈ names, (eq.vars.slot? name).isSome) :
    (eq.deriveBy names).value =
      .ok (ofExpr ((names.filterMap eq.vars.slot?).foldl (fun e slot => e.derivative slot) eq.expr)
        eq.vars).value := by
  have none : (names.filter fun name => (eq.vars.slot? name).isNone) = [] := by
    rw [List.filter_eq_nil_iff]
    intro name member
    simp [Option.isSome_iff_ne_none.mp (known name member)]
  rw [deriveBy, none]
  rfl

theorem deriveBy_pair_evaluate {point : List α} (length : point.length = eq.size)
    {first second : String} {row column : Nat} (hfirst : eq.vars.slot? first = some row)
    (hsecond : eq.vars.slot? second = some column) :
    (eq.deriveBy [first, second]).value.bind (·.evaluate point) =
      .ok (eq.secondValue point (row, column)) := by
  have known : ∀ name ∈ [first, second], (eq.vars.slot? name).isSome := by
    simp [hfirst, hsecond]
  have slots : [first, second].filterMap eq.vars.slot? = [row, column] := by
    simp [hfirst, hsecond]
  have answer := deriveBy_of_known known
  rw [slots] at answer
  rw [answer]
  exact evaluate_ok rfl length

end Equation

namespace Session

open Equation

variable {α : Type} [Width α] {start s : Session α}

/-- Every way to a first or a second derivative at a point leads to the same number, whatever has
been asked before. -/
theorem routes_agree {asked : List (Place × Request α)}
    (fresh : ∀ eq ∈ start, eq = eq.afresh)
    (named : ∀ eq ∈ start, ∃ names, eq.vars = .ofNames names)
    (ran : start.run? asked = some s) {place : Place} {eq : Equation α}
    (found : s.at? place = some eq) {point : List α} (length : point.length = eq.size) :
    (∃ row, (eq.gradient point).value.1 = .ok row ∧ row.length = eq.size ∧
      ∀ r < eq.size, ∃ name v, eq.vars.name? r = some name ∧ row[r]? = some v ∧
        (eq.partialBy r).value.bind (·.evaluate point) = .ok v ∧
        (eq.partialByName name).value.1.bind (·.evaluate point) = .ok v) ∧
    ∃ grid, (eq.hessian point).value.1 = .ok grid ∧ grid.length = eq.size ∧
      (∀ row ∈ grid, row.length = eq.size) ∧
      ∀ r < eq.size, ∀ c < eq.size, ∃ a b v,
        eq.vars.name? (min r c) = some a ∧ eq.vars.name? (max r c) = some b ∧
        grid.at? r c = some v ∧ grid.at? c r = some v ∧
        (eq.secondPartial r c).value.1.bind (·.evaluate point) = .ok v ∧
        ((eq.partialBy (min r c)).value.bind fun p => (p.partialBy (max r c)).value).bind
          (·.evaluate point) = .ok v ∧
        (eq.deriveBy [a, b]).value.bind (·.evaluate point) = .ok v ∧
        triangularIndex eq.size (min r c) (max r c) < eq.secondPartials.value.1.length := by
  obtain ⟨sound, -⟩ := (sound_start fresh).run? ran
  obtain ⟨sound, first, member, isPartial⟩ := sound.at? found
  obtain ⟨names, hnames⟩ := named first member
  have hvars : eq.vars = .ofNames names := isPartial.1.trans hnames
  have hsize : eq.size = (Variables.ofNames names).size := by rw [Equation.size, hvars]
  constructor
  · refine ⟨_, sound.gradient_ok length, by simp, ?_⟩
    intro r hr
    obtain ⟨name, hname, hslot⟩ := Variables.exists_name? names (hsize ▸ hr)
    rw [← hvars] at hname hslot
    refine ⟨name, eq.firstValue point r, hname, ?_, sound.partialBy_evaluate length hr,
      sound.partialByName_evaluate length hslot⟩
    rw [List.getElem?_map, List.getElem?_range hr, Option.map_some]
  · obtain ⟨grid, hgrid, hshape, hentry⟩ := sound.hessian_ok length
    refine ⟨grid, hgrid, ?_, ?_, ?_⟩
    · rw [← List.length_map, ← Grid.shape, hshape, List.length_replicate]
    · intro row member
      have member' : row.length ∈ grid.shape := List.mem_map_of_mem member
      rw [hshape] at member'
      exact List.eq_of_mem_replicate member'
    · intro r hr c hc
      have hmin : min r c < eq.size := Nat.lt_of_le_of_lt (Nat.min_le_left _ _) hr
      have hmax : max r c < eq.size := Nat.max_lt.mpr ⟨hr, hc⟩
      obtain ⟨a, ha, haslot⟩ := Variables.exists_name? names (hsize ▸ hmin)
      obtain ⟨b, hb, hbslot⟩ := Variables.exists_name? names (hsize ▸ hmax)
      rw [← hvars] at ha haslot hb hbslot
      refine ⟨a, b, eq.secondValue point (min r c, max r c), ha, hb, hentry r hr c hc, ?_,
        sound.secondPartial_evaluate length hr hc,
        sound.partialBy_partialBy_evaluate length hmin hmax,
        deriveBy_pair_evaluate length haslot hbslot, ?_⟩
      · rw [hentry c hc r hr, min_comm, max_comm]
      · have entry := sound.yields_secondPartials.map_getElem?_second
          (Nat.le_trans (Nat.min_le_left r c) (Nat.le_max_left r c)) hmax
        obtain ⟨p, hp, -⟩ := Option.map_eq_some_iff.mp entry
        exact (List.getElem?_eq_some_iff.mp hp).1

/-- The square of a difference: its second partials by both variables are at hand already. -/
theorem routes_agree_difference :
    let start : Session Float :=
      [(ofParts "(x-y)^2" (.binary .pow (.binary .sub (.var "x" 0) (.var "y" 1)) (.const 2))
        (.ofNames ["y", "x"])).value]
    let here : Place := ⟨0, []⟩
    (∀ eq ∈ start, eq = eq.afresh) ∧ (∀ eq ∈ start, ∃ names, eq.vars = .ofNames names) ∧
      ∃ s eq, start.run? [(here, .secondPartials)] = some s ∧ s.at? here = some eq ∧
        eq.size = 2 ∧ ∃ row grid, (eq.gradient [3, 1]).value.1 = .ok row ∧ row.length = 2 ∧
          (eq.hessian [3, 1]).value.1 = .ok grid ∧
          ∃ v, grid.at? 1 0 = some v ∧ grid.at? 0 1 = some v ∧
            (eq.deriveBy ["x", "y"]).value.bind (·.evaluate [3, 1]) = .ok v := by
  intro start here
  have fresh : ∀ eq ∈ start, eq = eq.afresh := by
    intro eq member
    rw [List.mem_singleton.mp member]
    rfl
  have named : ∀ eq ∈ start, ∃ names, eq.vars = .ofNames names := by
    intro eq member
    rw [List.mem_singleton.mp member]
    exact ⟨_, rfl⟩
  have runs : ((start.run? [(here, .secondPartials)]).bind (·.at? here)).map (·.vars) =
      some ⟨["x", "y"]⟩ := by
    decide +kernel
  obtain ⟨eq, hruns, hvars⟩ := Option.map_eq_some_iff.mp runs
  obtain ⟨s, ran, found⟩ := Option.bind_eq_some_iff.mp hruns
  have hsize : eq.size = 2 := by
    rw [Equation.size, hvars]
    rfl
  have length : ([3, 1] : List Float).length = eq.size := hsize.symm
  obtain ⟨⟨row, hrow, hlength, -⟩, grid, hgrid, -, -, entries⟩ :=
    routes_agree fresh named ran found length
  obtain ⟨a, b, v, ha, hb, below, above, -, -, byNames, -⟩ :=
    entries 1 (by omega) 0 (by omega)
  rw [hvars] at ha hb
  obtain rfl : "x" = a := Option.some.inj ha
  obtain rfl : "y" = b := Option.some.inj hb
  exact ⟨fresh, named, s, eq, ran, found, hsize, row, grid, hrow, hlength.trans hsize, hgrid, v,
    below, above, byNames⟩

end Session

end Formula
