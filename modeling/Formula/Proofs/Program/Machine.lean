import Formula.Program
import Formula.Proofs.Program.Meaning

/-!
The stack machine against the stack without bounds: with as many places as a program needs, the
machine comes to the end of every program that has an outcome, and holds that outcome then.
-/

set_option autoImplicit false

namespace Formula

variable {α : Type}

theorem le_peakHeight (height peak : Int) (instrs : List (Instr α)) :
    peak ≤ peakHeight height peak instrs := by
  induction instrs generalizing height peak with
  | nil => exact Int.le_refl _
  | cons i rest ih => exact Int.le_trans (Int.le_max_left _ _) (ih _ _)

theorem height_le_peakHeight (height peak : Int) (i : Instr α) (rest : List (Instr α)) :
    height + i.effect ≤ peakHeight height peak (i :: rest) :=
  Int.le_trans (Int.le_max_right _ _) (le_peakHeight _ _ rest)

namespace Stack

/-- The places in use hold a list, with its first element on top. -/
structure Holds (m : Stack α) (s : List α) : Prop where
  height : m.height = s.length
  places : s.reverse <+: m.places.toList

theorem holds_empty [Zero α] (size : Nat) : (empty size : Stack α).Holds [] :=
  ⟨rfl, List.nil_prefix⟩

theorem Holds.top {m : Stack α} {a : α} {s : List α} (held : m.Holds (a :: s)) :
    m.places[s.length]? = some a := by
  obtain ⟨free, hplaces⟩ := held.places
  rw [← Array.getElem?_toList, ← hplaces, List.reverse_cons, List.append_assoc,
    List.getElem?_append_right (by simp)]
  simp

theorem Holds.below {m : Stack α} {a b : α} {s : List α} (held : m.Holds (b :: a :: s)) :
    m.places[s.length]? = some a := by
  obtain ⟨free, hplaces⟩ := held.places
  rw [← Array.getElem?_toList, ← hplaces, List.reverse_cons, List.reverse_cons, List.append_assoc,
    List.append_assoc, List.getElem?_append_right (by simp)]
  simp

/-- Writing above a held list puts the value on top of it. -/
theorem exists_write? {m : Stack α} {s : List α} (held : s.reverse <+: m.places.toList)
    (room : s.length < m.places.size) (a : α) :
    ∃ m', m.write? s.length a = some m' ∧ m'.Holds (a :: s) ∧
      m'.places.size = m.places.size := by
  refine ⟨⟨m.places.set s.length a room, s.length + 1⟩, dif_pos room, ⟨rfl, ?_⟩, by simp⟩
  obtain ⟨free, hplaces⟩ := held
  cases free with
  | nil =>
      have hsize := congrArg List.length hplaces
      simp at hsize
      omega
  | cons old free =>
      refine ⟨free, ?_⟩
      rw [Array.toList_set, ← hplaces, List.set_append_right _ _ (by simp)]
      simp

variable [Width α]

/-- One instruction keeps machine and list together, if there is room for its value. -/
theorem exists_step? {m : Stack α} {point s t : List α} {i : Instr α} (held : m.Holds s)
    (done : i.exec? point s = some t) (room : s.length + i.effect ≤ m.places.size) :
    ∃ m', m.step? point i = some m' ∧ m'.Holds t ∧ m'.places.size = m.places.size := by
  have hheight := held.height
  unfold Instr.exec? at done
  split at done
  · obtain rfl := Option.some.inj done
    simp only [Instr.effect] at room
    rw [step?, push?, hheight]
    exact exists_write? held.places (by omega) _
  · obtain rfl := Option.some.inj done
    simp only [Instr.effect] at room
    rw [step?, push?, hheight]
    exact exists_write? held.places (by omega) _
  · obtain rfl := Option.some.inj done
    rename_i op a s
    simp only [Instr.effect, List.length_cons] at room hheight
    have hbelow : s.reverse <+: m.places.toList :=
      (List.reverse_cons ▸ List.prefix_append _ _).trans held.places
    rw [step?, mapTop?, hheight]
    simp only [held.top, Option.bind_eq_bind, Option.bind_some]
    exact exists_write? hbelow (by omega) _
  · obtain rfl := Option.some.inj done
    rename_i op b a s
    simp only [Instr.effect, List.length_cons] at room hheight
    have hbelow : s.reverse <+: m.places.toList := by
      refine List.IsPrefix.trans ?_ held.places
      rw [List.reverse_cons, List.reverse_cons, List.append_assoc]
      exact List.prefix_append _ _
    have htop : m.places[s.length + 1]? = some b := held.top
    rw [step?, combine?, hheight]
    simp only [htop, held.below, Option.bind_eq_bind, Option.bind_some]
    exact exists_write? hbelow (by omega) _
  · contradiction

theorem exists_run? {m : Stack α} {point s t : List α} {instrs : List (Instr α)} {peak : Int}
    (held : m.Holds s) (done : exec? point instrs s = some t)
    (room : peakHeight s.length peak instrs ≤ m.places.size) :
    ∃ m', m.run? point instrs = some m' ∧ m'.Holds t := by
  induction instrs generalizing m s peak with
  | nil =>
      obtain rfl := Option.some.inj done
      exact ⟨m, rfl, held⟩
  | cons i rest ih =>
      rw [exec?_cons, Option.bind_eq_some_iff] at done
      obtain ⟨u, hstep, hrest⟩ := done
      have hroom := Int.le_trans (height_le_peakHeight s.length peak i rest) room
      obtain ⟨m₁, hm₁, held₁, hsize⟩ := exists_step? held hstep hroom
      have hpeak : peakHeight u.length (max peak (s.length + i.effect)) rest ≤ m₁.places.size := by
        rw [Instr.length_of_exec? hstep, hsize]
        exact room
      obtain ⟨m₂, hm₂, held₂⟩ := ih held₁ hrest hpeak
      refine ⟨m₂, ?_, held₂⟩
      rw [run?, List.foldlM_cons, hm₁]
      exact hm₂

end Stack

/-- On a stack of as many places as it needs, the machine holds the outcome of a program in the
end. -/
theorem Program.holds_of_exec? [Width α] {p : Program α} {point t : List α} {size : Nat}
    (done : exec? point p.instrs [] = some t) (room : p.stackDepth ≤ size) :
    ∃ m, (Stack.empty size).run? point p.instrs = some m ∧ m.Holds t := by
  have height : peakHeight ([] : List α).length 0 p.instrs ≤
      (Stack.empty size : Stack α).places.size := by
    have depth := Int.self_le_toNat (peakHeight 0 0 p.instrs)
    simp only [Stack.empty, Array.size_replicate, List.length_nil, Int.natCast_zero]
    rw [Program.stackDepth] at room
    omega
  exact Stack.exists_run? (Stack.holds_empty size) done height

/-- A program that leaves one value on an empty stack has that value. -/
theorem Program.run?_eq_some [Width α] {p : Program α} {point : List α} {a : α}
    (done : exec? point p.instrs [] = some [a]) : p.run? point = some a := by
  obtain ⟨m, runs, held⟩ := holds_of_exec? done (Nat.le_max_left p.stackDepth 1)
  rw [Program.run?, runs]
  exact held.top

end Formula
