import Formula.Proofs.Program.Machine
import Formula.Proofs.Program.Optimize

/-!
Balanced programs: those of which every instruction finds its operands, however many values they
leave behind. Balance is a matter of heights alone, so it depends on no point. A balanced program
always has an outcome, and optimising keeps all of it.
-/

set_option autoImplicit false

namespace Formula

variable {α : Type}

/-- The number of values that an instruction takes off the stack. -/
def Instr.operands : Instr α → Nat
  | const _ | slot _ => 0
  | unary _ => 1
  | binary _ => 2

/-- That on a stack of a height every instruction finds its operands, each leaving one value in
their place. -/
def Balanced (height : Nat) : List (Instr α) → Prop
  | [] => True
  | i :: rest => i.operands ≤ height ∧ Balanced (height - i.operands + 1) rest

instance Balanced.decidable (height : Nat) (instrs : List (Instr α)) :
    Decidable (Balanced height instrs) :=
  match instrs with
  | [] => .isTrue trivial
  | i :: rest =>
      have := decidable (height - i.operands + 1) rest
      inferInstanceAs (Decidable (i.operands ≤ height ∧ Balanced (height - i.operands + 1) rest))

variable [Width α] {point : List α}

theorem Instr.exists_exec?_iff {i : Instr α} {s : List α} :
    (∃ t, i.exec? point s = some t) ↔ i.operands ≤ s.length := by
  cases i with
  | const c => exact iff_of_true ⟨_, rfl⟩ (Nat.zero_le _)
  | slot index => exact iff_of_true ⟨_, rfl⟩ (Nat.zero_le _)
  | unary op =>
      cases s with
      | nil => exact iff_of_false nofun nofun
      | cons a s => exact iff_of_true ⟨_, rfl⟩ (Nat.le_add_left _ _)
  | binary op =>
      match s with
      | [] => exact iff_of_false nofun nofun
      | [a] => exact iff_of_false nofun (Nat.not_succ_le_self 1)
      | b :: a :: s => exact iff_of_true ⟨_, rfl⟩ (Nat.le_add_left _ _)

theorem Instr.height_of_exec? {i : Instr α} {s t : List α} (done : i.exec? point s = some t) :
    t.length = s.length - i.operands + 1 := by
  have found : i.operands ≤ s.length := exists_exec?_iff.mp ⟨t, done⟩
  have height := length_of_exec? done
  have effect : i.effect = 1 - (i.operands : Int) := by cases i <;> rfl
  omega

/-- A program has an outcome on a stack exactly if it is balanced there. -/
theorem exists_exec?_iff_balanced {instrs : List (Instr α)} {s : List α} :
    (∃ t, exec? point instrs s = some t) ↔ Balanced s.length instrs := by
  induction instrs generalizing s with
  | nil => exact iff_of_true ⟨s, rfl⟩ trivial
  | cons i rest ih =>
      constructor
      · rintro ⟨t, done⟩
        rw [exec?_cons, Option.bind_eq_some_iff] at done
        obtain ⟨u, step, after⟩ := done
        rw [Balanced, ← Instr.height_of_exec? step]
        exact ⟨Instr.exists_exec?_iff.mp ⟨u, step⟩, ih.mp ⟨t, after⟩⟩
      · rintro ⟨found, balanced⟩
        obtain ⟨u, step⟩ : ∃ u, i.exec? point s = some u := Instr.exists_exec?_iff.mpr found
        rw [← Instr.height_of_exec? step] at balanced
        obtain ⟨t, after⟩ := ih.mpr balanced
        exact ⟨t, by rw [exec?_cons, step, Option.bind_some, after]⟩

/-- Optimising a balanced program keeps everything that it leaves on the stack, and so does the
machine that runs either of the two. -/
theorem Program.optimize_keeps_stack [Width.Lawful α] {p : Program α}
    (balanced : Balanced 0 p.instrs) (point : List α) :
    Balanced 0 p.optimize.value.instrs ∧
      ∃ s, exec? point p.instrs [] = some s ∧ exec? point p.optimize.value.instrs [] = some s ∧
        ∀ size, p.stackDepth ≤ size → p.optimize.value.stackDepth ≤ size →
          ∃ m m', (Stack.empty size).run? point p.instrs = some m ∧
            (Stack.empty size).run? point p.optimize.value.instrs = some m' ∧
            m.Holds s ∧ m'.Holds s := by
  obtain ⟨s, done⟩ := exists_exec?_iff_balanced (s := []).mpr balanced
  have optimized : exec? point p.optimize.value.instrs [] = some s := exec?_optimizeRounds done
  refine ⟨exists_exec?_iff_balanced (s := []).mp ⟨s, optimized⟩, s, done, optimized, ?_⟩
  intro size room room'
  obtain ⟨m, runs, holds⟩ := Program.holds_of_exec? done room
  obtain ⟨m', runs', holds'⟩ := Program.holds_of_exec? optimized room'
  exact ⟨m, m', runs, runs', holds, holds'⟩

/-- A program that leaves two values. Its constants fold, its powers become cheaper, and two of its
signs meet once the power between them is gone. -/
theorem Program.optimize_keeps_stack_powers :
    let p : Program Float :=
      ⟨[.slot 0, .const 2, .const 3, .binary .mul, .unary .neg, .binary .sub, .unary .neg,
        .unary (.powInt 1), .unary .neg, .slot 1, .unary (.powInt 2)], some 1, none⟩
    Balanced 0 p.instrs ∧ Width.Lawful Float ∧
      exec? [5, 3] p.instrs [] = some [9, 11] ∧
      exec? [5, 3] p.optimize.value.instrs [] = some [9, 11] := by
  intro p
  have balanced : Balanced 0 p.instrs := by decide
  obtain ⟨-, s, done, optimized, -⟩ := Program.optimize_keeps_stack balanced [5, 3]
  have before : exec? [5, 3] p.instrs [] = some [9, 11] := by decide +kernel
  rw [before] at done
  rw [← done] at optimized
  exact ⟨balanced, inferInstance, before, optimized⟩

end Formula
