import Formula.Log
import Formula.Program

/-!
Improving stack programs. One pass carries out operations on constants, the other replaces small
integer powers and drops pairs of signs. Both are repeated until neither finds anything; every
change makes the program lighter, so that comes to an end.
-/

set_option autoImplicit false

namespace Formula

variable {α : Type}

/-- The outcome of a pass: the instructions, and whether any of them was changed. -/
structure PassResult (α : Type) where
  instrs : List (Instr α)
  changed : Bool

/-- The state of constant folding. The output has its newest instruction first. The stack of the
program is followed as far as it is known: `some c` for a constant, which the newest instructions
of the output load. -/
structure Folding (α : Type) where
  output : List (Instr α)
  stack : List (Option α)
  changed : Bool

namespace Folding

def start : Folding α := ⟨[], [], false⟩

/-- Replaces the newest `loads` instructions, which load the operands, by a load of `c`. -/
def replace (s : Folding α) (loads : Nat) (c : α) : Folding α :=
  ⟨.const c :: s.output.drop loads, some c :: s.stack.drop loads, true⟩

/-- Keeps an instruction with `operands` operands, whose value is not known. -/
def keep (s : Folding α) (operands : Nat) (i : Instr α) : Folding α :=
  ⟨i :: s.output, none :: s.stack.drop operands, s.changed⟩

/-- Takes one instruction. A missing operand counts as unknown. -/
def step [Width α] (s : Folding α) : Instr α → Folding α
  | .const c => ⟨.const c :: s.output, some c :: s.stack, s.changed⟩
  | .slot index => s.keep 0 (.slot index)
  | .unary op =>
      match s.stack with
      | some a :: _ => s.replace 1 (op.eval a)
      | _ => s.keep 1 (.unary op)
  | .binary op =>
      match s.stack with
      | some b :: some a :: _ => s.replace 2 (op.eval a b)
      | some b :: rest =>
          if op = .pow then
            ⟨.unary (.powConst b) :: s.output.drop 1, none :: rest.drop 1, true⟩
          else s.keep 2 (.binary op)
      | _ => s.keep 2 (.binary op)

end Folding

/-- Carries out the operations whose operands are constants, and makes a constant exponent part
of the instruction. -/
def foldConstants [Width α] (instrs : List (Instr α)) : PassResult α :=
  let s := instrs.foldl Folding.step Folding.start
  ⟨s.output.reverse, s.changed⟩

/-- Takes one instruction of strength reduction, with the newest instruction of the output
first: the first power is dropped, the second one and the inverse are cheaper instructions, and
two signs in a row cancel. -/
def PassResult.reduce (r : PassResult α) (i : Instr α) : PassResult α :=
  match i with
  | .unary (.powInt n) =>
      if n = 1 then { r with changed := true }
      else if n = 2 then ⟨.unary .square :: r.instrs, true⟩
      else if n = -1 then ⟨.unary .reciprocal :: r.instrs, true⟩
      else { r with instrs := i :: r.instrs }
  | .unary .neg =>
      match r.instrs with
      | .unary .neg :: rest => ⟨rest, true⟩
      | _ => { r with instrs := i :: r.instrs }
  | _ => { r with instrs := i :: r.instrs }

/-- Replaces integer powers by cheaper instructions and drops pairs of signs. -/
def reduceStrength (instrs : List (Instr α)) : PassResult α :=
  let r := instrs.foldl PassResult.reduce ⟨[], false⟩
  { r with instrs := r.instrs.reverse }

/-- The weight of an instruction: more if it may be replaced by another one. -/
def Instr.weight : Instr α → Nat
  | .unary (.powInt _) => 2
  | _ => 1

def weight : List (Instr α) → Nat
  | [] => 0
  | i :: rest => i.weight + weight rest

theorem Instr.weight_pos (i : Instr α) : 0 < i.weight := by
  unfold weight
  split <;> decide

@[simp] theorem weight_nil : weight ([] : List (Instr α)) = 0 := rfl

@[simp] theorem weight_cons (i : Instr α) (l : List (Instr α)) :
    weight (i :: l) = i.weight + weight l := rfl

@[simp] theorem weight_append (l m : List (Instr α)) : weight (l ++ m) = weight l + weight m := by
  induction l with
  | nil => simp
  | cons i l ih => simp [ih, Nat.add_assoc]

@[simp] theorem weight_reverse (l : List (Instr α)) : weight l.reverse = weight l := by
  induction l with
  | nil => rfl
  | cons i l ih => simp [ih, Nat.add_comm]

theorem weight_drop_le (l : List (Instr α)) (n : Nat) : weight (l.drop n) ≤ weight l := by
  induction l generalizing n with
  | nil => simp
  | cons i l ih =>
      cases n with
      | zero => simp
      | succ n =>
          have := ih n
          simp only [List.drop_succ_cons, weight_cons]
          omega

theorem weight_drop_lt {l : List (Instr α)} (h : l ≠ []) {n : Nat} (hn : 0 < n) :
    weight (l.drop n) < weight l := by
  cases l with
  | nil => exact absurd rfl h
  | cons i l =>
      obtain ⟨m, rfl⟩ := Nat.exists_eq_succ_of_ne_zero (Nat.pos_iff_ne_zero.1 hn)
      have hrest := weight_drop_le l m
      have hpos := i.weight_pos
      simp only [List.drop_succ_cons, weight_cons]
      omega

/-- Nothing gets heavier, and what has been changed gets lighter. -/
def Lighter (before after : Nat) (changedBefore changedAfter : Bool) : Prop :=
  after ≤ before ∧ (changedAfter = true → changedBefore = true ∨ after < before)

namespace Folding

/-- As soon as anything is on the stack, there is an instruction in the output. -/
def Grounded (s : Folding α) : Prop := s.stack ≠ [] → s.output ≠ []

theorem grounded_step [Width α] (s : Folding α) (i : Instr α) : (s.step i).Grounded := by
  intro _
  unfold step
  split
  · simp
  · simp [keep]
  · split <;> simp [keep, replace]
  · split
    · simp [replace]
    · split <;> simp [keep]
    · simp [keep]

theorem lighter_replace {s : Folding α} (h : s.output ≠ []) {loads : Nat} (hloads : 0 < loads)
    (c : α) (i : Instr α) :
    Lighter (weight s.output + i.weight) (weight (s.replace loads c).output) s.changed
      (s.replace loads c).changed := by
  have hdrop := weight_drop_lt h hloads
  have hpos := i.weight_pos
  have hload : (Instr.const c).weight = 1 := rfl
  simp only [Lighter, replace, weight_cons, hload]
  omega

theorem lighter_keep (s : Folding α) (operands : Nat) (i : Instr α) :
    Lighter (weight s.output + i.weight) (weight (s.keep operands i).output) s.changed
      (s.keep operands i).changed := by
  simp only [Lighter, keep, weight_cons]
  exact ⟨by omega, .inl⟩

theorem lighter_step [Width α] {s : Folding α} (h : s.Grounded) (i : Instr α) :
    Lighter (weight s.output + i.weight) (weight (s.step i).output) s.changed
      (s.step i).changed := by
  unfold step
  split
  · simp only [Lighter, weight_cons]
    exact ⟨by omega, .inl⟩
  · exact lighter_keep s 0 _
  · split
    · exact lighter_replace (h (by simp_all)) (by decide) _ _
    · exact lighter_keep s 1 _
  · split
    · exact lighter_replace (h (by simp_all)) (by decide) _ _
    · split
      · rename_i op _ b _ _ _ _
        have hdrop := weight_drop_lt (h (by simp_all)) (n := 1) (by decide)
        have hpower : (Instr.unary (UnaryOp.powConst b)).weight = 1 := rfl
        have hbinary : (Instr.binary op : Instr α).weight = 1 := rfl
        simp only [Lighter, weight_cons, hpower, hbinary]
        omega
      · exact lighter_keep s 2 _
    · exact lighter_keep s 2 _

theorem lighter_foldl [Width α] {s : Folding α} (h : s.Grounded) (instrs : List (Instr α)) :
    Lighter (weight s.output + weight instrs) (weight (instrs.foldl step s).output) s.changed
      (instrs.foldl step s).changed := by
  induction instrs generalizing s with
  | nil => simp [Lighter]
  | cons i rest ih =>
      have hstep := lighter_step h i
      have hrest := ih (grounded_step s i)
      simp only [Lighter, List.foldl_cons, weight_cons] at hstep hrest ⊢
      refine ⟨by omega, fun hc => ?_⟩
      rcases hrest.2 hc with h | h
      · rcases hstep.2 h with h | h
        · exact .inl h
        · exact .inr (by omega)
      · exact .inr (by omega)

end Folding

theorem lighter_foldConstants [Width α] (instrs : List (Instr α)) :
    Lighter (weight instrs) (weight (foldConstants instrs).instrs) false
      (foldConstants instrs).changed := by
  have := Folding.lighter_foldl (s := Folding.start) (fun h => absurd rfl h) instrs
  simpa [foldConstants, Folding.start] using this

theorem lighter_reduce (r : PassResult α) (i : Instr α) :
    Lighter (weight r.instrs + i.weight) (weight (r.reduce i).instrs) r.changed
      (r.reduce i).changed := by
  have hsquare : (Instr.unary UnaryOp.square : Instr α).weight = 1 := rfl
  have hinverse : (Instr.unary UnaryOp.reciprocal : Instr α).weight = 1 := rfl
  have hneg : (Instr.unary UnaryOp.neg : Instr α).weight = 1 := rfl
  unfold PassResult.reduce
  split
  · rename_i n
    have hpower : (Instr.unary (UnaryOp.powInt n) : Instr α).weight = 2 := rfl
    split
    · simp only [Lighter]
      omega
    · split
      · simp only [Lighter, weight_cons]
        omega
      · split
        · simp only [Lighter, weight_cons]
          omega
        · simp only [Lighter, weight_cons]
          exact ⟨by omega, .inl⟩
  · split
    · rename_i h
      simp only [Lighter, h, weight_cons]
      omega
    · simp only [Lighter, weight_cons]
      exact ⟨by omega, .inl⟩
  · simp only [Lighter, weight_cons]
    exact ⟨by omega, .inl⟩

theorem lighter_reduceStrength (instrs : List (Instr α)) :
    Lighter (weight instrs) (weight (reduceStrength instrs).instrs) false
      (reduceStrength instrs).changed := by
  have gen (r : PassResult α) :
      Lighter (weight r.instrs + weight instrs) (weight (instrs.foldl PassResult.reduce r).instrs)
        r.changed (instrs.foldl PassResult.reduce r).changed := by
    induction instrs generalizing r with
    | nil => simp [Lighter]
    | cons i rest ih =>
        have hstep := lighter_reduce r i
        have hrest := ih (r.reduce i)
        simp only [Lighter, List.foldl_cons, weight_cons] at hstep hrest ⊢
        refine ⟨by omega, fun hc => ?_⟩
        rcases hrest.2 hc with h | h
        · rcases hstep.2 h with h | h
          · exact .inl h
          · exact .inr (by omega)
        · exact .inr (by omega)
  simpa [reduceStrength] using gen ⟨[], false⟩

variable [Width α]

/-- Runs both passes until neither changes anything, and counts the rounds. -/
def optimizeRounds (instrs : List (Instr α)) : List (Instr α) × Nat :=
  let folded := foldConstants instrs
  let reduced := reduceStrength folded.instrs
  if folded.changed = true ∨ reduced.changed = true then
    let (result, rounds) := optimizeRounds reduced.instrs
    (result, rounds + 1)
  else (reduced.instrs, 1)
termination_by weight instrs
decreasing_by
  have hfold := lighter_foldConstants instrs
  have hreduce := lighter_reduceStrength (foldConstants instrs).instrs
  simp only [Lighter, Bool.false_eq_true, false_or] at hfold hreduce
  rename_i h
  rcases h with h | h
  · have := hfold.2 h
    omega
  · have := hreduce.2 h
    omega

/-- Optimises a program. If a single load is left its value is the constant; otherwise what was
known of the program stays. -/
def Program.optimize (p : Program α) : Logged (Program α) := do
  let (instrs, rounds) := optimizeRounds p.instrs
  Logged.record .trace
    s!"optimised stack program from {p.instrs.length} to {instrs.length} ops in {rounds} rounds"
  let constant :=
    match instrs with
    | [.const c] => some c
    | _ => p.constant
  return { p with instrs, constant }

end Formula
