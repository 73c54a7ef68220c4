import Formula.Compiled
import Formula.Proofs.Expr.Folded
import Formula.Proofs.Expr.Value
import Formula.Proofs.Program.Optimize

/-!
The slots that a program reads. Constant folding deletes nothing but loads of constants, and
strength reduction touches no load at all, so that an optimised program reads what it read before,
in the same order: the slots of the variables of its expression, from left to right.
-/

set_option autoImplicit false

namespace Formula

variable {α : Type}

def Instr.slot? : Instr α → Option Nat
  | slot index => some index
  | _ => none

/-- The slots that are read, in the order of the reads. -/
def slotsRead (instrs : List (Instr α)) : List Nat := instrs.filterMap Instr.slot?

@[simp] theorem slotsRead_nil : slotsRead ([] : List (Instr α)) = [] := rfl

theorem slotsRead_cons (i : Instr α) (l : List (Instr α)) :
    slotsRead (i :: l) = i.slot?.toList ++ slotsRead l := by
  unfold slotsRead
  cases found : i.slot? <;> simp [found]

@[simp] theorem slotsRead_append (l m : List (Instr α)) :
    slotsRead (l ++ m) = slotsRead l ++ slotsRead m := List.filterMap_append

@[simp] theorem slotsRead_reverse (l : List (Instr α)) :
    slotsRead l.reverse = (slotsRead l).reverse := List.filterMap_reverse

theorem slotsRead_map_const (cs : List α) : slotsRead (cs.map Instr.const) = [] := by
  induction cs with
  | nil => rfl
  | cons c cs ih => exact ih

/-- Known operands are loaded by constants, which read no slot. -/
theorem Folding.Loaded.slotsRead_drop {s : Folding α} (loaded : s.Loaded) (cs : List α)
    {rest : List (Option α)} (known : s.stack = cs.map some ++ rest) :
    slotsRead (s.output.drop cs.length) = slotsRead s.output := by
  conv_rhs => rw [loaded.output_eq cs known, slotsRead_append, slotsRead_map_const,
    List.nil_append]

theorem slotsRead_reduce (r : PassResult α) (i : Instr α) :
    slotsRead (r.reduce i).instrs = slotsRead (i :: r.instrs) := by
  unfold PassResult.reduce
  split
  · split_ifs <;> rfl
  · split
    · rename_i rest signed
      rw [signed]
      rfl
    · rfl
  · rfl

theorem slotsRead_reduceStrength (instrs : List (Instr α)) :
    slotsRead (reduceStrength instrs).instrs = slotsRead instrs := by
  have same := PassResult.run_induction
    (motive := fun taken r => slotsRead r.instrs = slotsRead taken) rfl ?_ instrs
  · rw [reduceStrength, slotsRead_reverse, same, slotsRead_reverse, List.reverse_reverse]
  · intro taken r i same
    rw [slotsRead_reduce, slotsRead_cons, same, ← slotsRead_cons]

variable [Width α]

theorem slotsRead_step {s : Folding α} (loaded : s.Loaded) (i : Instr α) :
    slotsRead (s.step i).output = slotsRead (i :: s.output) := by
  unfold Folding.step
  split
  · rfl
  · rfl
  · split
    · rename_i a rest known
      exact loaded.slotsRead_drop [a] known
    · rfl
  · split
    · rename_i b a rest known
      exact loaded.slotsRead_drop [b, a] known
    · rename_i b rest _ known
      split
      · exact loaded.slotsRead_drop [b] known
      · rfl
    · rfl

theorem slotsRead_foldConstants (instrs : List (Instr α)) :
    slotsRead (foldConstants instrs).instrs = slotsRead instrs := by
  have same := Folding.run_induction
    (motive := fun taken s => slotsRead s.output = slotsRead taken) rfl ?_ instrs
  · rw [foldConstants, slotsRead_reverse, same, slotsRead_reverse, List.reverse_reverse]
  · intro taken s i loaded same
    rw [slotsRead_step loaded, slotsRead_cons, same, ← slotsRead_cons]

/-- Optimising keeps the reads of a program, one by one. -/
theorem slotsRead_optimizeRounds (instrs : List (Instr α)) :
    slotsRead (optimizeRounds instrs).1 = slotsRead instrs := by
  fun_induction optimizeRounds instrs with
  | case1 instrs folded reduced _ result rounds again ih =>
      rw [again] at ih
      rw [ih, slotsRead_reduceStrength, slotsRead_foldConstants]
  | case2 instrs folded reduced =>
      rw [slotsRead_reduceStrength, slotsRead_foldConstants]

namespace Expr

variable {β : Type}

/-- The slots of the variables in an expression, from left to right. -/
def slots : Expr β → List Nat
  | const _ => []
  | var _ slot => [slot]
  | neg body => body.slots
  | binary _ left right => left.slots ++ right.slots
  | call _ argument => argument.slots

theorem mem_slots_iff {e : Expr β} {slot : Nat} :
    slot ∈ e.slots ↔ ∃ name, (name, slot) ∈ e.vars := by
  induction e with
  | const c => simp [slots, vars]
  | var name s => simp [slots, vars]
  | neg body ih => exact ih
  | binary op left right ihleft ihright =>
      simp only [slots, vars, List.mem_append, Finset.mem_union, ihleft, ihright, exists_or]
  | call f argument ih => exact ih

theorem dependsOn_iff {e : Expr β} {slot : Nat} : e.dependsOn slot ↔ slot ∈ e.slots := by
  induction e with
  | const c => simp [slots, dependsOn]
  | var name s =>
      rw [dependsOn, slots, List.mem_singleton, beq_iff_eq]
      exact eq_comm
  | neg body ih => exact ih
  | binary op left right ihleft ihright =>
      rw [dependsOn, slots, Bool.or_eq_true, ihleft, ihright, List.mem_append]
  | call f argument ih => exact ih

theorem slots_eq_nil_iff {e : Expr β} : e.slots = [] ↔ e.hasVariable = false := by
  induction e with
  | const c => simp [slots, hasVariable]
  | var name slot => simp [slots, hasVariable]
  | neg body ih => exact ih
  | binary op left right ihleft ihright =>
      rw [slots, hasVariable, List.append_eq_nil_iff, Bool.or_eq_false_iff, ihleft, ihright]
  | call f argument ih => exact ih

end Expr

/-- The instructions of an expression read the slots of its variables in their order. -/
theorem slotsRead_emit (e : Expr Float) (next : List (Instr α)) :
    slotsRead (e.emit next) = e.slots ++ slotsRead next := by
  induction e using Expr.induction_on_powers generalizing next with
  | const c => rfl
  | var name slot => rfl
  | neg body ih => exact ih _
  | power base c ih =>
      rw [Expr.emit, ih, Expr.slots, Expr.slots, List.append_nil]
      rfl
  | binary op left right plain ihleft ihright =>
      rw [Expr.emit_binary plain, ihleft, ihright, Expr.slots, List.append_assoc]
      rfl
  | call f argument ih => exact ih _

theorem slotsRead_ofExpr (e : Expr Float) :
    slotsRead (Program.ofExpr e : Program α).instrs = e.slots := by
  unfold Program.ofExpr
  rw [e.constantValue?_eq []]
  cases occurs : e.hasVariable with
  | true =>
      change slotsRead (e.emit []) = e.slots
      rw [slotsRead_emit, slotsRead_nil, List.append_nil]
  | false => exact (Expr.slots_eq_nil_iff.mpr occurs).symm

/-- A compiled expression reads the slots of its variables, one read for each place where they
stand. -/
theorem Compiled.slotsRead_of_program {e : Expr Float} {p : Program α}
    (compiled : (ofExpr e).value = .program p) : slotsRead p.instrs = e.slots := by
  unfold ofExpr at compiled
  rw [Logged.value_bind] at compiled
  split at compiled
  · contradiction
  · rw [Logged.value_bind, Logged.value_pure] at compiled
    obtain rfl := Compiled.program.inj compiled
    exact (slotsRead_optimizeRounds _).trans (slotsRead_ofExpr e)

/-- A compiled expression reads no slots but those of its variables. -/
theorem Compiled.mem_vars_of_mem_slotsRead {e : Expr Float} {p : Program α}
    (compiled : (ofExpr e).value = .program p) {slot : Nat} (member : slot ∈ slotsRead p.instrs) :
    ∃ name, (name, slot) ∈ e.vars := by
  rw [slotsRead_of_program compiled] at member
  exact Expr.mem_slots_iff.mp member

end Formula
