import Formula.Proofs.Program.Settled
import Formula.Proofs.Program.Slots

/-!
What constant folding deletes. The constants at the top of the stack that it follows are what the
newest instructions of its output load, however many there are and whatever it has taken, so that
it deletes no instruction but such a load. A program therefore reports the same slots when it has
been optimised, and is known to be constant exactly if it reports none.
-/

set_option autoImplicit false

namespace Formula

theorem max?_append (l m : List Nat) : (l ++ m).max? = l.max?.merge max m.max? := by
  cases greatest : l.max? with
  | none => rw [List.max?_eq_none_iff.mp greatest, List.nil_append, Option.merge_none_left]
  | some a =>
      cases greatest' : m.max? with
      | none =>
          rw [List.max?_eq_none_iff.mp greatest', List.append_nil, greatest,
            Option.merge_none_right]
      | some b =>
          obtain ⟨mem, le⟩ := List.max?_eq_some_iff.mp greatest
          obtain ⟨mem', le'⟩ := List.max?_eq_some_iff.mp greatest'
          refine List.max?_eq_some_iff.mpr ⟨?_, ?_⟩
          · rcases max_choice a b with first | second
            · rw [first]
              exact List.mem_append_left m mem
            · rw [second]
              exact List.mem_append_right l mem'
          · intro c member
            rcases List.mem_append.mp member with member | member
            · exact le_max_of_le_left (le c member)
            · exact le_max_of_le_right (le' c member)

namespace Expr

variable {β : Type}

theorem maxSlot?_eq_max? (e : Expr β) : e.maxSlot? = e.slots.max? := by
  induction e with
  | const c => rfl
  | var name slot => rfl
  | neg body ih => exact ih
  | binary op left right ihleft ihright =>
      rw [maxSlot?, slots, max?_append, ihleft, ihright]
      cases left.slots.max? <;> cases right.slots.max? <;> rfl
  | call f argument ih => exact ih

end Expr

variable {α : Type} [Width α]

namespace Folding

theorem loaded_foldl (taken : List (Instr α)) : (taken.foldl step start).Loaded :=
  run_induction (motive := fun _ s => s.Loaded) loaded_start
    (fun i loaded _ => loaded_step loaded i) taken

/-- What a step deletes are loads of constants, in the place of which it puts one instruction. -/
theorem Loaded.exists_deleted {s : Folding α} (loaded : s.Loaded) (i : Instr α) :
    ∃ (loads : List α) (j : Instr α), loads.map Instr.const <+: s.output ∧
      (s.step i).output = j :: s.output.drop loads.length := by
  obtain ⟨loads, rest, j, exchange⟩ := exists_exchange s i
  exact ⟨loads, j, loaded loads (exchange.stack ▸ List.prefix_append _ _), exchange.output'⟩

end Folding

namespace Program

/-- What a program reports of the expression that it has been compiled from. -/
structure Reports (e : Expr Float) (p : Program α) : Prop where
  reads : slotsRead p.instrs = e.slots
  maxSlot : p.maxSlot = e.slots.max?
  constant : p.constant.isSome ↔ e.slots = []

theorem reports_ofExpr (e : Expr Float) : Reports e (ofExpr e : Program α) := by
  have reads := slotsRead_ofExpr (α := α) e
  have value := e.constantValue?_eq (α := α) []
  cases occurs : e.hasVariable with
  | false =>
      have none := Expr.slots_eq_nil_iff.mpr occurs
      simp only [occurs, Bool.false_eq_true, if_false] at value
      refine ⟨reads, ?_, ?_⟩
      · simp only [ofExpr, value, none, List.max?_nil]
      · simp only [ofExpr, value, none, Option.isSome_some]
  | true =>
      have some : e.slots ≠ [] := by simp [Expr.slots_eq_nil_iff, occurs]
      simp only [occurs, if_true] at value
      refine ⟨reads, ?_, ?_⟩
      · simp only [ofExpr, value, e.maxSlot?_eq_max?]
      · simp [ofExpr, value, some]

theorem slotsRead_optimize (p : Program α) :
    slotsRead p.optimize.value.instrs = slotsRead p.instrs := slotsRead_optimizeRounds p.instrs

/-- A single load is left of a program only where no slot is read. -/
theorem Reports.optimize {e : Expr Float} {p : Program α} (reports : Reports e p) :
    Reports e p.optimize.value := by
  have reads := (slotsRead_optimize p).trans reports.reads
  refine ⟨reads, reports.maxSlot, ?_⟩
  by_cases load : ∃ c, p.optimize.value.instrs = [.const c]
  · obtain ⟨c, load⟩ := load
    rw [constant_optimize load]
    rw [load] at reads
    exact iff_of_true rfl reads.symm
  · have kept : p.optimize.value.constant = p.constant := by
      simp only [Program.optimize, Logged.value_bind, Logged.value_pure]
      split
      · rename_i c found
        exact absurd ⟨c, found⟩ load
      · rfl
    rw [kept, reports.constant]

/-- Constant folding deletes nothing but loads of constants, whatever the instructions are that it
has taken: the constants on top of its stack are those that the newest instructions load. So the
optimiser keeps the loads of slots, and a compiled expression, optimised or not, reports the
greatest slot of the expression, which is the greatest one that it reads. It reports none exactly
if the expression has no variable, and exactly if it is known to be constant. -/
theorem optimize_deletes_only_loads :
    (∀ taken : List (Instr α),
      let s := taken.foldl Folding.step Folding.start
      (∀ cs : List α, cs.map some <+: s.stack → cs.map Instr.const <+: s.output) ∧
      ∀ i, ∃ (loads : List α) (j : Instr α), loads.map Instr.const <+: s.output ∧
        (s.step i).output = j :: s.output.drop loads.length) ∧
    (∀ p : Program α, slotsRead p.optimize.value.instrs = slotsRead p.instrs) ∧
    ∀ (e : Expr Float) (p : Program α), p = ofExpr e ∨ p = (ofExpr e).optimize.value →
      p.maxSlot = e.slots.max? ∧ p.maxSlot = (slotsRead p.instrs).max? ∧
      (p.maxSlot = none ↔ e.hasVariable = false) ∧ (p.maxSlot = none ↔ p.constant.isSome) := by
  refine ⟨fun taken => ?_, slotsRead_optimize, fun e p compiled => ?_⟩
  · have loaded := Folding.loaded_foldl taken
    exact ⟨loaded, loaded.exists_deleted⟩
  · have reports : Reports e p := by
      rcases compiled with rfl | rfl
      · exact reports_ofExpr e
      · exact (reports_ofExpr e).optimize
    have unread : p.maxSlot = none ↔ e.slots = [] := by
      rw [reports.maxSlot, List.max?_eq_none_iff]
    refine ⟨reports.maxSlot, ?_, ?_, ?_⟩
    · rw [reports.maxSlot, reports.reads]
    · rw [unread, Expr.slots_eq_nil_iff]
    · rw [unread, reports.constant]

/-- A sum without operands, and two loads after it; and the power `y ^ (x + 2)`, with its slots in
the order `y`, `x`. -/
theorem optimize_deletes_only_loads_unbalanced :
    let s := ([.binary .add, .const 1, .const 2] : List (Instr Float)).foldl Folding.step .start
    let e : Expr Float := .binary .pow (.var "y" 1) (.binary .add (.var "x" 0) (.const 2))
    s.output = [.const 2, .const 1, .binary .add] ∧ [.const 2, .const 1] <+: s.output ∧
      (ofExpr e : Program Float).optimize.value.maxSlot = some 1 ∧
      (ofExpr e : Program Float).optimize.value.constant.isSome = false := by
  intro s e
  obtain ⟨folding, -, reports⟩ := optimize_deletes_only_loads (α := Float)
  obtain ⟨greatest, -, -, constant⟩ := reports e _ (.inr rfl)
  have greatest : (ofExpr e : Program Float).optimize.value.maxSlot = some 1 := greatest
  refine ⟨rfl, (folding _).1 [2, 1] ⟨[none], rfl⟩, greatest, ?_⟩
  rw [← Bool.not_eq_true, ← constant, greatest]
  exact Option.some_ne_none 1

end Program

end Formula
