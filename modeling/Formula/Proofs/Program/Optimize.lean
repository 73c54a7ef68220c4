import Formula.Program.Optimize
import Formula.Proofs.Program.Meaning
import Formula.Proofs.Width.Lawful

/-!
Optimising a program keeps its meaning. Constant folding keeps it on every stack, also where
operands are missing. Strength reduction may drop an instruction that would have found no
operand, so it keeps what is there: the outcome of a program that has one.
-/

set_option autoImplicit false

namespace Formula

variable {α : Type}

/-! ### Constant folding -/

namespace Folding

/-- The constants that are known on top of the stack are what the newest instructions load. -/
def Loaded (s : Folding α) : Prop :=
  ∀ cs : List α, cs.map some <+: s.stack → cs.map Instr.const <+: s.output

theorem loaded_start : (start : Folding α).Loaded := by
  intro cs known
  obtain rfl : cs = [] := by simpa [start] using known
  exact List.nil_prefix

theorem loaded_of_unknown {s : Folding α} {rest : List (Option α)} (top : s.stack = none :: rest) :
    s.Loaded := by
  intro cs known
  cases cs with
  | nil => exact List.nil_prefix
  | cons c cs =>
      rw [top, List.map_cons, List.cons_prefix_cons] at known
      exact absurd known.1 (by simp)

/-- A constant that is loaded in the place of known operands is known. -/
theorem loaded_replace {s : Folding α} (loaded : s.Loaded) (operands : List α)
    {rest : List (Option α)} (known : s.stack = operands.map some ++ rest) (c : α) :
    (s.replace operands.length c).Loaded := by
  intro cs prefixed
  cases cs with
  | nil => exact List.nil_prefix
  | cons c' cs =>
      have hdrop : s.stack.drop operands.length = rest := by
        rw [known, ← List.length_map (f := some), List.drop_left]
      rw [replace, hdrop, List.map_cons, List.cons_prefix_cons] at prefixed
      obtain ⟨hc, hcs⟩ := prefixed
      have hall : (operands ++ cs).map Instr.const <+: s.output := by
        apply loaded
        rw [known, List.map_append]
        exact List.prefix_append_right_inj _ |>.mpr hcs
      obtain ⟨older, houtput⟩ := hall
      rw [replace, ← houtput, List.map_append, List.append_assoc,
        List.drop_left' (List.length_map _), Option.some.inj hc, List.map_cons,
        List.cons_prefix_cons]
      exact ⟨rfl, List.prefix_append _ _⟩

theorem Loaded.output_eq {s : Folding α} (loaded : s.Loaded) (cs : List α)
    {rest : List (Option α)} (known : s.stack = cs.map some ++ rest) :
    s.output = cs.map Instr.const ++ s.output.drop cs.length := by
  have hall := loaded cs (known ▸ List.prefix_append _ _)
  obtain ⟨older, houtput⟩ := hall
  rw [← houtput, List.drop_left' (List.length_map _)]

variable [Width α]

theorem loaded_step {s : Folding α} (loaded : s.Loaded) (i : Instr α) : (s.step i).Loaded := by
  unfold step
  split
  · rename_i c
    exact loaded_replace loaded [] rfl c
  · exact loaded_of_unknown rfl
  · split
    · rename_i a rest known
      exact loaded_replace loaded [a] known _
    · exact loaded_of_unknown rfl
  · split
    · rename_i b a rest known
      exact loaded_replace loaded [b, a] known _
    · split
      · exact loaded_of_unknown rfl
      · exact loaded_of_unknown rfl
    · exact loaded_of_unknown rfl

/-- What holds at the start and is kept by each step holds of a run. The instructions that have been
taken stand with the newest one first, as the output does. -/
theorem run_induction {motive : List (Instr α) → Folding α → Prop} (nil : motive [] start)
    (cons : ∀ {taken s} i, s.Loaded → motive taken s → motive (i :: taken) (s.step i))
    (instrs : List (Instr α)) : motive instrs.reverse (instrs.foldl step start) := by
  have run : (instrs.foldl step start).Loaded ∧
      motive instrs.reverse (instrs.foldl step start) := by
    rw [← List.foldr_reverse]
    induction instrs.reverse with
    | nil => exact ⟨loaded_start, nil⟩
    | cons i taken ih =>
        obtain ⟨loaded, holds⟩ := ih
        exact ⟨loaded_step loaded i, cons i loaded holds⟩
  exact run.2

/-- One step keeps the meaning of what has been taken so far. -/
theorem exec?_step {s : Folding α} (loaded : s.Loaded) (i : Instr α) (point t : List α) :
    exec? point (s.step i).output.reverse t = exec? point (s.output.reverse ++ [i]) t := by
  unfold step
  split
  · rw [List.reverse_cons]
  · rw [keep, List.reverse_cons]
  · split
    · rename_i op _ a rest known
      rw [loaded.output_eq [a] known, replace, List.reverse_cons, List.reverse_append,
        List.append_assoc]
      exact exec?_append_congr fun _ => rfl
    · rw [keep, List.reverse_cons]
  · split
    · rename_i op _ b a rest known
      rw [loaded.output_eq [b, a] known, replace, List.reverse_cons, List.reverse_append,
        List.append_assoc]
      exact exec?_append_congr fun _ => rfl
    · rename_i op _ b rest _ known
      split
      · rename_i power
        rw [loaded.output_eq [b] known, List.reverse_cons, List.reverse_append,
          List.append_assoc, power]
        apply exec?_append_congr
        intro u
        -- Without a base neither form of the power has an outcome.
        cases u <;> rfl
      · rw [keep, List.reverse_cons]
    · rw [keep, List.reverse_cons]

end Folding

variable [Width α]

theorem exec?_foldConstants (instrs : List (Instr α)) (point s : List α) :
    exec? point (foldConstants instrs).instrs s = exec? point instrs s := by
  have same := Folding.run_induction
    (motive := fun taken state => exec? point state.output.reverse s = exec? point taken.reverse s)
    rfl ?_ instrs
  · rwa [List.reverse_reverse] at same
  · intro taken state i loaded same
    rw [Folding.exec?_step loaded, exec?_append, same, ← exec?_append, List.reverse_cons]

/-! ### Strength reduction -/

omit [Width α] in
theorem PassResult.run_induction {motive : List (Instr α) → PassResult α → Prop}
    (nil : motive [] ⟨[], false⟩)
    (cons : ∀ {taken r} i, motive taken r → motive (i :: taken) (r.reduce i))
    (instrs : List (Instr α)) :
    motive instrs.reverse (instrs.foldl PassResult.reduce ⟨[], false⟩) := by
  rw [← List.foldr_reverse]
  induction instrs.reverse with
  | nil => exact nil
  | cons i taken ih => exact cons i ih

theorem exec?_unary_of_eval {op op' : UnaryOp α} (same : ∀ a : α, op.eval a = op'.eval a)
    (point s : List α) : exec? point [.unary op] s = exec? point [.unary op'] s := by
  cases s with
  | nil => rfl
  | cons a s => rw [exec?_unary_cons, exec?_unary_cons, same]

variable [Width.Lawful α]

/-- One step keeps the outcome of what has been taken so far. -/
theorem exec?_reduce (r : PassResult α) (i : Instr α) {point s t : List α}
    (done : exec? point (r.instrs.reverse ++ [i]) s = some t) :
    exec? point (r.reduce i).instrs.reverse s = some t := by
  unfold PassResult.reduce
  split
  · rename_i n
    split
    · rename_i one
      rw [← List.append_nil r.instrs.reverse]
      refine exec?_append_mono ?_ done
      intro u v reached
      cases u with
      | nil => contradiction
      | cons a u =>
          rw [exec?_unary_cons, one, UnaryOp.eval, Width.Lawful.powInt_one] at reached
          exact reached
    · split
      · rename_i two
        rw [List.reverse_cons, ← done, two]
        exact exec?_append_congr
          (exec?_unary_of_eval (fun a => (Width.Lawful.powInt_two a).symm) point)
      · split
        · rename_i inverse
          rw [List.reverse_cons, ← done, inverse]
          exact exec?_append_congr
            (exec?_unary_of_eval (fun a => (Width.Lawful.powInt_neg_one a).symm) point)
        · rw [List.reverse_cons, done]
  · split
    · rename_i rest signed
      rw [signed, List.reverse_cons, List.append_assoc] at done
      rw [← List.append_nil rest.reverse]
      refine exec?_append_mono ?_ done
      intro u v reached
      cases u with
      | nil => contradiction
      | cons a u =>
          rw [List.singleton_append, exec?_unary_cons, exec?_unary_cons, UnaryOp.eval,
            UnaryOp.eval, Width.Lawful.neg_neg] at reached
          exact reached
    · rw [List.reverse_cons, done]
  · rw [List.reverse_cons, done]

theorem exec?_reduceStrength {instrs : List (Instr α)} {point s t : List α}
    (done : exec? point instrs s = some t) :
    exec? point (reduceStrength instrs).instrs s = some t := by
  have kept := PassResult.run_induction (motive := fun taken r => ∀ t : List α,
    exec? point taken.reverse s = some t → exec? point r.instrs.reverse s = some t)
    (fun _ => id) ?_ instrs
  · exact kept t (instrs.reverse_reverse.symm ▸ done)
  · intro taken r i ih t done
    rw [List.reverse_cons, exec?_append, Option.bind_eq_some_iff] at done
    obtain ⟨u, reached, after⟩ := done
    apply exec?_reduce
    rw [exec?_append, Option.bind_eq_some_iff]
    exact ⟨u, ih u reached, after⟩

/-- Optimising keeps the outcome of a program that has one. -/
theorem exec?_optimizeRounds {instrs : List (Instr α)} {point s t : List α}
    (done : exec? point instrs s = some t) :
    exec? point (optimizeRounds instrs).1 s = some t := by
  fun_induction optimizeRounds instrs with
  | case1 instrs folded reduced _ result rounds again ih =>
      rw [again] at ih
      apply ih
      apply exec?_reduceStrength
      rw [exec?_foldConstants, done]
  | case2 instrs folded reduced =>
      apply exec?_reduceStrength
      rw [exec?_foldConstants, done]

end Formula
