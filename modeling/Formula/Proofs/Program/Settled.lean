import Formula.Proofs.Program.Balanced

/-!
Settled programs, at which neither pass of the optimiser finds anything. One application of both
passes settles every program, balanced or not, so that the second round is always the last.

The instructions that a pass has put out stand with the newest one first here, as the passes keep
them.
-/

set_option autoImplicit false

namespace Formula

variable {α : Type}

def Instr.constant? : Instr α → Option α
  | const c => some c
  | _ => none

/-- What is known of the stack after an instruction, place by place from the top. -/
def Instr.known (i : Instr α) (before : Nat → Option α) : Nat → Option α
  | 0 => i.constant?
  | place + 1 => before (i.operands + place)

/-- What is known of the stack after some instructions. Nothing is known below an empty stack, so
that a missing operand is no other than an unknown one. -/
def known : List (Instr α) → Nat → Option α
  | [] => fun _ => none
  | i :: older => i.known (known older)

theorem known_map_const_append (cs : List α) (older : List (Instr α)) (place : Nat) :
    known (cs.map Instr.const ++ older) (cs.length + place) = known older place := by
  induction cs with
  | nil => simp
  | cons c cs ih =>
      rw [List.length_cons, Nat.add_right_comm, List.map_cons, List.cons_append]
      simpa [known, Instr.known, Instr.operands] using ih

/-- An operation on an unknown value leaves everything known that was known before. -/
theorem known_unary {older : List (Instr α)} (unknown : known older 0 = none) (op : UnaryOp α) :
    known (.unary op :: older) = known older := by
  funext place
  cases place with
  | zero => exact unknown.symm
  | succ place => exact congrArg (known older) (Nat.add_comm 1 place)

/-! ### Nothing to fold -/

/-- That the operands that are known suffice to fold an instruction. -/
def Instr.Foldable (before : Nat → Option α) : Instr α → Prop
  | const _ | slot _ => False
  | unary _ => before 0 ≠ none
  | binary op => before 0 ≠ none ∧ (op = .pow ∨ before 1 ≠ none)

def Unfoldable : List (Instr α) → Prop
  | [] => True
  | i :: older => ¬ i.Foldable (known older) ∧ Unfoldable older

theorem Unfoldable.of_append {newer older : List (Instr α)}
    (unfoldable : Unfoldable (newer ++ older)) : Unfoldable older := by
  induction newer with
  | nil => exact unfoldable
  | cons i newer ih => exact ih unfoldable.2

namespace Folding

/-- What is known of the stack that constant folding follows. -/
def known (stack : List (Option α)) (place : Nat) : Option α := stack[place]?.join

/-- What one step of constant folding does with an instruction: in the place of the loads of some
known operands it puts an instruction on the other operands, at which nothing is to be folded. -/
structure Exchange (s : Folding α) (i : Instr α) (t : Folding α) (loads : List α)
    (rest : List (Option α)) (j : Instr α) : Prop where
  stack : s.stack = loads.map some ++ rest
  operands : loads.length + j.operands = i.operands
  unfoldable : ¬ j.Foldable (known rest)
  output' : t.output = j :: s.output.drop loads.length
  stack' : t.stack = j.constant? :: rest.drop j.operands

theorem exists_of_known {stack : List (Option α)} (found : known stack 0 ≠ none) :
    ∃ c rest, stack = some c :: rest := by
  match stack with
  | [] => exact absurd Option.join_none found
  | none :: rest => exact absurd Option.join_some found
  | some c :: rest => exact ⟨c, rest, rfl⟩

theorem known_append (loads : List α) (rest : List (Option α)) (place : Nat) :
    known (loads.map some ++ rest) (loads.length + place) = known rest place := by
  refine congrArg Option.join ?_
  rw [List.getElem?_append_right] <;> simp

theorem known_push (i : Instr α) (stack : List (Option α)) :
    known (i.constant? :: stack.drop i.operands) = i.known (known stack) := by
  funext place
  cases place with
  | zero => exact Option.join_some
  | succ place => exact congrArg Option.join List.getElem?_drop

/-- The state of constant folding when all that it has put out is settled: the stack is followed
as it is known after the output, and at the output nothing is to be folded. -/
structure Settled (s : Folding α) : Prop where
  loaded : s.Loaded
  known : known s.stack = Formula.known s.output
  unfoldable : Unfoldable s.output

theorem settled_start : (start : Folding α).Settled where
  loaded := loaded_start
  known := rfl
  unfoldable := trivial

variable [Width α]

/-- Where nothing is to be folded, an instruction stays. -/
theorem step_of_not_foldable {s : Folding α} {i : Instr α}
    (unfoldable : ¬ i.Foldable (known s.stack)) :
    s.step i = ⟨i :: s.output, i.constant? :: s.stack.drop i.operands, s.changed⟩ := by
  unfold step
  split
  · rfl
  · rfl
  · split
    · rename_i op _ a rest top
      exact absurd (by simp [Instr.Foldable, known, top]) unfoldable
    · rfl
  · split
    · rename_i op _ b a rest top
      exact absurd (by simp [Instr.Foldable, known, top]) unfoldable
    · rename_i op _ b rest _ top
      by_cases power : op = .pow
      · exact absurd (by simp [Instr.Foldable, known, top, power]) unfoldable
      · rw [if_neg power]
        rfl
    · rfl

/-- A known exponent of an unknown base becomes part of the instruction. -/
theorem step_pow {s : Folding α} {b : α} {rest : List (Option α)}
    (exponent : s.stack = some b :: rest) (base : known rest 0 = none) :
    s.step (.binary .pow) =
      ⟨.unary (.powConst b) :: s.output.drop 1, none :: rest.drop 1, true⟩ := by
  cases rest with
  | nil => simp only [step, exponent, if_true]
  | cons value rest =>
      cases value with
      | none => simp only [step, exponent, if_true]
      | some a => exact absurd base (Option.some_ne_none a)

theorem exists_exchange (s : Folding α) (i : Instr α) :
    ∃ loads rest j, Exchange s i (s.step i) loads rest j := by
  by_cases foldable : i.Foldable (known s.stack)
  · cases i with
    | const c => exact foldable.elim
    | slot index => exact foldable.elim
    | unary op =>
        obtain ⟨a, rest, top⟩ := exists_of_known foldable
        have folded : s.step (.unary op) = s.replace 1 (op.eval a) := by simp only [step, top]
        refine ⟨[a], rest, .const (op.eval a), top, rfl, id, ?_, ?_⟩
        · rw [folded, replace, List.length_singleton]
        · rw [folded, replace, top]
          rfl
    | binary op =>
        obtain ⟨b, rest, top⟩ := exists_of_known foldable.1
        -- With an unknown operand below the top one, only a power is folded.
        by_cases base : known rest 0 = none
        · have power : op = .pow := by
            apply foldable.2.resolve_right
            rw [top]
            exact not_not.mpr base
          subst power
          have folded := step_pow top base
          refine ⟨[b], rest, .unary (.powConst b), top, rfl, not_not.mpr base, ?_, ?_⟩
          · rw [folded, List.length_singleton]
          · rw [folded]
            rfl
        · obtain ⟨a, rest, rfl⟩ := exists_of_known base
          have folded : s.step (.binary op) = s.replace 2 (op.eval a b) := by simp only [step, top]
          refine ⟨[b, a], rest, .const (op.eval a b), top, rfl, id, ?_, ?_⟩
          · rw [folded]
            rfl
          · rw [folded, replace, top]
            rfl
  · refine ⟨[], s.stack, i, List.nil_append _, Nat.zero_add _, foldable, ?_, ?_⟩
    · rw [step_of_not_foldable foldable]
      rfl
    · rw [step_of_not_foldable foldable]

theorem Settled.step {s : Folding α} (settled : s.Settled) (i : Instr α) : (s.step i).Settled := by
  obtain ⟨loads, rest, j, exchange⟩ := exists_exchange s i
  have loaded := settled.loaded.output_eq loads exchange.stack
  have output := exchange.output'
  generalize s.output.drop loads.length = older at loaded output
  have unfoldable : Unfoldable (loads.map Instr.const ++ older) := loaded ▸ settled.unfoldable
  -- The operands that are known were loaded last, so what is before the loads leaves the others.
  have below : Folding.known rest = Formula.known older := by
    funext place
    rw [← known_append loads, ← exchange.stack, settled.known, loaded, known_map_const_append]
  refine ⟨loaded_step settled.loaded i, ?_, ?_⟩
  · rw [exchange.stack', known_push, below, output, Formula.known]
  · rw [output]
    exact ⟨below ▸ exchange.unfoldable, unfoldable.of_append⟩

theorem settled_foldl (instrs : List (Instr α)) : (instrs.foldl Folding.step start).Settled :=
  run_induction (motive := fun _ s => s.Settled) settled_start
    (fun i _ settled => settled.step i) instrs

/-- Where nothing is to be folded, constant folding puts out what it takes. -/
theorem foldl_of_unfoldable {instrs : List (Instr α)} (unfoldable : Unfoldable instrs.reverse) :
    let s := instrs.foldl Folding.step start
    s.output = instrs.reverse ∧ s.changed = false := by
  have kept := run_induction (motive := fun taken s => Unfoldable taken →
    s.output = taken ∧ s.changed = false ∧ known s.stack = Formula.known taken)
    (fun _ => ⟨rfl, rfl, rfl⟩) ?_ instrs unfoldable
  · exact ⟨kept.1, kept.2.1⟩
  · intro taken s i _ ih unfoldable
    obtain ⟨output, unchanged, stack⟩ := ih unfoldable.2
    have kept := step_of_not_foldable (stack ▸ unfoldable.1)
    refine ⟨?_, ?_, ?_⟩
    · rw [kept, output]
    · rw [kept, unchanged]
    · rw [kept, known_push, stack, Formula.known]

end Folding

section

variable [Width α]

theorem unfoldable_foldConstants (instrs : List (Instr α)) :
    Unfoldable (foldConstants instrs).instrs.reverse := by
  rw [foldConstants, List.reverse_reverse]
  exact (Folding.settled_foldl instrs).unfoldable

theorem foldConstants_of_unfoldable {instrs : List (Instr α)}
    (unfoldable : Unfoldable instrs.reverse) : foldConstants instrs = ⟨instrs, false⟩ := by
  obtain ⟨output, unchanged⟩ := Folding.foldl_of_unfoldable unfoldable
  rw [foldConstants, output, unchanged, List.reverse_reverse]

end

/-! ### Nothing to reduce -/

/-- That strength reduction does something with an instruction. -/
def Instr.Reducible (older : List (Instr α)) : Instr α → Prop
  | unary (.powInt n) => n = 1 ∨ n = 2 ∨ n = -1
  | unary .neg => older.head? = some (unary .neg)
  | _ => False

def Irreducible : List (Instr α) → Prop
  | [] => True
  | i :: older => ¬ i.Reducible older ∧ Irreducible older

/-- What one step of strength reduction makes of its output: an instruction on one operand may be
left out, exchanged for another one, or cancel with the sign before it. -/
inductive Reduction (older : List (Instr α)) : Instr α → List (Instr α) → Prop
  | kept {i} : ¬ i.Reducible older → Reduction older i (i :: older)
  | dropped {op} : Reduction older (.unary op) older
  | exchanged {op op'} : ¬ (Instr.unary op').Reducible older →
      Reduction older (.unary op) (.unary op' :: older)
  | cancelled {op rest} : older = .unary .neg :: rest → Reduction older (.unary op) rest

namespace PassResult

theorem reduce_of_not_reducible {r : PassResult α} {i : Instr α}
    (irreducible : ¬ i.Reducible r.instrs) : r.reduce i = ⟨i :: r.instrs, r.changed⟩ := by
  unfold reduce
  split
  · simp only [Instr.Reducible, not_or] at irreducible
    rw [if_neg irreducible.1, if_neg irreducible.2.1, if_neg irreducible.2.2]
  · split
    · rename_i rest signed
      exact absurd (by simp [Instr.Reducible, signed]) irreducible
    · rfl
  · rfl

theorem reduction_reduce (r : PassResult α) (i : Instr α) :
    Reduction r.instrs i (r.reduce i).instrs := by
  by_cases reducible : i.Reducible r.instrs
  · unfold reduce
    split
    · rename_i n
      by_cases one : n = 1
      · rw [if_pos one]
        exact .dropped
      · by_cases two : n = 2
        · rw [if_neg one, if_pos two]
          exact .exchanged id
        · have inverse : n = -1 := (reducible.resolve_left one).resolve_left two
          rw [if_neg one, if_neg two, if_pos inverse]
          exact .exchanged id
    · split
      · rename_i rest signed
        exact .cancelled signed
      · rename_i unsigned
        obtain ⟨rest, signed⟩ := List.head?_eq_some_iff.mp reducible
        exact (unsigned rest signed).elim
    · rename_i other unsigned
      unfold Instr.Reducible at reducible
      split at reducible
      · exact (other _ rfl).elim
      · exact (unsigned rfl).elim
      · exact reducible.elim
  · rw [reduce_of_not_reducible reducible]
    exact .kept reducible

/-- The output of strength reduction after some instructions that are settled for constant folding:
it knows of the stack what they do, and neither pass finds anything at it. -/
structure Settled (output instrs : List (Instr α)) : Prop where
  known : known output = known instrs
  unfoldable : Unfoldable output
  irreducible : Irreducible output

theorem Settled.step {output instrs output' : List (Instr α)} {i : Instr α}
    (settled : Settled output instrs) (unfoldable : ¬ i.Foldable (Formula.known instrs))
    (reduction : Reduction output i output') : Settled output' (i :: instrs) := by
  have unary {op : UnaryOp α} (unfoldable : ¬ (Instr.unary op).Foldable (Formula.known instrs)) :
      Formula.known (.unary op :: instrs) = Formula.known instrs :=
    known_unary (not_not.mp unfoldable) op
  cases reduction with
  | kept irreducible =>
      refine ⟨?_, ⟨settled.known ▸ unfoldable, settled.unfoldable⟩,
        ⟨irreducible, settled.irreducible⟩⟩
      rw [Formula.known, settled.known, Formula.known]
  | dropped =>
      exact ⟨settled.known.trans (unary unfoldable).symm, settled.unfoldable, settled.irreducible⟩
  | exchanged irreducible =>
      refine ⟨?_, ⟨settled.known ▸ unfoldable, settled.unfoldable⟩,
        ⟨irreducible, settled.irreducible⟩⟩
      rw [Formula.known, settled.known]
      rfl
  | cancelled signed =>
      subst signed
      have sign := known_unary (not_not.mp settled.unfoldable.1) .neg
      exact ⟨(sign.symm.trans settled.known).trans (unary unfoldable).symm, settled.unfoldable.2,
        settled.irreducible.2⟩

theorem settled_foldl {instrs : List (Instr α)} (unfoldable : Unfoldable instrs.reverse) :
    Settled (instrs.foldl reduce ⟨[], false⟩).instrs instrs.reverse := by
  refine run_induction (motive := fun taken r => Unfoldable taken → Settled r.instrs taken)
    (fun _ => ⟨rfl, trivial, trivial⟩) ?_ instrs unfoldable
  intro taken r i ih unfoldable
  exact (ih unfoldable.2).step unfoldable.1 (reduction_reduce r i)

/-- Where nothing is to be reduced, strength reduction puts out what it takes. -/
theorem foldl_of_irreducible {instrs : List (Instr α)} (irreducible : Irreducible instrs.reverse) :
    instrs.foldl reduce ⟨[], false⟩ = ⟨instrs.reverse, false⟩ := by
  refine run_induction (motive := fun taken r => Irreducible taken → r = ⟨taken, false⟩)
    (fun _ => rfl) ?_ instrs irreducible
  intro taken r i ih irreducible
  rw [ih irreducible.2]
  exact reduce_of_not_reducible irreducible.1

end PassResult

theorem settled_reduceStrength {instrs : List (Instr α)} (unfoldable : Unfoldable instrs.reverse) :
    PassResult.Settled (reduceStrength instrs).instrs.reverse instrs.reverse := by
  rw [reduceStrength, List.reverse_reverse]
  exact PassResult.settled_foldl unfoldable

theorem reduceStrength_of_irreducible {instrs : List (Instr α)}
    (irreducible : Irreducible instrs.reverse) : reduceStrength instrs = ⟨instrs, false⟩ := by
  rw [reduceStrength, PassResult.foldl_of_irreducible irreducible, List.reverse_reverse]

theorem Irreducible.powInt_notMem {instrs : List (Instr α)} (irreducible : Irreducible instrs)
    {n : Int} (cheap : n = 1 ∨ n = 2 ∨ n = -1) : .unary (.powInt n) ∉ instrs := by
  induction instrs with
  | nil => exact List.not_mem_nil
  | cons i older ih =>
      intro member
      rcases List.mem_cons.mp member with rfl | member
      · exact irreducible.1 cheap
      · exact ih irreducible.2 member

theorem Irreducible.isChain {instrs : List (Instr α)} (irreducible : Irreducible instrs) :
    instrs.IsChain fun i j => ¬ (i = .unary .neg ∧ j = .unary .neg) := by
  induction instrs with
  | nil => exact .nil
  | cons i older ih =>
      refine List.isChain_cons.mpr ⟨?_, ih irreducible.2⟩
      rintro j newest ⟨rfl, rfl⟩
      exact irreducible.1 newest

/-! ### The rounds -/

variable [Width α]

/-- What one application of each pass makes of a program. -/
def settle (instrs : List (Instr α)) : List (Instr α) :=
  (reduceStrength (foldConstants instrs).instrs).instrs

theorem settled_settle (instrs : List (Instr α)) :
    PassResult.Settled (settle instrs).reverse (foldConstants instrs).instrs.reverse :=
  settled_reduceStrength (unfoldable_foldConstants instrs)

theorem foldConstants_settle (instrs : List (Instr α)) :
    foldConstants (settle instrs) = ⟨settle instrs, false⟩ :=
  foldConstants_of_unfoldable (settled_settle instrs).unfoldable

theorem reduceStrength_settle (instrs : List (Instr α)) :
    reduceStrength (settle instrs) = ⟨settle instrs, false⟩ :=
  reduceStrength_of_irreducible (settled_settle instrs).irreducible

theorem optimizeRounds_settle (instrs : List (Instr α)) :
    optimizeRounds (settle instrs) = (settle instrs, 1) := by
  rw [optimizeRounds, foldConstants_settle, reduceStrength_settle]
  exact if_neg (by simp)

theorem settle_settle (instrs : List (Instr α)) : settle (settle instrs) = settle instrs := by
  rw [settle, foldConstants_settle, reduceStrength_settle]

/-- The first round settles a program. There is a second one only to find that out. -/
theorem optimizeRounds_cases (instrs : List (Instr α)) :
    optimizeRounds instrs = (settle instrs, 1) ∨ optimizeRounds instrs = (settle instrs, 2) := by
  have second := optimizeRounds_settle instrs
  rw [settle] at second
  rw [optimizeRounds, settle]
  split
  · right
    rw [second]
  · left
    rfl

theorem optimizeRounds_fst (instrs : List (Instr α)) :
    (optimizeRounds instrs).1 = settle instrs := by
  rcases optimizeRounds_cases instrs with rounds | rounds <;> rw [rounds]

namespace Program

theorem instrs_optimize (p : Program α) : p.optimize.value.instrs = settle p.instrs :=
  optimizeRounds_fst p.instrs

theorem constant_optimize {p : Program α} {c : α} (load : p.optimize.value.instrs = [.const c]) :
    p.optimize.value.constant = some c := by
  change (optimizeRounds p.instrs).1 = [.const c] at load
  simp only [optimize, Logged.value_bind, Logged.value_pure, load]

theorem optimize_of_settled {p : Program α} (settled : settle p.instrs = p.instrs)
    (constant : ∀ c, p.instrs = [.const c] → p.constant = some c) : p.optimize.value = p := by
  have instrs : (optimizeRounds p.instrs).1 = p.instrs := (optimizeRounds_fst _).trans settled
  simp only [optimize, Logged.value_bind, Logged.value_pure, instrs]
  split
  · rename_i c load
    rw [← constant c load]
  · rfl

/-- One application of each pass settles a program. The optimiser is done after two rounds at most,
and what it leaves holds no power that has a cheaper form and no two signs in a row. -/
theorem optimize_settles (p : Program α) :
    let once := (reduceStrength (foldConstants p.instrs).instrs).instrs
    (optimizeRounds p.instrs).2 ≤ 2 ∧ p.optimize.value.instrs = once ∧
      foldConstants once = ⟨once, false⟩ ∧ reduceStrength once = ⟨once, false⟩ ∧
      (∀ n, n = 1 ∨ n = 2 ∨ n = -1 → .unary (.powInt n) ∉ once) ∧
      (once.IsChain fun i j => ¬ (i = .unary .neg ∧ j = .unary .neg)) ∧
      p.optimize.value.optimize.value = p.optimize.value := by
  intro once
  have irreducible := (settled_settle p.instrs).irreducible
  refine ⟨?_, instrs_optimize p, foldConstants_settle p.instrs, reduceStrength_settle p.instrs,
    ?_, ?_, ?_⟩
  · rcases optimizeRounds_cases p.instrs with rounds | rounds <;> simp [rounds]
  · intro n cheap member
    exact irreducible.powInt_notMem cheap (List.mem_reverse.mpr member)
  · have chain := List.isChain_reverse.mp irreducible.isChain
    exact chain.imp fun i j apart both => apart both.symm
  · apply optimize_of_settled _ (fun c => constant_optimize)
    rw [instrs_optimize, settle_settle]

end Program

end Formula
