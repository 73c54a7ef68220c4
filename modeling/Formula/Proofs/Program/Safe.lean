import Formula.Proofs.Program.Settled

/-!
The heights of the stack on the way through a balanced program. At every instruction the machine
stays on its stack, and neither pass of the optimiser asks for a higher one.
-/

set_option autoImplicit false

namespace Formula

variable {α : Type}

/-- The height of the stack after the instructions of a balanced program. -/
def heightAfter (height : Nat) : List (Instr α) → Nat
  | [] => height
  | i :: rest => heightAfter (height - i.operands + 1) rest

/-- That some instructions, the newest of them first, are balanced on an empty stack, with the
height that they reach in the end and the greatest one on the way. -/
inductive Reaches : List (Instr α) → (height peak : Nat) → Prop
  | nil : Reaches [] 0 0
  | cons {i older height peak} : Reaches older height peak → i.operands ≤ height →
      Reaches (i :: older) (height - i.operands + 1) (max peak (height - i.operands + 1))

theorem Instr.effect_eq (i : Instr α) : i.effect = 1 - (i.operands : Int) := by
  cases i <;> simp [effect, operands]

theorem Instr.add_effect {i : Instr α} {height : Nat} (found : i.operands ≤ height) :
    (height : Int) + i.effect = (height - i.operands + 1 : Nat) := by
  rw [i.effect_eq]
  omega

namespace Reaches

variable {older newer instrs : List (Instr α)} {height peak : Nat}

theorem height_le (reaches : Reaches instrs height peak) : height ≤ peak := by
  cases reaches with
  | nil => exact Nat.le_refl 0
  | cons => exact Nat.le_max_right _ _

theorem of_append (reaches : Reaches (newer ++ older) height peak) :
    ∃ height' peak', Reaches older height' peak' ∧ peak' ≤ peak := by
  induction newer generalizing height peak with
  | nil => exact ⟨height, peak, reaches, Nat.le_refl peak⟩
  | cons i newer ih =>
      cases reaches with
      | cons reaches found =>
          obtain ⟨height', peak', reaches, le⟩ := ih reaches
          exact ⟨height', peak', reaches, le.trans (Nat.le_max_left _ _)⟩

/-- Loads of constants lie on what is below them. -/
theorem of_loads {cs : List α} (reaches : Reaches (cs.map Instr.const ++ older) height peak) :
    ∃ height' peak', Reaches older height' peak' ∧ height = height' + cs.length ∧
      peak' ≤ peak := by
  induction cs generalizing height peak with
  | nil => exact ⟨height, peak, reaches, rfl, Nat.le_refl peak⟩
  | cons c cs ih =>
      cases reaches with
      | cons reaches found =>
          obtain ⟨height', peak', below, rfl, le⟩ := ih reaches
          exact ⟨height', peak', below, rfl, le.trans (Nat.le_max_left _ _)⟩

theorem of_unary {op : UnaryOp α} (reaches : Reaches (.unary op :: older) height peak) :
    ∃ peak', Reaches older height peak' ∧ peak' ≤ peak := by
  cases reaches with
  | cons reaches found =>
      have one : 1 ≤ _ := found
      refine ⟨_, ?_, Nat.le_max_left _ _⟩
      rwa [Instr.operands, Nat.sub_add_cancel one]

theorem append (reaches : Reaches older height peak) {rest : List (Instr α)}
    (balanced : Balanced height rest) :
    ∃ peak', Reaches (rest.reverse ++ older) (heightAfter height rest) peak' := by
  induction rest generalizing older height peak with
  | nil => exact ⟨peak, reaches⟩
  | cons i rest ih =>
      rw [List.reverse_cons, List.append_assoc]
      exact ih (reaches.cons balanced.1) balanced.2

/-- What follows finds the stack at the height that is reached. -/
theorem resume (reaches : Reaches older height peak) (rest : List (Instr α)) :
    (Balanced 0 (older.reverse ++ rest) ↔ Balanced height rest) ∧
      heightAfter 0 (older.reverse ++ rest) = heightAfter height rest ∧
      peakHeight 0 0 (older.reverse ++ rest) = peakHeight height peak rest := by
  -- From the end: the newest instruction goes over to what follows.
  induction reaches generalizing rest with
  | nil => exact ⟨.rfl, rfl, rfl⟩
  | @cons i older height peak reaches found ih =>
      obtain ⟨balanced, after, top⟩ := ih (i :: rest)
      rw [List.reverse_cons, List.append_assoc, List.singleton_append, balanced, after, top]
      refine ⟨and_iff_right found, rfl, ?_⟩
      rw [peakHeight, Instr.add_effect found, Nat.cast_max]

end Reaches

theorem reaches_reverse_iff {instrs : List (Instr α)} {height peak : Nat} :
    Reaches instrs.reverse height peak ↔
      Balanced 0 instrs ∧ heightAfter 0 instrs = height ∧ peakHeight 0 0 instrs = peak := by
  have facts {height peak : Nat} (reaches : Reaches instrs.reverse height peak) :
      Balanced 0 instrs ∧ heightAfter 0 instrs = height ∧ peakHeight 0 0 instrs = peak := by
    have resumed := reaches.resume []
    rw [List.reverse_reverse, List.append_nil] at resumed
    exact ⟨resumed.1.mpr trivial, resumed.2⟩
  refine ⟨facts, ?_⟩
  rintro ⟨balanced, rfl, top⟩
  obtain ⟨peak', reaches⟩ := Reaches.nil.append balanced
  rw [List.append_nil] at reaches
  have same : (peak' : Int) = peak := (facts reaches).2.2.symm.trans top
  exact Int.ofNat_inj.mp same ▸ reaches

theorem Program.stackDepth_of_reaches {p : Program α} {height peak : Nat}
    (reaches : Reaches p.instrs.reverse height peak) : p.stackDepth = peak := by
  rw [stackDepth, (reaches_reverse_iff.mp reaches).2.2, Int.toNat_natCast]

/-- That the output of a pass reaches the height of what the pass has taken, on a way that is no
higher. -/
def NoHigher (output taken : List (Instr α)) : Prop :=
  ∀ height peak, Reaches taken height peak → ∃ peak', Reaches output height peak' ∧ peak' ≤ peak

theorem NoHigher.refl (instrs : List (Instr α)) : NoHigher instrs instrs :=
  fun _ peak reaches => ⟨peak, reaches, Nat.le_refl peak⟩

theorem NoHigher.trans {first second third : List (Instr α)} (left : NoHigher first second)
    (right : NoHigher second third) : NoHigher first third := by
  intro height peak reaches
  obtain ⟨peak', reaches', le⟩ := right height peak reaches
  obtain ⟨peak'', reaches'', le'⟩ := left height peak' reaches'
  exact ⟨peak'', reaches'', le'.trans le⟩

theorem NoHigher.reduce {output output' taken : List (Instr α)} (noHigher : NoHigher output taken)
    {i : Instr α} (reduction : Reduction output i output') : NoHigher output' (i :: taken) := by
  intro height peak reaches
  cases reduction with
  | kept =>
      cases reaches with
      | cons reaches found =>
          obtain ⟨peak', reaches', le⟩ := noHigher _ _ reaches
          exact ⟨_, reaches'.cons found, max_le_max_right _ le⟩
  | exchanged =>
      cases reaches with
      | cons reaches found =>
          obtain ⟨peak', reaches', le⟩ := noHigher _ _ reaches
          exact ⟨_, reaches'.cons found, max_le_max_right _ le⟩
  | dropped =>
      obtain ⟨peak₁, reaches₁, le₁⟩ := reaches.of_unary
      obtain ⟨peak₂, reaches₂, le₂⟩ := noHigher _ _ reaches₁
      exact ⟨peak₂, reaches₂, le₂.trans le₁⟩
  | cancelled signed =>
      subst signed
      obtain ⟨peak₁, reaches₁, le₁⟩ := reaches.of_unary
      obtain ⟨peak₂, reaches₂, le₂⟩ := noHigher _ _ reaches₁
      obtain ⟨peak₃, reaches₃, le₃⟩ := reaches₂.of_unary
      exact ⟨peak₃, reaches₃, (le₃.trans le₂).trans le₁⟩

theorem noHigher_reduceStrength (instrs : List (Instr α)) :
    NoHigher (reduceStrength instrs).instrs.reverse instrs.reverse := by
  rw [reduceStrength, List.reverse_reverse]
  refine PassResult.run_induction (motive := fun taken r => NoHigher r.instrs taken) (.refl [])
    ?_ instrs
  intro taken r i noHigher
  exact noHigher.reduce (PassResult.reduction_reduce r i)

variable [Width α]

theorem NoHigher.fold {s : Folding α} (loaded : s.Loaded) {taken : List (Instr α)}
    (noHigher : NoHigher s.output taken) (i : Instr α) :
    NoHigher (s.step i).output (i :: taken) := by
  intro height peak reaches
  obtain ⟨loads, rest, j, exchange⟩ := s.exists_exchange i
  have operands := exchange.operands
  cases reaches with
  | @cons _ _ height peak reaches found =>
      obtain ⟨peak', reaches', le⟩ := noHigher _ _ reaches
      rw [loaded.output_eq loads exchange.stack] at reaches'
      obtain ⟨below, peak'', reaches'', rfl, le'⟩ := reaches'.of_loads
      rw [exchange.output']
      have found' : j.operands ≤ below := by omega
      have same : below + loads.length - i.operands + 1 = below - j.operands + 1 := by omega
      rw [same]
      exact ⟨_, reaches''.cons found', max_le_max_right _ (le'.trans le)⟩

theorem noHigher_foldConstants (instrs : List (Instr α)) :
    NoHigher (foldConstants instrs).instrs.reverse instrs.reverse := by
  rw [foldConstants, List.reverse_reverse]
  refine Folding.run_induction (motive := fun taken s => NoHigher s.output taken) (.refl [])
    ?_ instrs
  intro taken s i loaded noHigher
  exact noHigher.fold loaded i

theorem noHigher_settle (instrs : List (Instr α)) :
    NoHigher (settle instrs).reverse instrs.reverse :=
  (noHigher_reduceStrength _).trans (noHigher_foldConstants instrs)

namespace Stack

variable {m m' : Stack α} {point : List α}

omit [Width α] in
theorem size_write? {place : Nat} {a : α} (written : m.write? place a = some m') :
    m'.places.size = m.places.size := by
  unfold write? at written
  split at written
  · rename_i inside
    obtain rfl := Option.some.inj written
    exact Array.size_set inside
  · contradiction

theorem size_step? {i : Instr α} (stepped : m.step? point i = some m') :
    m'.places.size = m.places.size := by
  cases i with
  | const c => exact size_write? stepped
  | slot index => exact size_write? stepped
  | unary op =>
      rw [step?, mapTop?] at stepped
      split at stepped
      · obtain ⟨a, -, written⟩ := Option.bind_eq_some_iff.mp stepped
        exact size_write? written
      · contradiction
  | binary op =>
      rw [step?, combine?] at stepped
      split at stepped
      · obtain ⟨b, -, stepped⟩ := Option.bind_eq_some_iff.mp stepped
        obtain ⟨a, -, written⟩ := Option.bind_eq_some_iff.mp stepped
        exact size_write? written
      · contradiction

theorem size_run? {instrs : List (Instr α)} (ran : m.run? point instrs = some m') :
    m'.places.size = m.places.size := by
  induction instrs generalizing m with
  | nil =>
      obtain rfl := Option.some.inj ran
      rfl
  | cons i rest ih =>
      rw [run?, List.foldlM_cons] at ran
      obtain ⟨m₁, stepped, ran⟩ := Option.bind_eq_some_iff.mp ran
      exact (ih ran).trans (size_step? stepped)

end Stack

theorem length_of_exec? {instrs : List (Instr α)} {point s t : List α}
    (done : exec? point instrs s = some t) : t.length = heightAfter s.length instrs := by
  induction instrs generalizing s with
  | nil =>
      obtain rfl := Option.some.inj done
      rfl
  | cons i rest ih =>
      rw [exec?_cons, Option.bind_eq_some_iff] at done
      obtain ⟨u, step, after⟩ := done
      rw [heightAfter, ← Instr.height_of_exec? step]
      exact ih after

namespace Program

/-- Where the machine stands before an instruction of a balanced program: it has come there, the
operands lie on the stack, and there is a place for the value. -/
theorem stands_before {p : Program α} (balanced : Balanced 0 p.instrs) {done rest : List (Instr α)}
    {i : Instr α} (split : p.instrs = done ++ i :: rest) (point : List α) {size : Nat}
    (room : p.stackDepth ≤ size) :
    ∃ m, (Stack.empty size).run? point done = some m ∧ m.places.size = size ∧
      i.operands ≤ m.height ∧ m.height ≤ size ∧ m.height - i.operands < size := by
  obtain ⟨peak, reaches⟩ := Reaches.nil.append balanced
  rw [List.append_nil] at reaches
  rw [stackDepth_of_reaches reaches] at room
  rw [split, List.reverse_append, List.reverse_cons, List.append_assoc] at reaches
  obtain ⟨height, peak', reaches, le⟩ := reaches.of_append
  cases reaches with
  | @cons _ _ height peak' reaches found =>
      obtain ⟨balanced, reached, -⟩ := reaches_reverse_iff.mp reaches
      obtain ⟨s, outcome⟩ : ∃ s, exec? point done [] = some s :=
        exists_exec?_iff_balanced (s := []).mpr balanced
      have depth : stackDepth ⟨done, none, none⟩ = peak' := stackDepth_of_reaches reaches
      have enough : stackDepth ⟨done, none, none⟩ ≤ size := by omega
      obtain ⟨m, runs, holds⟩ := holds_of_exec? outcome enough
      have height : m.height = height := by
        rw [holds.height, length_of_exec? outcome]
        exact reached
      have low := reaches.height_le
      refine ⟨m, runs, ?_, ?_, ?_, ?_⟩
      · rw [Stack.size_run? runs]
        exact Array.size_replicate
      · omega
      · omega
      · omega

/-- A balanced program that leaves one value keeps within a stack of the depth that it needs, at
every instruction, and comes to that value. Optimised it is balanced again, leaves one value, and
needs no deeper stack. -/
theorem run_safe {p : Program α} (balanced : Balanced 0 p.instrs)
    (single : heightAfter 0 p.instrs = 1) :
    (∀ point : List α,
      (∀ done i rest, p.instrs = done ++ i :: rest →
        ∃ m, (Stack.empty (max p.stackDepth 1)).run? point done = some m ∧
          m.places.size = max p.stackDepth 1 ∧ i.operands ≤ m.height ∧
          m.height ≤ max p.stackDepth 1 ∧ m.height - i.operands < max p.stackDepth 1) ∧
      ∃ a, exec? point p.instrs [] = some [a] ∧ p.run? point = some a) ∧
    Balanced 0 p.optimize.value.instrs ∧ heightAfter 0 p.optimize.value.instrs = 1 ∧
    p.optimize.value.stackDepth ≤ p.stackDepth := by
  constructor
  · intro point
    constructor
    · intro done i rest split
      exact stands_before balanced split point (Nat.le_max_left _ _)
    · obtain ⟨s, outcome⟩ : ∃ s, exec? point p.instrs [] = some s :=
        exists_exec?_iff_balanced (s := []).mpr balanced
      have length : s.length = 1 := (length_of_exec? outcome).trans single
      obtain ⟨a, rfl⟩ := List.length_eq_one_iff.mp length
      exact ⟨a, outcome, run?_eq_some outcome⟩
  · obtain ⟨peak, reaches⟩ := Reaches.nil.append balanced
    rw [List.append_nil] at reaches
    obtain ⟨peak', reaches', le⟩ := noHigher_settle p.instrs _ _ reaches
    rw [← instrs_optimize] at reaches'
    obtain ⟨balanced', height', -⟩ := reaches_reverse_iff.mp reaches'
    refine ⟨balanced', height'.trans single, ?_⟩
    rw [stackDepth_of_reaches reaches, stackDepth_of_reaches reaches']
    exact le

/-- A program whose constants meet at its greatest height, so that it needs less room once they are
folded. -/
theorem run_safe_difference :
    let p : Program Float :=
      ⟨[.slot 0, .const 2, .const 3, .binary .mul, .binary .sub, .unary (.powInt 1)], some 0, none⟩
    Balanced 0 p.instrs ∧ heightAfter 0 p.instrs = 1 ∧ p.stackDepth = 3 ∧
      p.run? [5] = some (-1) ∧ p.optimize.value.stackDepth ≤ 3 := by
  intro p
  have balanced : Balanced 0 p.instrs := by decide
  have single : heightAfter 0 p.instrs = 1 := by decide
  obtain ⟨runs, -, -, depth⟩ := run_safe balanced single
  obtain ⟨-, a, outcome, value⟩ := runs [5]
  have before : exec? [5] p.instrs [] = some [-1] := rfl
  rw [before] at outcome
  have same : [-1] = [a] := Option.some.inj outcome
  rw [← List.singleton_inj.mp same] at value
  exact ⟨balanced, single, rfl, value, depth⟩

end Program

end Formula
