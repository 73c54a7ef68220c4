import Formula.Proofs.Term.Blamed
import Formula.Proofs.Term.Completeness
import Formula.Proofs.Term.Parentheses

/-!
The calls of the readers. A reader calls others in the group that it is in, or opens a group at a
token and calls one behind it. So a cursor counts the groups that are open at a call, and a reader
that succeeds has closed those it has opened. Calls cannot be nested forever, since each has fewer
tokens to come than its caller, or as many and comes later in the row of the readers.
-/

set_option autoImplicit false

namespace Formula

variable {limit : Nat}

/-- The readers that start at a cursor. -/
inductive Reader where
  | expression (least : Nat)
  | signed
  | application
  | primary

namespace Reader

def symbol : Reader → Symbol
  | expression least => .ofPrecedence least
  | signed => .unary
  | application => .application
  | primary => .primary

def read : Reader → Cursor limit → Except ParseError (Parsed limit)
  | expression least, c => Parse.plain (Parse.expression least c)
  | signed, c => Parse.plain (Parse.signed c)
  | application, c => Parse.plain (Parse.application c)
  | primary, c => Parse.plain (Parse.primary c)

variable {reader : Reader} {c : Cursor limit} {p : Parsed limit}

theorem reads (ok : reader.read c = .ok p) : Reads reader.symbol c p := by
  cases reader with
  | expression least => exact (Parse.reads_expression least c ok).1
  | signed => exact Parse.reads_signed c ok
  | application => exact Parse.reads_application c ok
  | primary => exact Parse.reads_primary c ok

theorem suffix (ok : reader.read c = .ok p) : p.stop.rest <:+ c.rest := by
  cases reader with
  | expression least => exact (Parse.keeps_expression least c).suffix ok
  | signed => exact (Parse.keeps_signed c).suffix ok
  | application => exact (Parse.keeps_application c).suffix ok
  | primary => exact (Parse.keeps_primary c).suffix ok

theorem shorter (ok : reader.read c = .ok p) : p.stop.rest.length < c.rest.length := by
  cases reader <;> exact Parse.passed_of_plain ok

end Reader

/-- A call: of a reader at a cursor, or of the loop over the operators behind a left operand. -/
inductive Call (limit : Nat) where
  | read (reader : Reader) (c : Cursor limit)
  | loop (least : Nat) (left : Parsed limit)

namespace Call

def cursor : Call limit → Cursor limit
  | read _ c => c
  | loop _ left => left.stop

def answer : Call limit → Except ParseError (Parsed limit)
  | read reader c => reader.read c
  | loop least left => Parse.plain (Parse.operators least left)

/-- What a call does, with `ask` for the calls that it makes. -/
def body (ask : Call limit → Except ParseError (Parsed limit)) :
    Call limit → Except ParseError (Parsed limit)
  | read (.expression least) c =>
      (ask (read .signed c)).bind fun first => ask (loop least first)
  | loop least left =>
      match left.stop.rest with
      | ⟨.operator op, position⟩ :: rest =>
          if op.precedence < least then .ok left
          else
            (left.stop.enter rest position).bind fun inner =>
            (ask (read (.expression op.rightPrecedence) inner)).bind fun right =>
            (growHeight limit (max left.height right.height) position).bind fun height =>
            ask (loop least ⟨.binary op left.term right.term, height, right.stop.closeGroup⟩)
      | _ => .ok left
  | read .signed c =>
      match c.rest with
      | ⟨.operator .sub, position⟩ :: rest =>
          (c.enter rest position).bind fun inner =>
          (ask (read .signed inner)).bind fun body =>
          (growHeight limit body.height position).bind fun height =>
          .ok ⟨.neg body.term, height, body.stop.closeGroup⟩
      | ⟨.operator .add, position⟩ :: rest =>
          (c.enter rest position).bind fun inner =>
          (ask (read .signed inner)).bind fun body =>
          .ok { body with stop := body.stop.closeGroup }
      | _ => ask (read .application c)
  | read .application c =>
      match c.rest with
      | ⟨.function f, position⟩ :: rest =>
          (c.enter rest position).bind fun inner =>
          if rest.head?.any (·.kind.startsOperand) then
            (ask (read .application inner)).bind fun argument =>
            (growHeight limit argument.height position).bind fun height =>
            .ok ⟨.call f argument.term, height, argument.stop.closeGroup⟩
          else .error (.missingOperand f.name position)
      | _ => ask (read .primary c)
  | read .primary c =>
      match c.rest with
      | [] => .error .unexpectedEnd
      | ⟨.number value, _⟩ :: rest => .ok ⟨.number value, 1, c.moveTo rest⟩
      | ⟨.name name, position⟩ :: rest =>
          if rest.head?.any (·.kind = .left) then .error (.unknownFunction name position)
          else .ok ⟨.var name, 1, { c with rest, names := c.names.insert name }⟩
      | ⟨.left, position⟩ :: rest =>
          (c.enter rest position).bind fun inner =>
          (ask (read (.expression 0) inner)).bind fun body =>
          match body.stop.rest with
          | ⟨.right, _⟩ :: after => .ok { body with stop := body.stop.closeGroup.moveTo after }
          | [] => .error (.unbalancedParentheses position)
          | other :: _ => .error (.unexpectedToken other.kind.text other.position)
      | other :: _ => .error (.unexpectedToken other.kind.text other.position)

theorem answer_eq_body (a : Call limit) : a.answer = a.body answer := by
  match a with
  | read (.expression least) c => exact Parse.plain_expression least c
  | loop least left => exact Parse.plain_operators least left
  | read .signed c => exact Parse.plain_signed c
  | read .application c => exact Parse.plain_application c
  | read .primary c => exact Parse.plain_primary c

/-- The calls that a call may make in the group that it is in. -/
inductive Continues : Call limit → Call limit → Prop
  | signed {least c} : Continues (read (.expression least) c) (read .signed c)
  | loop {least c first} : Reader.signed.read c = .ok first →
      Continues (read (.expression least) c) (loop least first)
  | again {least op position rest inner height} {left right : Parsed limit} :
      left.stop.rest = ⟨.operator op, position⟩ :: rest →
      left.stop.enter rest position = .ok inner →
      (Reader.expression op.rightPrecedence).read inner = .ok right →
      growHeight limit (max left.height right.height) position = .ok height →
      Continues (loop least left)
        (loop least ⟨.binary op left.term right.term, height, right.stop.closeGroup⟩)
  | application {c} : Continues (read .signed c) (read .application c)
  | primary {c} : Continues (read .application c) (read .primary c)

/-- The calls that a call may make in a group of their own, which it opens at a token. -/
inductive Enters : Call limit → Call limit → Prop
  | right {least op position rest inner} {left : Parsed limit} :
      left.stop.rest = ⟨.operator op, position⟩ :: rest →
      left.stop.enter rest position = .ok inner →
      Enters (loop least left) (read (.expression op.rightPrecedence) inner)
  | sign {op position rest inner} {c : Cursor limit} :
      c.rest = ⟨.operator op, position⟩ :: rest → c.enter rest position = .ok inner →
      Enters (read .signed c) (read .signed inner)
  | operand {f position rest inner} {c : Cursor limit} :
      c.rest = ⟨.function f, position⟩ :: rest → c.enter rest position = .ok inner →
      Enters (read .application c) (read .application inner)
  | group {position rest inner} {c : Cursor limit} :
      c.rest = ⟨.left, position⟩ :: rest → c.enter rest position = .ok inner →
      Enters (read .primary c) (read (.expression 0) inner)

variable {a b : Call limit}

theorem Enters.exists_token (enters : a.Enters b) :
    ∃ token rest, a.cursor.rest = token :: rest ∧
      a.cursor.enter rest token.position = .ok b.cursor := by
  cases enters with
  | right hrest opened => exact ⟨_, _, hrest, opened⟩
  | sign hrest opened => exact ⟨_, _, hrest, opened⟩
  | operand hrest opened => exact ⟨_, _, hrest, opened⟩
  | group hrest opened => exact ⟨_, _, hrest, opened⟩

theorem Enters.level_eq (enters : a.Enters b) : b.cursor.level = a.cursor.level + 1 := by
  obtain ⟨token, rest, -, opened⟩ := enters.exists_token
  exact (Cursor.enter_eq_ok opened).2.1

theorem Enters.suffix (enters : a.Enters b) : b.cursor.rest <:+ a.cursor.rest := by
  obtain ⟨token, rest, hrest, opened⟩ := enters.exists_token
  exact Cursor.suffix_of_enter hrest opened

theorem Enters.shorter (enters : a.Enters b) :
    b.cursor.rest.length < a.cursor.rest.length := by
  obtain ⟨token, rest, hrest, opened⟩ := enters.exists_token
  exact Cursor.length_lt_of_enter hrest opened

/-- The loop goes on in the group in which it was, since the operand has closed its own. -/
theorem Continues.level_eq (continues : a.Continues b) : b.cursor.level = a.cursor.level := by
  cases continues with
  | signed => rfl
  | loop ok => exact (Reader.reads ok).level_eq
  | again hrest opened ok grown =>
      have hlevel := (Cursor.enter_eq_ok opened).2.1
      exact congrArg (· - 1) ((Reader.reads ok).level_eq.trans hlevel)
  | application => rfl
  | primary => rfl

theorem Continues.suffix (continues : a.Continues b) : b.cursor.rest <:+ a.cursor.rest := by
  cases continues with
  | signed => exact List.suffix_refl _
  | loop ok => exact Reader.suffix ok
  | again hrest opened ok grown =>
      have within := Cursor.suffix_of_enter hrest opened
      exact (Reader.suffix ok).trans within
  | application => exact List.suffix_refl _
  | primary => exact List.suffix_refl _

/-- The place of a call in the row in which calls follow on each other at one token. -/
def rank : Call limit → Nat
  | read (.expression _) _ => 4
  | read .signed _ => 3
  | read .application _ => 2
  | read .primary _ => 1
  | loop _ _ => 0

def Makes (a b : Call limit) : Prop := a.Continues b ∨ a.Enters b

def measure (a : Call limit) : Nat ×ₗ Nat := toLex (a.cursor.rest.length, a.rank)

theorem measure_lt_of_shorter (shorter : b.cursor.rest.length < a.cursor.rest.length) :
    b.measure < a.measure := Prod.Lex.toLex_lt_toLex.mpr (.inl shorter)

theorem measure_lt_of_rank (same : b.cursor = a.cursor) (lower : b.rank < a.rank) :
    b.measure < a.measure := Prod.Lex.toLex_lt_toLex.mpr (.inr ⟨by rw [same], lower⟩)

theorem Makes.decreases (makes : a.Makes b) : b.measure < a.measure := by
  rcases makes with continues | enters
  · cases continues with
    | signed => exact measure_lt_of_rank rfl (Nat.lt_succ_self 3)
    | loop ok => exact measure_lt_of_shorter (Reader.shorter ok)
    | again hrest opened ok grown =>
        have entered := Cursor.length_lt_of_enter hrest opened
        have closed := Reader.shorter ok
        exact measure_lt_of_shorter (Nat.lt_trans closed entered)
    | application => exact measure_lt_of_rank rfl (Nat.lt_succ_self 2)
    | primary => exact measure_lt_of_rank rfl (Nat.lt_succ_self 1)
  · exact measure_lt_of_shorter enters.shorter

theorem wellFounded_makes : WellFounded fun b a : Call limit => a.Makes b :=
  (InvImage.wf measure wellFounded_lt).mono fun _ _ makes => makes.decreases

theorem bind_congr {ε α β : Type} {x y : Except ε α} {f g : α → Except ε β} (same : x = y)
    (after : ∀ b, y = .ok b → f b = g b) : x.bind f = y.bind g := by
  subst same
  cases x with
  | error e => rfl
  | ok b => exact after b rfl

/-- A call depends on the calls that it makes, and on nothing else. -/
theorem body_eq_answer {ask : Call limit → Except ParseError (Parsed limit)}
    (same : ∀ b, a.Makes b → ask b = b.answer) : a.body ask = a.answer := by
  rw [answer_eq_body]
  match a with
  | read (.expression least) c =>
      refine bind_congr (same _ (.inl .signed)) ?_
      intro first ok
      exact same _ (.inl (.loop ok))
  | loop least left =>
      unfold body
      dsimp only
      split
      · rename_i op position rest hrest
        split_ifs
        · rfl
        · refine bind_congr rfl ?_
          intro inner opened
          refine bind_congr (same _ (.inr (.right hrest opened))) ?_
          intro right ok
          refine bind_congr rfl ?_
          intro height grown
          exact same _ (.inl (.again hrest opened ok grown))
      · rfl
  | read .signed c =>
      unfold body
      dsimp only
      split
      · rename_i position rest hrest
        refine bind_congr rfl ?_
        intro inner opened
        exact bind_congr (same _ (.inr (.sign hrest opened))) fun _ _ => rfl
      · rename_i position rest hrest
        refine bind_congr rfl ?_
        intro inner opened
        exact bind_congr (same _ (.inr (.sign hrest opened))) fun _ _ => rfl
      · exact same _ (.inl .application)
  | read .application c =>
      unfold body
      dsimp only
      split
      · rename_i f position rest hrest
        refine bind_congr rfl ?_
        intro inner opened
        split_ifs
        · exact bind_congr (same _ (.inr (.operand hrest opened))) fun _ _ => rfl
        · rfl
      · exact same _ (.inl .primary)
  | read .primary c =>
      unfold body
      dsimp only
      split
      · rfl
      · rfl
      · rfl
      · rename_i position rest hrest
        refine bind_congr rfl ?_
        intro inner opened
        exact bind_congr (same _ (.inr (.group hrest opened))) fun _ _ => rfl
      · rfl

/-- There is one way to answer all calls. -/
theorem solves_iff {ask : Call limit → Except ParseError (Parsed limit)} :
    (∀ a, ask a = a.body ask) ↔ ask = answer := by
  constructor
  · intro solves
    funext a
    induction a using wellFounded_makes.induction with
    | _ a ih => rw [solves a, body_eq_answer ih]
  · rintro rfl
    exact answer_eq_body

/-- That reading a row of tokens makes a call while `n` groups are open. -/
inductive OpenAt (tokens : List Token) : Nat → Call limit → Prop
  | start : OpenAt tokens 0 (read (.expression 0) (.start limit tokens))
  | continues {n a b} : OpenAt tokens n a → a.Continues b → OpenAt tokens n b
  | enters {n a b} : OpenAt tokens n a → a.Enters b → OpenAt tokens (n + 1) b

namespace OpenAt

variable {tokens : List Token} {n : Nat}

theorem level_eq (called : OpenAt tokens n a) : a.cursor.level = n := by
  induction called with
  | start => rfl
  | continues called continues ih => rw [continues.level_eq, ih]
  | enters called enters ih => rw [enters.level_eq, ih]

theorem suffix (called : OpenAt tokens n a) : a.cursor.rest <:+ tokens := by
  induction called with
  | start => exact List.suffix_refl _
  | continues called continues ih => exact continues.suffix.trans ih
  | enters called enters ih => exact enters.suffix.trans ih

end OpenAt

end Call

/-- While a row of tokens is read, the level of a cursor is the number of open groups, and never
more than the limit. A reader that succeeds goes on by at least one token and has closed the groups
that it has opened; the height that it returns is that of its tree. A call depends on the calls that
it makes, and these cannot be nested without end, so that the readers' equations determine what they
return. No tree that is read is higher than the limit. -/
theorem Term.ofTokens_calls (tokens : List Token) :
    (∀ n reader (c : Cursor maxNesting), Call.OpenAt tokens n (.read reader c) →
      c.level = n ∧ n ≤ maxNesting ∧ c.rest <:+ tokens ∧
      ∀ p, reader.read c = .ok p →
        p.stop.level = n ∧ p.stop.rest <:+ c.rest ∧ p.stop.rest.length < c.rest.length ∧
        p.height = p.term.height ∧ p.height ≤ maxNesting) ∧
    (WellFounded fun b a : Call maxNesting => a.Makes b) ∧
    (∀ ask : Call maxNesting → Except ParseError (Parsed maxNesting),
      (∀ a : Call maxNesting, (∀ b, a.Makes b → ask b = b.answer) → a.body ask = a.answer) ∧
      ((∀ a, ask a = a.body ask) ↔ ask = Call.answer)) ∧
    ∀ term names, ofTokens tokens = .ok (term, names) → term.height ≤ maxNesting := by
  refine ⟨?_, Call.wellFounded_makes,
    fun ask => ⟨fun a => Call.body_eq_answer, Call.solves_iff⟩, ?_⟩
  · intro n reader c called
    have level : c.level = n := called.level_eq
    refine ⟨level, level ▸ c.level_le, called.suffix, ?_⟩
    intro p ok
    have reads := Reader.reads ok
    exact ⟨reads.level_eq.trans level, Reader.suffix ok, Reader.shorter ok, reads.height_eq,
      reads.height_le⟩
  · intro term names ok
    obtain ⟨depth, -, low, -⟩ := derives_of_ofTokens ok
    exact low

/-- In `-x` one group is open when the operand of the sign is read, and still behind the operand. -/
theorem Term.ofTokens_calls_sign :
    let tokens : List Token := [⟨.operator .sub, 0⟩, ⟨.name "x", 1⟩]
    let inner : Cursor maxNesting := ⟨[⟨.name "x", 1⟩], 1, ∅, by decide⟩
    let stop : Cursor maxNesting := ⟨[], 1, Names.insert ∅ "x", by decide⟩
    Call.OpenAt tokens 1 (.read .signed inner) ∧
      Reader.signed.read inner = .ok ⟨.var "x", 1, stop⟩ ∧ stop.level = 1 ∧
      ofTokens tokens = .ok (.neg (.var "x"), Names.insert ∅ "x") ∧
      (neg (var "x")).height ≤ maxNesting := by
  intro tokens inner stop
  have called : Call.OpenAt tokens 1 (.read .signed inner) :=
    (Call.OpenAt.start.continues .signed).enters (.sign rfl rfl)
  have ok : Reader.signed.read inner = .ok ⟨.var "x", 1, stop⟩ := by cbv
  have accepted : ofTokens tokens = .ok (.neg (.var "x"), Names.insert ∅ "x") := by cbv
  obtain ⟨calls, -, -, low⟩ := ofTokens_calls tokens
  obtain ⟨-, -, -, closed⟩ := calls 1 .signed inner called
  exact ⟨called, ok, (closed _ ok).1, accepted, low _ _ accepted⟩

end Formula
