import Formula.Term
import Mathlib.Tactic

/-!
The readers of tokens as equations. A reader returns the proof that it went on beside what it
read; `plain` leaves the proof out, and each reader is then a chain of the readers it calls.
-/

set_option autoImplicit false

namespace Formula

variable {limit : Nat}

def Cursor.kinds (c : Cursor limit) : List TokenKind := c.rest.map (·.kind)

def Cursor.enter (c : Cursor limit) (rest : List Token) (position : Nat) :
    Except ParseError (Cursor limit) :=
  (c.openGroup rest position).map (·.1)

theorem Cursor.enter_eq_ok {c inner : Cursor limit} {rest : List Token} {position : Nat}
    (opened : c.enter rest position = .ok inner) :
    inner.rest = rest ∧ inner.level = c.level + 1 ∧ inner.names = c.names := by
  unfold enter openGroup at opened
  split at opened
  · cases opened
    exact ⟨rfl, rfl, rfl⟩
  · contradiction

theorem Cursor.length_lt_of_enter {c inner : Cursor limit} {token : Token} {rest : List Token}
    {position : Nat} (hrest : c.rest = token :: rest)
    (opened : c.enter rest position = .ok inner) : inner.rest.length < c.rest.length := by
  rw [(enter_eq_ok opened).1, hrest]
  exact Nat.lt_succ_self _

theorem Cursor.suffix_of_enter {c inner : Cursor limit} {token : Token} {rest : List Token}
    {position : Nat} (hrest : c.rest = token :: rest)
    (opened : c.enter rest position = .ok inner) : inner.rest <:+ c.rest := by
  rw [(enter_eq_ok opened).1, hrest]
  exact List.suffix_cons token rest

theorem Cursor.enter_of_le {c : Cursor limit} (shallow : c.level + 1 ≤ limit)
    (rest : List Token) (position : Nat) :
    c.enter rest position =
      .ok { c with rest, level := c.level + 1, level_le := shallow } := by
  unfold enter openGroup
  rw [dif_pos shallow]
  rfl

theorem Cursor.enter_of_lt {c : Cursor limit} (deep : limit < c.level + 1)
    (rest : List Token) (position : Nat) :
    c.enter rest position = .error (.nestingTooDeep limit position) := by
  unfold enter openGroup
  rw [dif_neg (Nat.not_le.mpr deep)]
  rfl

theorem growHeight_eq_ok {height position grown : Nat}
    (ok : growHeight limit height position = .ok grown) :
    grown = height + 1 ∧ height + 1 ≤ limit := by
  unfold growHeight at ok
  split at ok
  · rename_i low
    cases ok
    exact ⟨rfl, low⟩
  · contradiction

theorem bind_eq_ok {ε α β : Type} {x : Except ε α} {f : α → Except ε β} {b : β}
    (ok : x.bind f = .ok b) : ∃ a, x = .ok a ∧ f a = .ok b := by
  cases x with
  | error e => contradiction
  | ok a => exact ⟨a, rfl, ok⟩

theorem bind_assoc {ε α β γ : Type} (x : Except ε α) (f : α → Except ε β) (g : β → Except ε γ) :
    (x.bind f).bind g = x.bind fun a => (f a).bind g := by
  cases x <;> rfl

namespace Parse

/-- What has been read, without the proof that something was. -/
def plain {passed : Parsed limit → Prop} (r : Except ParseError { p : Parsed limit // passed p }) :
    Except ParseError (Parsed limit) :=
  r.map (·.1)

@[simp] theorem plain_ok {passed : Parsed limit → Prop}
    (p : { p : Parsed limit // passed p }) : plain (.ok p) = .ok p.1 := rfl

@[simp] theorem plain_error {passed : Parsed limit → Prop} (e : ParseError) :
    plain (.error e : Except ParseError { p : Parsed limit // passed p }) = .error e := rfl

theorem passed_of_plain {passed : Parsed limit → Prop}
    {r : Except ParseError { p : Parsed limit // passed p }} {p : Parsed limit}
    (ok : plain r = .ok p) : passed p := by
  cases r with
  | error e => contradiction
  | ok q =>
      cases ok
      exact q.2

theorem plain_expression (least : Nat) (c : Cursor limit) :
    plain (expression least c) =
      (plain (signed c)).bind fun first => plain (operators least first) := by
  rw [expression]
  cases signed c with
  | error e => rfl
  | ok first => cases h : operators least first.1 <;> simp [plain, Except.bind, Except.map, h]

theorem plain_operators (least : Nat) (left : Parsed limit) :
    plain (operators least left) =
      match left.stop.rest with
      | ⟨.operator op, position⟩ :: rest =>
          if op.precedence < least then .ok left
          else
            (left.stop.enter rest position).bind fun inner =>
            (plain (expression op.rightPrecedence inner)).bind fun right =>
            (growHeight limit (max left.height right.height) position).bind fun height =>
            plain (operators least
              ⟨.binary op left.term right.term, height, right.stop.closeGroup⟩)
      | _ => .ok left := by
  rw [operators]
  split
  · rename_i op position rest hrest
    simp only [hrest]
    split
    · rfl
    · simp only [Cursor.enter]
      cases left.stop.openGroup rest position with
      | error e => rfl
      | ok inner =>
          simp only [Except.map, Except.bind]
          cases expression op.rightPrecedence inner.1 with
          | error e => rfl
          | ok right =>
              simp only [plain, Except.map]
              cases growHeight limit (max left.height right.1.height) position with
              | error e => rfl
              | ok height =>
                  dsimp only
                  cases operators least
                    ⟨.binary op left.term right.1.term, height, right.1.stop.closeGroup⟩ <;> rfl
  · split
    · simp_all
    · rfl

theorem plain_primary (c : Cursor limit) :
    plain (primary c) =
      match c.rest with
      | [] => .error .unexpectedEnd
      | ⟨.number value, _⟩ :: rest => .ok ⟨.number value, 1, c.moveTo rest⟩
      | ⟨.name name, position⟩ :: rest =>
          if rest.head?.any (·.kind = .left) then .error (.unknownFunction name position)
          else .ok ⟨.var name, 1, { c with rest, names := c.names.insert name }⟩
      | ⟨.left, position⟩ :: rest =>
          (c.enter rest position).bind fun inner =>
          (plain (expression 0 inner)).bind fun body =>
          match body.stop.rest with
          | ⟨.right, _⟩ :: after => .ok { body with stop := body.stop.closeGroup.moveTo after }
          | [] => .error (.unbalancedParentheses position)
          | other :: _ => .error (.unexpectedToken other.kind.text other.position)
      | other :: _ => .error (.unexpectedToken other.kind.text other.position) := by
  rw [primary]
  split
  · rename_i hrest
    simp only [hrest]
    rfl
  · rename_i hrest
    simp only [hrest]
    rfl
  · rename_i hrest
    simp only [hrest]
    split <;> rfl
  · rename_i position rest hrest
    simp only [hrest, Cursor.enter]
    cases c.openGroup rest position with
    | error e => rfl
    | ok inner =>
        simp only [Except.map, Except.bind]
        cases expression 0 inner.1 with
        | error e => rfl
        | ok body =>
            simp only [plain_ok]
            split
            · rename_i hstop
              simp only [hstop, plain_ok]
            · rename_i hstop
              simp only [hstop, plain_error]
            · rename_i other after notRight hstop
              obtain ⟨kind, position⟩ := other
              simp only [hstop]
              cases kind <;> simp_all
  · rename_i other rest notNumber notName notLeft hrest
    obtain ⟨kind, position⟩ := other
    simp only [hrest]
    cases kind <;> simp_all [plain, Except.map]

theorem plain_application (c : Cursor limit) :
    plain (application c) =
      match c.rest with
      | ⟨.function f, position⟩ :: rest =>
          (c.enter rest position).bind fun inner =>
          if rest.head?.any (·.kind.startsOperand) then
            (plain (application inner)).bind fun argument =>
            (growHeight limit argument.height position).bind fun height =>
            .ok ⟨.call f argument.term, height, argument.stop.closeGroup⟩
          else .error (.missingOperand f.name position)
      | _ => plain (primary c) := by
  rw [application]
  split
  · rename_i f position rest hrest
    simp only [hrest, Cursor.enter]
    cases c.openGroup rest position with
    | error e => rfl
    | ok inner =>
        simp only [Except.map, Except.bind]
        split
        · cases application inner.1 with
          | error e => rfl
          | ok argument =>
              simp only [plain, Except.map]
              cases growHeight limit argument.1.height position <;> rfl
        · rfl
  · split <;> simp_all

theorem plain_signed (c : Cursor limit) :
    plain (signed c) =
      match c.rest with
      | ⟨.operator .sub, position⟩ :: rest =>
          (c.enter rest position).bind fun inner =>
          (plain (signed inner)).bind fun body =>
          (growHeight limit body.height position).bind fun height =>
          .ok ⟨.neg body.term, height, body.stop.closeGroup⟩
      | ⟨.operator .add, position⟩ :: rest =>
          (c.enter rest position).bind fun inner =>
          (plain (signed inner)).bind fun body =>
          .ok { body with stop := body.stop.closeGroup }
      | _ => plain (application c) := by
  rw [signed]
  split
  · rename_i hrest
    simp only [plain_application, plain_primary, hrest]
    rfl
  · rename_i position rest hrest
    simp only [hrest, Cursor.enter]
    cases c.openGroup rest position with
    | error e => rfl
    | ok inner =>
        simp only [Except.map, Except.bind]
        cases signed inner.1 with
        | error e => rfl
        | ok body =>
            simp only [plain, Except.map]
            cases growHeight limit body.1.height position <;> rfl
  · rename_i position rest hrest
    simp only [hrest, Cursor.enter]
    cases c.openGroup rest position with
    | error e => rfl
    | ok inner =>
        simp only [Except.map, Except.bind]
        cases signed inner.1 <;> rfl
  · split <;> simp_all

end Parse

end Formula
