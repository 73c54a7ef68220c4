import Formula.Term
import Mathlib.Tactic

/-!
The grammar of formulas. From the loosest symbol to the tightest:

    sum         = product | sum (+ | -) product
    product     = power | product (* | /) power
    power       = unary | unary ^ power
    unary       = application | (- | +) unary
    application = primary | function application
    primary     = number | name, but not before a left parenthesis | ( sum )

A plus and parentheses add nothing to the tree.
-/

set_option autoImplicit false

namespace Formula

inductive Symbol where
  | sum | product | power | unary | application | primary

/-- That `input` starts with a symbol, with `rest` behind it. The tree of the symbol is `term`,
and `depth` is the greatest number of its groups that are open at one token: parentheses, signs,
operands of functions and right operands. -/
inductive Derives : (symbol : Symbol) → (input rest : List TokenKind) → (term : Term) →
    (depth : Nat) → Prop
  | number {value rest} : Derives .primary (.number value :: rest) rest (.number value) 0
  | name {text rest} : rest.head? ≠ some .left →
      Derives .primary (.name text :: rest) rest (.var text) 0
  | group {input rest term depth} : Derives .sum input (.right :: rest) term depth →
      Derives .primary (.left :: input) rest term (depth + 1)
  | ofPrimary {input rest term depth} : Derives .primary input rest term depth →
      Derives .application input rest term depth
  | call {f input rest term depth} : Derives .application input rest term depth →
      Derives .application (.function f :: input) rest (.call f term) (depth + 1)
  | ofApplication {input rest term depth} : Derives .application input rest term depth →
      Derives .unary input rest term depth
  | minus {input rest term depth} : Derives .unary input rest term depth →
      Derives .unary (.operator .sub :: input) rest (.neg term) (depth + 1)
  | plus {input rest term depth} : Derives .unary input rest term depth →
      Derives .unary (.operator .add :: input) rest term (depth + 1)
  | ofUnary {input rest term depth} : Derives .unary input rest term depth →
      Derives .power input rest term depth
  | power {input middle rest l r dl dr} : Derives .unary input (.operator .pow :: middle) l dl →
      Derives .power middle rest r dr →
      Derives .power input rest (.binary .pow l r) (max dl (dr + 1))
  | ofPower {input rest term depth} : Derives .power input rest term depth →
      Derives .product input rest term depth
  | product {op input middle rest l r dl dr} : op = .mul ∨ op = .div →
      Derives .product input (.operator op :: middle) l dl → Derives .power middle rest r dr →
      Derives .product input rest (.binary op l r) (max dl (dr + 1))
  | ofProduct {input rest term depth} : Derives .product input rest term depth →
      Derives .sum input rest term depth
  | sum {op input middle rest l r dl dr} : op = .add ∨ op = .sub →
      Derives .sum input (.operator op :: middle) l dl → Derives .product middle rest r dr →
      Derives .sum input rest (.binary op l r) (max dl (dr + 1))

/-- The symbol whose operators have at least the given precedence. -/
def Symbol.ofPrecedence : Nat → Symbol
  | 0 | 1 => sum
  | 2 => product
  | 3 => power
  | _ => unary

/-- The least binding power of an operator inside the left operand. -/
def Operator.leftPrecedence (op : Operator) : Nat :=
  if op.isRightAssociative then op.precedence + 1 else op.precedence

namespace Derives

variable {input middle rest : List TokenKind} {term l r : Term} {depth dl dr m n : Nat}

/-- What has tight operators only may stand where looser ones are allowed. -/
theorem loosen (hle : m ≤ n) (derives : Derives (.ofPrecedence n) input rest term depth) :
    Derives (.ofPrecedence m) input rest term depth := by
  induction n, hle using Nat.le_induction with
  | base => exact derives
  | succ n hle ih =>
      apply ih
      match n with
      | 0 => exact derives
      | 1 => exact .ofProduct derives
      | 2 => exact .ofPower derives
      | 3 => exact .ofUnary derives
      | _ + 4 => exact derives

/-- The rules of the operators in one: the precedences of an operator name the symbols of its
operands. -/
theorem binary {op : Operator}
    (left : Derives (.ofPrecedence op.leftPrecedence) input (.operator op :: middle) l dl)
    (right : Derives (.ofPrecedence op.rightPrecedence) middle rest r dr) :
    Derives (.ofPrecedence op.precedence) input rest (.binary op l r) (max dl (dr + 1)) := by
  cases op with
  | add => exact .sum (.inl rfl) left right
  | sub => exact .sum (.inr rfl) left right
  | mul => exact .product (.inl rfl) left right
  | div => exact .product (.inr rfl) left right
  | pow => exact .power left right

theorem input_ne_nil {symbol : Symbol} (derives : Derives symbol input rest term depth) :
    input ≠ [] := by
  induction derives with
  | number | name | group | call | minus | plus => nofun
  | ofPrimary _ ih | ofApplication _ ih | ofUnary _ ih | ofPower _ ih | ofProduct _ ih => exact ih
  | power _ _ ih _ | product _ _ _ ih _ | sum _ _ _ ih _ => exact ih

theorem head_of_primary (derives : Derives .primary input rest term depth) :
    ∃ kind after, input = kind :: after ∧ kind.startsOperand ∧ ∀ f, kind ≠ .function f := by
  cases derives <;> exact ⟨_, _, rfl, rfl, nofun⟩

theorem head_of_application (derives : Derives .application input rest term depth) :
    ∃ kind after, input = kind :: after ∧ kind.startsOperand := by
  cases derives with
  | ofPrimary primary =>
      obtain ⟨kind, after, heq, starts, -⟩ := primary.head_of_primary
      exact ⟨kind, after, heq, starts⟩
  | call operand => exact ⟨_, _, rfl, rfl⟩

end Derives

/-- What may follow a symbol whose operators have at least the given precedence: no operator
that would take the symbol apart. -/
def Follows (least : Nat) (rest : List TokenKind) : Prop :=
  ∀ op after, rest = .operator op :: after → op.leftPrecedence ≤ least

theorem Follows.of_ge {least : Nat} {rest : List TokenKind} (tight : 4 ≤ least) :
    Follows least rest := by
  intro op after heq
  refine Nat.le_trans ?_ tight
  cases op <;> decide

theorem Follows.mono {m n : Nat} {rest : List TokenKind} (hle : m ≤ n) (follows : Follows m rest) :
    Follows n rest := by
  intro op after heq
  exact Nat.le_trans (follows op after heq) hle

/-- An operator follows its left operand. -/
theorem Follows.cons (op : Operator) (after : List TokenKind) :
    Follows op.leftPrecedence (.operator op :: after) := by
  intro next rest heq
  cases heq
  exact Nat.le_refl _

/-- That the tokens do not go on with an operator of at least the given precedence. -/
def Stops (least : Nat) (rest : List TokenKind) : Prop :=
  ∀ op after, rest = .operator op :: after → op.precedence < least

theorem Stops.follows {least : Nat} {rest : List TokenKind} (stops : Stops least rest) :
    Follows least rest := by
  intro op after heq
  refine Nat.le_trans ?_ (stops op after heq)
  cases op <;> decide

/-- The right operand of an operator ends where the whole operation may end. -/
theorem stops_rightPrecedence_iff {op : Operator} {rest : List TokenKind} :
    Stops op.rightPrecedence rest ↔ Follows op.precedence rest := by
  have hiff (next : Operator) :
      next.precedence < op.rightPrecedence ↔ next.leftPrecedence ≤ op.precedence := by
    cases op <;> cases next <;> decide
  exact forall₃_congr fun next _ _ => hiff next

end Formula
