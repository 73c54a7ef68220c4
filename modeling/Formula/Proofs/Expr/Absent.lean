import Formula.Proofs.Expr.Folded
import Formula.Proofs.Expr.Value
import Formula.Proofs.Width.Zero

/-!
Derivatives by a variable that does not occur. The rules make products with a zero vanish but no
quotients above one, so that more than a zero may be left behind: a constant that is no number, or a
tree whose value is a zero or no number everywhere. Which of these it is can be read off the
expression, and does not depend on the variable.
-/

set_option autoImplicit false

namespace Formula

open Width (Null Absorbing Lawful)

namespace Expr

section Operands

variable {α : Type} {c : α} {e l r : Expr α}

theorem exists_eq_const (constant : e.isConst) : ∃ c, e = const c := by
  cases e with
  | const c => exact ⟨c, rfl⟩
  | _ => contradiction

variable [Coefficient α]

theorem not_isConst_negative (other : ¬ e.isConst) (folded : e.Folded) :
    ¬ (negative e).isConst := by
  cases e with
  | const c => contradiction
  | neg body => exact folded.1
  | _ => nofun

theorem sum_const_left (other : ¬ e.isConst) :
    sum (const c) e = if c == 0 then e else binary .add (const c) e := by
  cases e with
  | const c => contradiction
  | _ => rfl

theorem sum_const_right (other : ¬ e.isConst) :
    sum e (const c) = if c == 0 then e else binary .add e (const c) := by
  cases e with
  | const c => contradiction
  | _ => rfl

theorem sum_eq (left : ¬ l.isConst) (right : ¬ r.isConst) : sum l r = binary .add l r := by
  cases l with
  | const c => contradiction
  | _ => cases r <;> first | contradiction | rfl

theorem difference_const_left (other : ¬ e.isConst) :
    difference (const c) e = if c == 0 then negative e else binary .sub (const c) e := by
  cases e with
  | const c => contradiction
  | _ => rfl

theorem difference_const_right (other : ¬ e.isConst) :
    difference e (const c) = if c == 0 then e else binary .sub e (const c) := by
  cases e with
  | const c => contradiction
  | _ => rfl

theorem difference_eq (left : ¬ l.isConst) (right : ¬ r.isConst) :
    difference l r = binary .sub l r := by
  cases l with
  | const c => contradiction
  | _ => cases r <;> first | contradiction | rfl

/-- What a product with a constant factor comes to, if the other factor is not a constant and the
product is otherwise kept. -/
def scaled (c : α) (e kept : Expr α) : Expr α :=
  if c == 0 then const 0 else if c == 1 then e else if c == -1 then negative e else kept

theorem product_const_left (other : ¬ e.isConst) :
    product (const c) e = scaled c e (binary .mul (const c) e) := by
  cases e with
  | const c => contradiction
  | _ => rfl

theorem product_const_right (other : ¬ e.isConst) :
    product e (const c) = scaled c e (binary .mul e (const c)) := by
  cases e with
  | const c => contradiction
  | _ => rfl

theorem product_eq (left : ¬ l.isConst) (right : ¬ r.isConst) : product l r = binary .mul l r := by
  cases l with
  | const c => contradiction
  | _ => cases r <;> first | contradiction | rfl

theorem power_const_right (other : ¬ e.isConst) :
    power e (const c) =
      if c == 0 then const 1 else if c == 1 then e else binary .pow e (const c) := by
  cases e with
  | const c => contradiction
  | _ => rfl

theorem quotient_const_right (other : ¬ e.isConst) :
    quotient e (const c) = if c == 1 then e else binary .div e (const c) := by
  cases e with
  | const c => contradiction
  | _ => rfl

theorem quotient_eq (right : ¬ r.isConst) : quotient l r = binary .div l r := by
  cases r with
  | const c => contradiction
  | _ => cases l <;> rfl

end Operands

end Expr

/-- What is left behind where a derivative should vanish: a constant zero, a constant that is no
number, or a tree. -/
inductive Residue where
  | zero | nan | tree
  deriving DecidableEq, Repr

namespace Residue

def ofConstant (z : Float) : Residue := if z.isNaN then nan else zero

/-- What is left behind by a sum or a difference. -/
def join : Residue → Residue → Residue
  | zero, s => s
  | r, zero => r
  | nan, nan => nan
  | _, _ => tree

/-- What is left behind by a product with another expression. -/
def times : Residue → Expr Float → Residue
  | zero, .const c => if c.isFinite then zero else nan
  | zero, _ => zero
  | nan, .const _ => nan
  | nan, _ => tree
  | tree, .const c => if c == 0 then zero else tree
  | tree, _ => tree

/-- What is left behind by a quotient above another expression. -/
def divided : Residue → Expr Float → Residue
  | zero, .const c => if c.isNaN || c == 0 then nan else zero
  | nan, .const _ => nan
  | _, _ => tree

end Residue

/-- What the derivative by a variable that does not occur leaves behind. -/
def Expr.residue : Expr Float → Residue
  | const _ | var _ _ => .zero
  | neg body => body.residue
  | binary .add l r | binary .sub l r => l.residue.join r.residue
  | binary .mul l r => (l.residue.times r).join (r.residue.times l)
  | binary .div l r => ((l.residue.times r).join (r.residue.times l)).divided (product r r)
  | binary .pow u (const c) => u.residue.times (product (const c) (power u (const (c - 1))))
  | binary .pow u v =>
      ((v.residue.times (applied .ln u)).join ((u.residue.divided u).times v)).times (power u v)
  | call f e => if f.isStep then .zero else e.residue.times (f.derivativeAt e)

/-- That an expression is a constant zero, of either sign. -/
def Expr.IsZero (e : Expr Float) : Prop := ∃ z, e = const z ∧ (z = 0 ∨ z = -0)

namespace Residue

variable {α : Type} [Width α] {raise : α → Float → α} {point : List α}

/-- That an expression is what is left behind: a constant that is a zero or no number, or a tree
whose value at a point is. -/
inductive Is (raise : α → Float → α) (point : List α) : Residue → Expr Float → Prop where
  | constant {z : Float} (null : Null z) : Is raise point (ofConstant z) (.const z)
  | tree {e : Expr Float} (other : ¬ e.isConst) (null : Null (e.evalBy raise point)) :
      Is raise point .tree e

theorem ofConstant_cases {z : Float} (null : Null z) :
    (z == 0) = true ∧ ofConstant z = zero ∨ (z == 0) = false ∧ ofConstant z = nan := by
  rw [DoublePrecision.beq_zero_of_null null, ofConstant]
  cases z.isNaN with
  | false => exact .inl ⟨rfl, rfl⟩
  | true => exact .inr ⟨rfl, rfl⟩

theorem ofConstant_zero : ofConstant 0 = zero := rfl

theorem ofConstant_eq_zero_iff {z : Float} (null : Null z) :
    ofConstant z = zero ↔ z = 0 ∨ z = -0 := by
  constructor
  · intro zero
    rcases null with rfl | rfl | rfl
    · exact .inl rfl
    · exact .inr rfl
    · cases zero
  · rintro (rfl | rfl) <;> rfl

theorem tree_join (s : Residue) : tree.join s = tree := by cases s <;> rfl

theorem join_tree (r : Residue) : r.join tree = tree := by cases r <;> rfl

theorem ofConstant_join {a b z : Float} (isNaN : z.isNaN = (a.isNaN || b.isNaN)) :
    (ofConstant a).join (ofConstant b) = ofConstant z := by
  simp only [ofConstant, isNaN]
  cases a.isNaN <;> cases b.isNaN <;> rfl

theorem ofConstant_times {a c z : Float} (isNaN : z.isNaN = (a.isNaN || !c.isFinite)) :
    (ofConstant a).times (.const c) = ofConstant z := by
  simp only [ofConstant, isNaN]
  cases a.isNaN with
  | false => cases finite : c.isFinite <;> simp [times, finite]
  | true => rfl

theorem ofConstant_divided {a c z : Float} (isNaN : z.isNaN = (a.isNaN || c.isNaN || c == 0)) :
    (ofConstant a).divided (.const c) = ofConstant z := by
  simp only [ofConstant, isNaN]
  cases a.isNaN <;> rfl

theorem divided_of_not_isConst {r : Residue} {e : Expr Float} (other : ¬ e.isConst) :
    r.divided e = tree := by
  cases e with
  | const c => contradiction
  | _ => cases r <;> rfl

theorem tree_times_const (c : Float) : tree.times (.const c) = if c == 0 then zero else tree := rfl

theorem times_of_not_isConst {r : Residue} {e : Expr Float} (other : ¬ e.isConst) :
    r.times e = if r = zero then zero else tree := by
  cases e with
  | const c => contradiction
  | _ => cases r <;> rfl

namespace Is

theorem zero : Is raise point .zero (.const 0) := ofConstant_zero ▸ constant (.inl rfl)

variable {r s : Residue} {d e : Expr Float}

theorem isZero_iff (left : Is raise point r d) : d.IsZero ↔ r = .zero := by
  cases left with
  | constant null =>
      rw [ofConstant_eq_zero_iff null]
      constructor
      · rintro ⟨z, ⟨⟩, zero⟩
        exact zero
      · exact fun zero => ⟨_, rfl, zero⟩
  | tree other null =>
      refine iff_of_false ?_ nofun
      rintro ⟨z, rfl, -⟩
      exact other rfl

/-- A constant that is left behind, times a tree. -/
theorem scaled_of_constant {z : Float} {kept : Expr Float} (null : Null z) (other : ¬ e.isConst)
    (otherwise : Is raise point .tree kept) :
    Is raise point ((ofConstant z).times e) (Expr.scaled z e kept) := by
  rw [times_of_not_isConst other]
  rcases ofConstant_cases null with ⟨test, same⟩ | ⟨test, same⟩
  · rw [same, if_pos rfl, Expr.scaled, if_pos test]
    exact zero
  · have one : ¬ (z == 1) = true := by simp [DoublePrecision.beq_one_of_null null]
    have minusOne : ¬ (z == -1) = true := by simp [DoublePrecision.beq_neg_one_of_null null]
    rw [same, if_neg nofun, Expr.scaled, if_neg (Bool.not_eq_true _ ▸ test), if_neg one,
      if_neg minusOne]
    exact otherwise

variable [Absorbing α]

theorem null (left : Is raise point r d) : Null (d.evalBy raise point) := by
  cases left with
  | constant null => exact Absorbing.ofFloat null
  | tree other null => exact null

theorem sum (left : Is raise point r d) (right : Is raise point s e) :
    Is raise point (r.join s) (Expr.sum d e) := by
  cases left with
  | constant a =>
      cases right with
      | constant b =>
          rw [ofConstant_join (DoublePrecision.isNaN_add a b)]
          exact .constant (Absorbing.add a b)
      | tree other null =>
          rw [join_tree, Expr.sum_const_left other]
          split
          · exact .tree other null
          · exact .tree nofun (Absorbing.add (Absorbing.ofFloat a) null)
  | tree other null =>
      rw [tree_join]
      cases right with
      | constant b =>
          rw [Expr.sum_const_right other]
          split
          · exact .tree other null
          · exact .tree nofun (Absorbing.add null (Absorbing.ofFloat b))
      | tree other' null' =>
          rw [Expr.sum_eq other other']
          exact .tree nofun (Absorbing.add null null')

theorem quotient (left : Is raise point r d) (e : Expr Float) :
    Is raise point (r.divided e) (Expr.quotient d e) := by
  by_cases constant : e.isConst
  · obtain ⟨c, rfl⟩ := Expr.exists_eq_const constant
    cases left with
    | constant a =>
        rw [ofConstant_divided (DoublePrecision.isNaN_div a)]
        exact .constant (Absorbing.div c a)
    | tree other null =>
        rw [Expr.quotient_const_right other]
        split
        · exact .tree other null
        · exact .tree nofun (Absorbing.div _ null)
  · rw [Expr.quotient_eq constant, divided_of_not_isConst constant]
    cases left with
    | constant a => exact .tree nofun (Absorbing.div _ (Absorbing.ofFloat a))
    | tree other null => exact .tree nofun (Absorbing.div _ null)

variable [Lawful α]

theorem negative (left : Is raise point r d) (folded : d.Folded) :
    Is raise point r (Expr.negative d) := by
  cases left with
  | @constant z null =>
      have same : ofConstant z = ofConstant (-z) := by
        rw [ofConstant, ofConstant, DoublePrecision.isNaN_neg null]
      rw [same]
      exact .constant (Absorbing.neg null)
  | tree other null =>
      refine .tree (Expr.not_isConst_negative other folded) ?_
      cases d with
      | neg body =>
          have signed : Null (- -(body.evalBy raise point)) := Absorbing.neg null
          rwa [Lawful.neg_neg] at signed
      | const c => contradiction
      | _ => exact Absorbing.neg null

theorem difference (left : Is raise point r d) (right : Is raise point s e) (folded : e.Folded) :
    Is raise point (r.join s) (Expr.difference d e) := by
  cases left with
  | constant a =>
      cases right with
      | constant b =>
          rw [ofConstant_join (DoublePrecision.isNaN_sub a b)]
          exact .constant (Absorbing.sub a b)
      | tree other null =>
          rw [join_tree, Expr.difference_const_left other]
          split
          · exact (tree other null).negative folded
          · exact .tree nofun (Absorbing.sub (Absorbing.ofFloat a) null)
  | tree other null =>
      rw [tree_join]
      cases right with
      | constant b =>
          rw [Expr.difference_const_right other]
          split
          · exact .tree other null
          · exact .tree nofun (Absorbing.sub null (Absorbing.ofFloat b))
      | tree other' null' =>
          rw [Expr.difference_eq other other']
          exact .tree nofun (Absorbing.sub null null')

/-- A tree that is left behind, times a constant. -/
theorem scaled_of_tree {c : Float} {kept : Expr Float} (left : Is raise point .tree d)
    (folded : d.Folded) (otherwise : Is raise point .tree kept) :
    Is raise point (Residue.tree.times (.const c)) (Expr.scaled c d kept) := by
  rw [tree_times_const, Expr.scaled]
  split_ifs with zero one minusOne
  · exact .zero
  · exact left
  · exact left.negative folded
  · exact otherwise

theorem product_left (left : Is raise point r d) (folded : d.Folded) (e : Expr Float) :
    Is raise point (r.times e) (Expr.product d e) := by
  by_cases constant : e.isConst
  · obtain ⟨c, rfl⟩ := Expr.exists_eq_const constant
    cases left with
    | constant a =>
        rw [ofConstant_times (DoublePrecision.isNaN_mul_left a)]
        exact .constant (Absorbing.mul_left c a)
    | tree other null =>
        rw [Expr.product_const_right other]
        refine scaled_of_tree (.tree other null) folded ?_
        exact .tree nofun (Absorbing.mul_left _ null)
  · cases left with
    | constant a =>
        rw [Expr.product_const_left constant]
        exact scaled_of_constant a constant
          (.tree nofun (Absorbing.mul_left _ (Absorbing.ofFloat a)))
    | tree other null =>
        rw [Expr.product_eq other constant, times_of_not_isConst constant]
        exact .tree nofun (Absorbing.mul_left _ null)

theorem product_right (right : Is raise point r d) (folded : d.Folded) (e : Expr Float) :
    Is raise point (r.times e) (Expr.product e d) := by
  by_cases constant : e.isConst
  · obtain ⟨c, rfl⟩ := Expr.exists_eq_const constant
    cases right with
    | constant a =>
        rw [ofConstant_times (DoublePrecision.isNaN_mul_right a)]
        exact .constant (Absorbing.mul_right c a)
    | tree other null =>
        rw [Expr.product_const_left other]
        refine scaled_of_tree (.tree other null) folded ?_
        exact .tree nofun (Absorbing.mul_right _ null)
  · cases right with
    | constant a =>
        rw [Expr.product_const_right constant]
        exact scaled_of_constant a constant
          (.tree nofun (Absorbing.mul_right _ (Absorbing.ofFloat a)))
    | tree other null =>
        rw [Expr.product_eq constant other, times_of_not_isConst constant]
        exact .tree nofun (Absorbing.mul_right _ null)

/-- What a derivative leaves behind is what is read off the expression. -/
theorem derivative {allowed : Finset (String × Nat)} {slot : Nat} (within : e.Within allowed)
    (absent : e.dependsOn slot = false) : Is raise point e.residue (e.derivative slot) := by
  induction e with
  | const c => exact zero
  | var name s =>
      rw [Expr.derivative, if_neg (ne_of_beq_false absent)]
      exact zero
  | neg body ih =>
      have dbody := within.body.derivative slot
      exact (ih within.body absent).negative dbody.folded
  | binary op l r ihl ihr =>
      have absent_both := Bool.or_eq_false_iff.mp absent
      have dleft := within.left.derivative slot
      have dright := within.right.derivative slot
      have left := ihl within.left absent_both.1
      have right := ihr within.right absent_both.2
      -- A power is told apart by its exponent: a constant one has a rule of its own.
      have general : Is raise point
          (((r.residue.times (.applied .ln l)).join ((l.residue.divided l).times r)).times
            (.power l r))
          (.product (.power l r)
            (.sum (.product (r.derivative slot) (.applied .ln l))
              (.product r (.quotient (l.derivative slot) l)))) :=
        have logarithm := dright.product (within.left.applied (f := .ln))
        have ratio := dleft.quotient within.left
        ((right.product_left dright.folded _).sum
            ((left.quotient l).product_right ratio.folded r)).product_right
          (logarithm.sum (within.right.product ratio)).folded _
      cases op with
      | add => exact left.sum right
      | sub => exact left.difference right dright.folded
      | mul =>
          exact (left.product_left dleft.folded r).sum (right.product_right dright.folded l)
      | div =>
          have numerator := (left.product_left dleft.folded r).difference
            (right.product_right dright.folded l) (within.left.product dright).folded
          exact numerator.quotient _
      | pow =>
          cases r with
          | const c => exact left.product_right dleft.folded _
          | _ => exact general
  | call f e ih =>
      rw [Expr.derivative, Expr.residue]
      split
      · exact zero
      · exact (ih within.argument absent).product_right (within.argument.derivative slot).folded _

end Is

end Residue

namespace Expr

def HasFiniteConstants : Expr Float → Prop
  | const c => c.isFinite
  | var _ _ => True
  | neg body => body.HasFiniteConstants
  | binary _ left right => left.HasFiniteConstants ∧ right.HasFiniteConstants
  | call _ argument => argument.HasFiniteConstants

/-- That nothing is divided but by numbers whose squares are numbers above zero, and nothing raised
but to numbers. -/
def Plain : Expr Float → Prop
  | const _ | var _ _ => True
  | neg body => body.Plain
  | binary .div left right => left.Plain ∧ ∃ c, right = const c ∧ 0 < c * c
  | binary .pow base exponent => base.Plain ∧ exponent.isConst
  | binary _ left right => left.Plain ∧ right.Plain
  | call _ argument => argument.Plain

open Residue

theorem zero_times_of_not_isConst {e : Expr Float} (other : ¬ e.isConst) :
    Residue.zero.times e = .zero := by
  rw [times_of_not_isConst other, if_pos rfl]

theorem zero_times {e : Expr Float} (finite : e.HasFiniteConstants) :
    Residue.zero.times e = .zero := by
  cases e with
  | const c => exact if_pos finite
  | _ => rfl

/-- A product with a tree is a constant only if it is zero. -/
theorem zero_times_product {c : Float} {e : Expr Float} (other : ¬ e.isConst) (folded : e.Folded) :
    Residue.zero.times (product (const c) e) = .zero := by
  rw [product_const_left other, scaled]
  split_ifs
  · rfl
  · exact zero_times_of_not_isConst other
  · exact zero_times_of_not_isConst (not_isConst_negative other folded)
  · rfl

theorem zero_times_powerRule {c : Float} (finite : c.isFinite) {u : Expr Float}
    (other : ¬ u.isConst) (folded : u.Folded) :
    Residue.zero.times (product (const c) (power u (const (c - 1)))) = .zero := by
  rw [power_const_right other]
  split_ifs
  · change (if (c * 1).isFinite then _ else _) = _
    rw [DoublePrecision.mul_one, if_pos finite]
  · exact zero_times_product other folded
  · exact zero_times_product nofun ⟨fun both => other both.1, folded, trivial⟩

/-- The outer factors of the chain rule are no constants, unless they are zero or one. -/
theorem zero_times_derivativeAt {f : UnaryFn} {e : Expr Float} (other : ¬ e.isConst) :
    Residue.zero.times (f.derivativeAt e) = .zero := by
  cases e with
  | const c => contradiction
  | _ => cases f <;> rfl

theorem residue_of_plain {e : Expr Float} (folded : e.Folded) (finite : e.HasFiniteConstants)
    (plain : e.Plain) : e.residue = .zero := by
  induction e with
  | const c => rfl
  | var name s => rfl
  | neg body ih => exact ih folded.2 finite plain
  | binary op l r ihl ihr =>
      have left := ihl folded.2.1 finite.1
      have right := ihr folded.2.2 finite.2
      cases op with
      | add | sub =>
          rw [residue, left plain.1, right plain.2]
          rfl
      | mul =>
          rw [residue, left plain.1, right plain.2, zero_times finite.1, zero_times finite.2]
          rfl
      | div =>
          obtain ⟨plain_left, c, rfl, positive⟩ := plain
          rw [residue, left plain_left, right trivial, zero_times finite.1, zero_times finite.2]
          exact if_neg (Bool.not_eq_true _ ▸ DoublePrecision.not_null_of_pos positive)
      | pow =>
          obtain ⟨plain_base, constant⟩ := plain
          obtain ⟨c, rfl⟩ := exists_eq_const constant
          rw [residue, left plain_base]
          exact zero_times_powerRule finite.2 (fun base => folded.1 ⟨base, rfl⟩) folded.2.1
  | call f e ih =>
      rw [residue, ih folded.2 finite plain]
      split
      · rfl
      · exact zero_times_derivativeAt folded.1

/-- A quotient above anything but a constant leaves a tree behind. -/
theorem residue_div {l r : Expr Float} (other : ¬ r.isConst) :
    (binary .div l r).residue = .tree := by
  rw [residue, product_eq other other]
  exact divided_of_not_isConst nofun

/-- A derivative by a variable that does not occur is a zero constant exactly if the expression
leaves nothing behind, as one does that divides by numbers only. In any case its value is a zero or
no number everywhere, in both widths. -/
theorem derivative_absent {e : Expr Float} {slot : Nat} (folded : e.Folded)
    (absent : e.dependsOn slot = false) :
    ((e.derivative slot).IsZero ↔ e.residue = .zero) ∧
      (e.HasFiniteConstants → e.Plain → (e.derivative slot).IsZero) ∧
      (∀ point : List Float, Null ((e.derivative slot).value point)) ∧
      ∀ point : List Float32, Null ((e.derivative slot).value point) := by
  have within : e.Within e.vars := ⟨folded, subset_rfl⟩
  have left_behind : Is Width.raise ([] : List Float) e.residue (e.derivative slot) :=
    Is.derivative within absent
  refine ⟨left_behind.isZero_iff, fun finite plain => ?_, fun point => ?_, fun point => ?_⟩
  · exact left_behind.isZero_iff.mpr (residue_of_plain folded finite plain)
  · exact (Is.derivative within absent).null
  · exact (Is.derivative within absent).null

/-- A third of `x` and `x` over its sine, by `y`: the one derivative is a zero constant, the other
one is not, and its value is a zero or no number nevertheless. -/
theorem derivative_absent_third_and_ratio :
    let x : Expr Float := var "x" 0
    let third : Expr Float := binary .div x (const 3)
    let ratio : Expr Float := binary .div x (call .sin x)
    third.Folded ∧ third.dependsOn 1 = false ∧ (third.derivative 1).IsZero ∧
      ratio.Folded ∧ ratio.dependsOn 1 = false ∧ ¬ (ratio.derivative 1).IsZero ∧
      ∀ point : List Float32, Null ((ratio.derivative 1).value point) := by
  intro x third ratio
  have third_folded : third.Folded := ⟨nofun, trivial, trivial⟩
  have ratio_folded : ratio.Folded := ⟨nofun, trivial, nofun, trivial⟩
  have three : (3 : Float).isFinite = true := rfl
  have plain : third.Plain := ⟨trivial, 3, rfl, rfl⟩
  have third_absent : third.dependsOn 1 = false := rfl
  have ratio_absent : ratio.dependsOn 1 = false := rfl
  obtain ⟨-, zero, -⟩ := derivative_absent third_folded third_absent
  obtain ⟨exactly, -, -, null⟩ := derivative_absent ratio_folded ratio_absent
  refine ⟨third_folded, third_absent, zero ⟨trivial, three⟩ plain, ratio_folded, ratio_absent, ?_,
    null⟩
  have left_behind : ratio.residue = .tree := residue_div nofun
  rw [exactly, left_behind]
  nofun

/-- One over `y`, by `x`. What is left behind is a zero over the square of `y`, which is no number
where that square is lost, as at `1e-200`, although one over `y` is finite there. -/
theorem derivative_absent_inverse_not_zero :
    let y : Expr Float := var "y" 1
    let e : Expr Float := binary .div (const 1) y
    let point : List Float := [0, .ofBits 0x16687e92154ef7ac]
    e.Folded ∧ e.HasFiniteConstants ∧ e.dependsOn 0 = false ∧
      e.derivative 0 = binary .div (const 0) (binary .mul y y) ∧ ¬ (e.derivative 0).IsZero ∧
      (e.value point).isFinite = true ∧ ((e.derivative 0).value point).isNaN = true := by
  intro y e point
  have one : (1 : Float).isFinite = true := rfl
  refine ⟨⟨nofun, trivial, trivial⟩, ⟨one, trivial⟩, rfl, rfl, ?_, ?_, ?_⟩
  · rintro ⟨z, ⟨⟩, -⟩
  · decide +kernel
  · decide +kernel

end Expr

end Formula
