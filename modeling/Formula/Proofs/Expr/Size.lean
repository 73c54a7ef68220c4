import Formula.Expr.Derivative
import Mathlib.Tactic

/-!
The size of a derivative. Most rules of differentiation copy operands, so that a derivative may hold
a part of the expression several times. A rule copies the operands of its own node only, though: a
node is copied by the nodes above it and never by a copy of them, so that the size of a derivative
is bounded by the size of the expression times its height.

Putting expressions together takes no more than the one node that stands for the operation. Where a
product or a difference becomes a sign, the constant is left out for it.
-/

set_option autoImplicit false

namespace Formula

namespace Expr

variable {α : Type}

/-- The number of nodes on the longest way from the root to a leaf. -/
def height : Expr α → Nat
  | const _ | var _ _ => 1
  | neg body => body.height + 1
  | binary _ left right => max left.height right.height + 1
  | call _ argument => argument.height + 1

theorem height_pos (e : Expr α) : 0 < e.height := by
  cases e <;> exact Nat.succ_pos _

theorem nodeCount_pos (e : Expr α) : 0 < e.nodeCount := by
  cases e <;> simp only [nodeCount] <;> omega

theorem height_le_nodeCount (e : Expr α) : e.height ≤ e.nodeCount := by
  induction e with
  | const c => exact Nat.le_refl 1
  | var name slot => exact Nat.le_refl 1
  | neg body ih =>
      simp only [height, nodeCount]
      omega
  | binary op left right ihleft ihright =>
      simp only [height, nodeCount]
      omega
  | call f argument ih =>
      simp only [height, nodeCount]
      omega

variable [Coefficient α]

theorem nodeCount_negative_le (e : Expr α) : (negative e).nodeCount ≤ 1 + e.nodeCount := by
  unfold negative
  split <;> simp only [nodeCount] <;> omega

theorem nodeCount_sum_le (l r : Expr α) :
    (sum l r).nodeCount ≤ 1 + l.nodeCount + r.nodeCount := by
  unfold sum
  split
  · simp only [nodeCount]
    omega
  · split <;> simp only [nodeCount] <;> omega
  · split <;> simp only [nodeCount] <;> omega
  · exact Nat.le_refl _

theorem nodeCount_difference_le (l r : Expr α) :
    (difference l r).nodeCount ≤ 1 + l.nodeCount + r.nodeCount := by
  unfold difference
  split
  · simp only [nodeCount]
    omega
  · split <;> simp only [nodeCount] <;> omega
  · have sign := nodeCount_negative_le r
    split <;> simp only [nodeCount] <;> omega
  · exact Nat.le_refl _

theorem nodeCount_product_le (l r : Expr α) :
    (product l r).nodeCount ≤ 1 + l.nodeCount + r.nodeCount := by
  unfold product
  split
  · simp only [nodeCount]
    omega
  · have sign := nodeCount_negative_le r
    split_ifs <;> simp only [nodeCount] <;> omega
  · have sign := nodeCount_negative_le l
    split_ifs <;> simp only [nodeCount] <;> omega
  · exact Nat.le_refl _

theorem nodeCount_quotient_le (l r : Expr α) :
    (quotient l r).nodeCount ≤ 1 + l.nodeCount + r.nodeCount := by
  unfold quotient
  split
  · simp only [nodeCount]
    omega
  · split <;> simp only [nodeCount] <;> omega
  · exact Nat.le_refl _

theorem nodeCount_power_le (l r : Expr α) :
    (power l r).nodeCount ≤ 1 + l.nodeCount + r.nodeCount := by
  unfold power
  split
  · simp only [nodeCount]
    omega
  · split_ifs <;> simp only [nodeCount] <;> omega
  · exact Nat.le_refl _

theorem nodeCount_applied_le (f : UnaryFn) (e : Expr α) :
    (applied f e).nodeCount ≤ 1 + e.nodeCount := by
  unfold applied
  split
  · simp only [nodeCount]
    omega
  · exact Nat.le_refl _

grind_pattern nodeCount_negative_le => (negative e).nodeCount
grind_pattern nodeCount_sum_le => (sum l r).nodeCount
grind_pattern nodeCount_difference_le => (difference l r).nodeCount
grind_pattern nodeCount_product_le => (product l r).nodeCount
grind_pattern nodeCount_quotient_le => (quotient l r).nodeCount
grind_pattern nodeCount_power_le => (power l r).nodeCount
grind_pattern nodeCount_applied_le => (applied f e).nodeCount

/-- The outer factor of the chain rule holds the argument twice at most. -/
theorem nodeCount_derivativeAt_le (f : UnaryFn) (e : Expr α) :
    (f.derivativeAt e).nodeCount ≤ 2 * e.nodeCount + 7 := by
  cases f with
  | acos =>
      have positive : (UnaryFn.asin.derivativeAt e).nodeCount ≤ 2 * e.nodeCount + 6 := by
        grind [UnaryFn.derivativeAt, nodeCount]
      have sign := nodeCount_negative_le (UnaryFn.asin.derivativeAt e)
      change (negative (UnaryFn.asin.derivativeAt e)).nodeCount ≤ 2 * e.nodeCount + 7
      omega
  | _ => grind [UnaryFn.derivativeAt, nodeCount]

variable (slot : Nat)

/-- The rule of an operator copies each of its operands three times at most. -/
theorem nodeCount_derivative_binary_le (op : Operator) (l r : Expr α) :
    ((binary op l r).derivative slot).nodeCount ≤
      (l.derivative slot).nodeCount + (r.derivative slot).nodeCount +
        3 * (l.nodeCount + r.nodeCount) + 7 := by
  cases op with
  | add | sub | mul | div => grind [derivative]
  | pow =>
      by_cases literal : ∃ c, r = const c
      · obtain ⟨c, rfl⟩ := literal
        grind [derivative, nodeCount]
      · rw [derivative_pow slot l fun c heq => literal ⟨c, heq⟩]
        grind

theorem nodeCount_derivative_call_le (f : UnaryFn) (e : Expr α) :
    ((call f e).derivative slot).nodeCount ≤
      (e.derivative slot).nodeCount + 2 * e.nodeCount + 8 := by
  have outer := nodeCount_derivativeAt_le f e
  have chain := nodeCount_product_le (f.derivativeAt e) (e.derivative slot)
  rw [derivative]
  split
  · simp only [nodeCount]
    omega
  · omega

/-- Every level of an expression adds four nodes at most for each node that it stands over. -/
theorem nodeCount_derivative_le (e : Expr α) :
    (e.derivative slot).nodeCount ≤ 4 * e.height * e.nodeCount := by
  induction e with
  | const c => exact Nat.le_add_left 1 3
  | var name s =>
      rw [derivative]
      split <;> exact Nat.le_add_left 1 3
  | neg body ih =>
      have sign := nodeCount_negative_le (body.derivative slot)
      rw [derivative, height, nodeCount]
      linarith
  | binary op l r ihl ihr =>
      have rule := nodeCount_derivative_binary_le slot op l r
      have left := Nat.mul_le_mul_right l.nodeCount (le_max_left l.height r.height)
      have right := Nat.mul_le_mul_right r.nodeCount (le_max_right l.height r.height)
      have low : 1 ≤ max l.height r.height := le_max_of_le_left l.height_pos
      have hl := l.nodeCount_pos
      have hr := r.nodeCount_pos
      rw [height, nodeCount]
      linarith
  | call f e ih =>
      have rule := nodeCount_derivative_call_le slot f e
      have low := e.height_pos
      have he := e.nodeCount_pos
      rw [height, nodeCount]
      linarith

/-- The size of a derivative grows with the square of the size at most, however the rules are
nested. -/
theorem nodeCount_derivative_le_sq (e : Expr α) :
    (e.derivative slot).nodeCount ≤ 5 * e.nodeCount ^ 2 := by
  calc (e.derivative slot).nodeCount
      ≤ 4 * e.height * e.nodeCount := nodeCount_derivative_le slot e
    _ ≤ 4 * e.nodeCount * e.nodeCount :=
        Nat.mul_le_mul_right _ (Nat.mul_le_mul_left 4 e.height_le_nodeCount)
    _ = 4 * e.nodeCount ^ 2 := by ring
    _ ≤ 5 * e.nodeCount ^ 2 := Nat.mul_le_mul_right _ (by decide)

end Expr

end Formula
