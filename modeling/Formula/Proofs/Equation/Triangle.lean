import Formula.Equation
import Mathlib.Tactic

/-!
The upper triangle of a square, laid out row by row, and the closed form for the place of an entry
in it.
-/

set_option autoImplicit false

namespace Formula

/-- The pairs of the first rows of the upper triangle. -/
def upperRows (n rows : Nat) : List (Nat × Nat) :=
  (List.range rows).flatMap fun row => (List.range' row (n - row)).map fun column => (row, column)

theorem upperRows_self (n : Nat) : upperRows n n = upperTriangle n := rfl

theorem upperRows_succ (n rows : Nat) :
    upperRows n (rows + 1) =
      upperRows n rows ++ (List.range' rows (n - rows)).map fun column => (rows, column) := by
  rw [upperRows, List.range_succ, List.flatMap_append, List.flatMap_singleton]
  rfl

theorem two_mul_length_upperRows {n rows : Nat} (hrows : rows ≤ n) :
    2 * (upperRows n rows).length = rows * (2 * n - rows + 1) := by
  induction rows with
  | zero => simp [upperRows]
  | succ rows ih =>
      obtain ⟨k, rfl⟩ := Nat.exists_eq_add_of_le hrows
      have hbefore : 2 * (rows + 1 + k) - rows + 1 = rows + 2 * k + 3 := by omega
      have hafter : 2 * (rows + 1 + k) - (rows + 1) + 1 = rows + 2 * k + 2 := by omega
      have hlength : (rows + 1 + k) - rows = k + 1 := by omega
      have hsofar := ih (by omega)
      rw [hbefore] at hsofar
      rw [upperRows_succ, List.length_append, List.length_map, List.length_range', hafter, hlength,
        Nat.mul_add, hsofar]
      ring

theorem length_upperRows {n rows : Nat} (hrows : rows ≤ n) :
    (upperRows n rows).length = rows * (2 * n - rows + 1) / 2 := by
  rw [← two_mul_length_upperRows hrows, Nat.mul_div_cancel_left _ (by decide)]

theorem length_upperTriangle (n : Nat) : (upperTriangle n).length = n * (n + 1) / 2 := by
  have hfactor : 2 * n - n + 1 = n + 1 := by omega
  rw [← upperRows_self, length_upperRows (Nat.le_refl n), hfactor]

theorem upperRows_prefix {n rows more : Nat} (hrows : rows ≤ more) :
    upperRows n rows <+: upperRows n more := by
  induction more, hrows using Nat.le_induction with
  | base => exact List.prefix_refl _
  | succ more hrows ih =>
      rw [upperRows_succ]
      exact ih.trans (List.prefix_append _ _)

/-- The closed form counts the pairs that stand before an entry. -/
theorem getElem?_upperTriangle {n row column : Nat} (upper : row ≤ column) (inside : column < n) :
    (upperTriangle n)[triangularIndex n row column]? = some (row, column) := by
  have hrow : row < n := by omega
  have hcolumn : row + 1 * (column - row) = column := by omega
  obtain ⟨after, hafter⟩ := upperRows_prefix (n := n) (Nat.succ_le_of_lt hrow)
  rw [← upperRows_self, ← hafter, Nat.succ_eq_add_one, upperRows_succ, List.append_assoc,
    triangularIndex, ← length_upperRows (Nat.le_of_lt hrow),
    List.getElem?_append_right (Nat.le_add_right _ _), Nat.add_sub_cancel_left,
    List.getElem?_append_left (by simp; omega), List.getElem?_map, List.getElem?_range' (by omega),
    Option.map_some, hcolumn]

theorem mem_upperTriangle {n row column : Nat} :
    (row, column) ∈ upperTriangle n ↔ row ≤ column ∧ column < n := by
  simp only [upperTriangle, List.mem_flatMap, List.mem_range, List.mem_map, List.mem_range'_1,
    Prod.mk.injEq]
  constructor
  · rintro ⟨r, hr, c, ⟨hle, hlt⟩, rfl, rfl⟩
    omega
  · rintro ⟨upper, inside⟩
    exact ⟨row, by omega, column, by omega, rfl, rfl⟩

end Formula
