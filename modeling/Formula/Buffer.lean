/-!
Output buffers that a caller owns: rows of numbers, and grids of such rows, which need not be
equally long. A write outside a buffer fails.
-/

set_option autoImplicit false

namespace Formula

variable {α : Type}

def Row.write? (row : List α) (i : Nat) (value : α) : Option (List α) :=
  if i < row.length then some (row.set i value) else none

/-- Overwrites entries of a row in turn, counted from `i` on. -/
def Row.writeFrom? (i : Nat) : (values : List α) → List α → Option (List α)
  | [], row => some row
  | value :: values, row => do writeFrom? (i + 1) values (← write? row i value)

abbrev Grid (α : Type) : Type := List (List α)

namespace Grid

def zeros [Zero α] (rows columns : Nat) : Grid α :=
  List.replicate rows (List.replicate columns 0)

/-- The number of columns that every row has: the length of the shortest row. -/
def columns : Grid α → Nat
  | [] => 0
  | [row] => row.length
  | row :: rest => min row.length (columns rest)

def dimensions (g : Grid α) : Nat × Nat := (g.length, columns g)

def write? (g : Grid α) (row column : Nat) (value : α) : Option (Grid α) := do
  return g.set row (← Row.write? (← g[row]?) column value)

/-- Overwrites an entry and the one across the diagonal from it. -/
def writeBoth? (g : Grid α) (row column : Nat) (value : α) : Option (Grid α) := do
  (← g.write? row column value).write? column row value

def writeAll? : (entries : List ((Nat × Nat) × α)) → Grid α → Option (Grid α)
  | [], g => some g
  | ((row, column), value) :: rest, g => do writeAll? rest (← g.writeBoth? row column value)

end Grid

end Formula
