/-!
The variables of a formula. Their names are gathered in any order while the formula is read, and
get their slots when all are known: in ascending order, by code points.
-/

set_option autoImplicit false

namespace Formula

/-- The distinct names met so far. -/
structure Names where
  toList : List String
  nodup : toList.Nodup

namespace Names

def empty : Names := ⟨[], .nil⟩

instance : EmptyCollection Names := ⟨empty⟩

def insert (s : Names) (name : String) : Names :=
  if h : name ∈ s.toList then s else ⟨name :: s.toList, List.nodup_cons.2 ⟨h, s.nodup⟩⟩

def size (s : Names) : Nat := s.toList.length

def isEmpty (s : Names) : Bool := s.toList.isEmpty

theorem mem_insert {s : Names} {name other : String} :
    other ∈ (s.insert name).toList ↔ other = name ∨ other ∈ s.toList := by
  unfold insert
  split
  · exact ⟨.inr, fun h => h.elim (fun e => e ▸ ‹_›) id⟩
  · exact List.mem_cons

end Names

/-- The variables of a formula, each in its slot: ascending, and each name once. -/
structure Variables where
  names : List String
  deriving DecidableEq, Repr

namespace Variables

/-- Puts a name where it belongs in an ascending list, unless it is there. -/
def insertName (name : String) : List String → List String
  | [] => [name]
  | other :: rest =>
      if name < other then name :: other :: rest
      else if name = other then other :: rest
      else other :: insertName name rest

/-- Gives every name its slot. Order and repetition of the names do not matter. -/
def ofNames (names : List String) : Variables := ⟨names.foldr insertName []⟩

def size (v : Variables) : Nat := v.names.length

def isEmpty (v : Variables) : Bool := v.names.isEmpty

def slot? (v : Variables) (name : String) : Option Nat := v.names.idxOf? name

def name? (v : Variables) (slot : Nat) : Option String := v.names[slot]?

theorem mem_insertName {name other : String} {names : List String} :
    other ∈ insertName name names ↔ other = name ∨ other ∈ names := by
  induction names with
  | nil => simp [insertName]
  | cons head rest ih =>
      unfold insertName
      split
      · simp
      · split <;> simp_all
        grind

theorem mem_ofNames {name : String} {names : List String} :
    name ∈ (ofNames names).names ↔ name ∈ names := by
  unfold ofNames
  induction names with
  | nil => simp
  | cons head rest ih => simp_all [mem_insertName]

end Variables

/-- The slots of the names gathered. -/
def Names.finalize (s : Names) : Variables := .ofNames s.toList

end Formula
