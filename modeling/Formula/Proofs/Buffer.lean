import Formula.Buffer
import Mathlib.Data.List.Basic
import Mathlib.Tactic

/-!
Writes into buffers, told by what every entry holds afterwards. A write inside of a buffer never
fails, and it leaves the lengths of the rows as they are.
-/

set_option autoImplicit false

namespace Formula

variable {α : Type}

theorem Row.write?_append (before after : List α) (old value : α) :
    write? (before ++ old :: after) before.length value = some (before ++ value :: after) := by
  have inside : before.length < (before ++ old :: after).length := by simp
  rw [write?, if_pos inside, List.set_append_right _ _ (Nat.le_refl _), Nat.sub_self,
    List.set_cons_zero]

theorem Row.writeFrom?_append (before : List α) {values old : List α}
    (same : values.length = old.length) :
    writeFrom? before.length values (before ++ old) = some (before ++ values) := by
  induction values generalizing before old with
  | nil =>
      rw [List.length_eq_zero_iff.mp same.symm]
      rfl
  | cons value values ih =>
      obtain ⟨head, old, rfl⟩ := List.exists_cons_of_length_eq_add_one same.symm
      have rest := ih (before ++ [value]) (Nat.succ.inj same)
      rw [List.length_append, List.append_assoc, List.append_assoc] at rest
      rw [writeFrom?, Row.write?_append]
      exact rest

/-- A row that is written from its start on, and has room for nothing more. -/
theorem Row.writeFrom?_zero {values row : List α} (same : values.length = row.length) :
    writeFrom? 0 values row = some values :=
  writeFrom?_append [] same

namespace Grid

/-- The lengths of the rows. -/
def shape (g : Grid α) : List Nat := g.map List.length

def at? (g : Grid α) (row column : Nat) : Option α := g[row]?.bind (·[column]?)

def Inside (g : Grid α) (row column : Nat) : Prop := ∃ length ∈ g.shape[row]?, column < length

variable {g : Grid α}

theorem at?_set (row : Nat) (hrow : row < g.length) (column : Nat)
    (hcolumn : column < g[row].length) (value : α) (r c : Nat) :
    at? (g.set row (g[row].set column value)) r c =
      if r = row ∧ c = column then some value else g.at? r c := by
  by_cases sameRow : r = row
  · subst sameRow
    rw [at?, at?, List.getElem?_set_self hrow, List.getElem?_eq_getElem hrow,
      Option.bind_some, Option.bind_some]
    by_cases sameColumn : c = column
    · rw [sameColumn, List.getElem?_set_self hcolumn, if_pos ⟨rfl, rfl⟩]
    · rw [List.getElem?_set_ne (Ne.symm sameColumn), if_neg fun both => sameColumn both.2]
  · rw [at?, at?, List.getElem?_set_ne (Ne.symm sameRow), if_neg fun both => sameRow both.1]

theorem write?_inside {row column : Nat} (inside : g.Inside row column) (value : α) :
    ∃ g', g.write? row column value = some g' ∧ g'.shape = g.shape ∧ ∀ r c,
      g'.at? r c = if r = row ∧ c = column then some value else g.at? r c := by
  obtain ⟨length, hlength, hcolumn⟩ := inside
  rw [shape, List.getElem?_map, Option.mem_def] at hlength
  obtain ⟨old, hold, rfl⟩ := Option.map_eq_some_iff.mp hlength
  obtain ⟨hrow, rfl⟩ := List.getElem?_eq_some_iff.mp hold
  refine ⟨g.set row (g[row].set column value), ?_, ?_, at?_set row hrow column hcolumn value⟩
  · simp only [write?, hold, Row.write?, Option.bind_eq_bind, Option.bind_some, if_pos hcolumn]
    rfl
  · have hrow' : row < (g.map List.length).length := by simpa using hrow
    have kept : g[row].length = (g.map List.length)[row] := by simp
    rw [shape, shape, List.map_set, List.length_set, kept, List.set_getElem_self]

theorem writeBoth?_inside {row column : Nat} (inside : g.Inside row column)
    (across : g.Inside column row) (value : α) :
    ∃ g', g.writeBoth? row column value = some g' ∧ g'.shape = g.shape ∧ ∀ r c,
      g'.at? r c =
        if (r = row ∧ c = column) ∨ (r = column ∧ c = row) then some value else g.at? r c := by
  obtain ⟨g₁, hwrite, hshape, hentry⟩ := write?_inside inside value
  have across₁ : g₁.Inside column row := by rwa [Inside, hshape]
  obtain ⟨g₂, hwrite', hshape', hentry'⟩ := write?_inside across₁ value
  refine ⟨g₂, ?_, hshape'.trans hshape, ?_⟩
  · rw [writeBoth?, hwrite]
    exact hwrite'
  · intro r c
    rw [hentry', hentry]
    split_ifs <;> tauto

/-- Entries of the upper triangle are written together with their mirror images. -/
theorem writeAll?_upper {keys : List (Nat × Nat)} (v : Nat × Nat → α)
    (upper : ∀ key ∈ keys, key.1 ≤ key.2)
    (inside : ∀ key ∈ keys, g.Inside key.1 key.2 ∧ g.Inside key.2 key.1) :
    ∃ g', writeAll? (keys.map fun key => (key, v key)) g = some g' ∧ g'.shape = g.shape ∧
      ∀ r c, g'.at? r c =
        if (min r c, max r c) ∈ keys then some (v (min r c, max r c)) else g.at? r c := by
  induction keys generalizing g with
  | nil => exact ⟨g, rfl, rfl, fun r c => rfl⟩
  | cons key keys ih =>
      obtain ⟨row, column⟩ := key
      rw [List.forall_mem_cons] at upper inside
      obtain ⟨g₁, hwrite, hshape, hentry⟩ :=
        writeBoth?_inside inside.1.1 inside.1.2 (v (row, column))
      obtain ⟨g₂, hrest, hshape', hentry'⟩ := ih (g := g₁) upper.2 (by
        simpa only [Inside, hshape] using inside.2)
      refine ⟨g₂, ?_, hshape'.trans hshape, ?_⟩
      · rw [List.map_cons, writeAll?, hwrite]
        exact hrest
      · intro r c
        have sorted : (min r c, max r c) = (row, column) ↔
            (r = row ∧ c = column) ∨ (r = column ∧ c = row) := by
          have hupper : row ≤ column := upper.1
          rw [Prod.mk.injEq]
          omega
        rw [hentry', hentry]
        by_cases later : (min r c, max r c) ∈ keys
        · rw [if_pos later, if_pos (List.mem_cons_of_mem _ later)]
        · rw [if_neg later]
          by_cases now : (min r c, max r c) = (row, column)
          · rw [if_pos (sorted.mp now), now, if_pos List.mem_cons_self]
          · rw [if_neg (mt sorted.mpr now), if_neg (List.not_mem_cons_of_ne_of_not_mem now later)]

theorem columns_le {row : List α} (member : row ∈ g) : columns g ≤ row.length := by
  induction g with
  | nil => exact absurd member List.not_mem_nil
  | cons head rest ih =>
      cases rest with
      | nil =>
          rw [List.mem_singleton.mp member]
          exact Nat.le_refl _
      | cons next rest =>
          rcases List.mem_cons.mp member with rfl | member
          · exact Nat.min_le_left _ _
          · exact Nat.le_trans (Nat.min_le_right _ _) (ih member)

theorem columns_replicate (n : Nat) (row : List α) :
    columns (List.replicate (n + 1) row) = row.length := by
  induction n with
  | zero => rfl
  | succ n ih =>
      rw [List.replicate_succ, List.replicate_succ, columns, ← List.replicate_succ, ih,
        Nat.min_self]
      exact nofun

theorem inside_of_dimensions {n row column : Nat} (square : g.dimensions = (n, n))
    (hrow : row < n) (hcolumn : column < n) : g.Inside row column := by
  obtain ⟨hlength, hcolumns⟩ := Prod.mk.inj square
  rw [← hlength] at hrow
  refine ⟨g[row].length, ?_, ?_⟩
  · rw [shape, List.getElem?_map, List.getElem?_eq_getElem hrow]
    rfl
  · calc column < columns g := hcolumns ▸ hcolumn
      _ ≤ g[row].length := columns_le (List.getElem_mem hrow)

theorem dimensions_zeros [Zero α] (n : Nat) : (zeros n n : Grid α).dimensions = (n, n) := by
  cases n with
  | zero => rfl
  | succ n =>
      rw [dimensions, zeros, columns_replicate, List.length_replicate, List.length_replicate]

theorem shape_zeros [Zero α] (rows columns : Nat) :
    (zeros rows columns : Grid α).shape = List.replicate rows columns := by
  rw [shape, zeros, List.map_replicate, List.length_replicate]

end Grid

end Formula
