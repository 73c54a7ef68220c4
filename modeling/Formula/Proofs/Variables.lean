import Formula.Variables
import Mathlib.Data.Finset.Sort
import Mathlib.Data.String.Basic

/-!
The slots of names are their ranks: the names stand in ascending order, and the slot of a name
counts the names before it.
-/

set_option autoImplicit false

namespace Formula

/-- How many names of a set come before a name. -/
def rank (names : Finset String) (name : String) : Nat := (names.filter (· < name)).card

namespace Variables

theorem pairwise_insertName {name : String} {names : List String}
    (sorted : names.Pairwise (· < ·)) :
    (insertName name names).Pairwise (· < ·) := by
  induction sorted with
  | nil => exact List.pairwise_singleton _ name
  | @cons head rest first sorted ih =>
      rw [insertName]
      split_ifs with before same
      · refine .cons ?_ (.cons first sorted)
        intro other member
        rcases List.mem_cons.mp member with rfl | member
        · exact before
        · exact lt_trans before (first other member)
      · exact .cons first sorted
      · refine .cons ?_ ih
        intro other member
        rcases mem_insertName.mp member with rfl | member
        · exact lt_of_le_of_ne (not_lt.mp before) (Ne.symm same)
        · exact first other member

theorem pairwise_ofNames (names : List String) : (ofNames names).names.Pairwise (· < ·) := by
  induction names with
  | nil => exact .nil
  | cons name rest ih => exact pairwise_insertName ih

/-- The order and the repetition of the names do not matter. -/
theorem ofNames_eq_sort (names : List String) : ofNames names = ⟨names.toFinset.sort⟩ := by
  have sorted := pairwise_ofNames names
  have same : (ofNames names).names.toFinset = names.toFinset := by
    ext name
    rw [List.mem_toFinset, List.mem_toFinset, mem_ofNames]
  rw [← same, (List.toFinset_sort (· ≤ ·) (sorted.imp ne_of_lt)).mpr (sorted.imp le_of_lt)]

theorem idxOf?_of_pairwise {name : String} {names : List String} (sorted : names.Pairwise (· < ·))
    (member : name ∈ names) : names.idxOf? name = some (rank names.toFinset name) := by
  induction sorted with
  | nil => contradiction
  | @cons head rest first sorted ih =>
      rw [List.idxOf?_cons, rank, List.toFinset_cons, Finset.filter_insert]
      rcases List.mem_cons.mp member with rfl | member
      · have none : rest.toFinset.filter (· < name) = ∅ := by
          apply Finset.filter_eq_empty_iff.mpr
          intro other mem
          exact not_lt.mpr (le_of_lt (first other (List.mem_toFinset.mp mem)))
        rw [if_pos (beq_self_eq_true name), if_neg (lt_irrefl name), none, Finset.card_empty]
      · have before := first name member
        have fresh : head ∉ rest.toFinset.filter (· < name) := by
          intro mem
          exact lt_irrefl head (first head (List.mem_toFinset.mp (Finset.mem_of_mem_filter _ mem)))
        rw [if_neg (by simpa using ne_of_lt before), if_pos before,
          Finset.card_insert_of_notMem fresh, ih member]
        rfl

/-- The slot of a name is its rank. -/
theorem slot?_sort {names : Finset String} {name : String} (member : name ∈ names) :
    (⟨names.sort⟩ : Variables).slot? name = some (rank names name) := by
  rw [slot?, idxOf?_of_pairwise names.sortedLT_sort.pairwise ((Finset.mem_sort (· ≤ ·)).mpr member),
    Finset.sort_toFinset]

theorem slot_lt_of_slot? {vars : Variables} {name : String} {slot : Nat}
    (found : vars.slot? name = some slot) : slot < vars.size :=
  (List.findIdx?_eq_some_iff_getElem.mp found).1

theorem slot?_eq_none_iff {v : Variables} {name : String} :
    v.slot? name = none ↔ name ∉ v.names := List.idxOf?_eq_none_iff

theorem exists_slot? {v : Variables} {name : String} (member : name ∈ v.names) :
    ∃ slot, v.slot? name = some slot :=
  Option.isSome_iff_exists.mp (List.isSome_idxOf?.mpr member)

theorem name?_of_slot? {v : Variables} {name : String} {slot : Nat}
    (found : v.slot? name = some slot) : v.name? slot = some name := by
  obtain ⟨inside, heq, -⟩ := List.idxOf?_eq_some_iff.mp found
  rw [name?, List.getElem?_eq_getElem inside, heq]

/-- Every slot has a name, and the name has the slot. -/
theorem exists_name? (names : List String) {slot : Nat}
    (inside : slot < (ofNames names).size) :
    ∃ name, (ofNames names).name? slot = some name ∧
      (ofNames names).slot? name = some slot := by
  have nodup : (ofNames names).names.Nodup := (pairwise_ofNames names).imp ne_of_lt
  refine ⟨_, List.getElem?_eq_getElem inside, ?_⟩
  refine List.idxOf?_eq_some_iff.mpr ⟨inside, rfl, ?_⟩
  intro earlier before same
  exact absurd (nodup.getElem_inj_iff.mp same) (Nat.ne_of_lt before)

theorem slot?_ofNames_eq_some_iff {names : List String} {name : String} {slot : Nat} :
    (ofNames names).slot? name = some slot ↔ (ofNames names).name? slot = some name := by
  refine ⟨name?_of_slot?, ?_⟩
  intro named
  obtain ⟨inside, -⟩ := List.getElem?_eq_some_iff.mp named
  obtain ⟨other, named', found⟩ := exists_name? names inside
  rwa [Option.some.inj (named.symm.trans named')]

theorem ofNames_congr {names others : List String} (same : names.toFinset = others.toFinset) :
    ofNames names = ofNames others := by
  rw [ofNames_eq_sort, ofNames_eq_sort, same]

theorem slot?_ofNames {names : List String} {name : String} (member : name ∈ names) :
    (ofNames names).slot? name = some (rank names.toFinset name) := by
  rw [ofNames_eq_sort, slot?_sort (List.mem_toFinset.mpr member)]

/-- That variables are the names of a set in ascending order, by code points, that slots and names
go together both ways, and that the slot of a name counts the names of the set before it. -/
structure Ranks (names : Finset String) (v : Variables) : Prop where
  sorted : v.names.Pairwise (· < ·)
  mem_names_iff : ∀ name, name ∈ v.names ↔ name ∈ names
  slot?_iff : ∀ name slot, v.slot? name = some slot ↔ v.name? slot = some name
  slot?_of_mem : ∀ name ∈ names, v.slot? name = some (rank names name)
  slot?_of_notMem : ∀ name ∉ names, v.slot? name = none

theorem ranks_ofNames (names : List String) : (ofNames names).Ranks names.toFinset where
  sorted := pairwise_ofNames names
  mem_names_iff name := by rw [mem_ofNames, List.mem_toFinset]
  slot?_iff _ _ := slot?_ofNames_eq_some_iff
  slot?_of_mem _ member := slot?_ofNames (List.mem_toFinset.mp member)
  slot?_of_notMem name missing := by
    rw [slot?_eq_none_iff, mem_ofNames, ← List.mem_toFinset]
    exact missing

end Variables

namespace Names

theorem mem_foldl_insert {name : String} {names : List String} {s : Names} :
    name ∈ (names.foldl insert s).toList ↔ name ∈ names ∨ name ∈ s.toList := by
  induction names generalizing s with
  | nil => simp
  | cons head rest ih =>
      rw [List.foldl_cons, ih, mem_insert, List.mem_cons, or_left_comm, or_assoc]

theorem size_finalize (s : Names) : s.finalize.size = s.size := by
  rw [finalize, Variables.ofNames_eq_sort, Variables.size, Finset.length_sort,
    List.toFinset_card_of_nodup s.nodup, size]

/-- The names that are gathered one after another. -/
def gather (names : List String) : Names := names.foldl insert ∅

theorem mem_gather {name : String} {names : List String} :
    name ∈ (gather names).toList ↔ name ∈ names := by
  rw [gather, mem_foldl_insert]
  exact or_iff_left List.not_mem_nil

theorem finalize_gather (names : List String) : (gather names).finalize = .ofNames names := by
  apply Variables.ofNames_congr
  ext name
  rw [List.mem_toFinset, List.mem_toFinset, mem_gather]

/-- In whatever order and however often names are gathered, their slots depend on nothing but the
set of them. -/
theorem ranks_finalize_gather (names : List String) :
    (gather names).finalize.Ranks names.toFinset ∧
      (gather names).finalize.size = (gather names).size ∧
      ∀ others : List String, others.toFinset = names.toFinset →
        Variables.ofNames others = (gather names).finalize := by
  rw [finalize_gather]
  refine ⟨Variables.ranks_ofNames names, ?_, fun others same => Variables.ofNames_congr same⟩
  rw [← finalize_gather, size_finalize]

theorem ranks_finalize_gather_greek :
    let names := ["Δ", "z", "x", "y", "x"]
    let others := ["y", "Δ", "x", "Δ", "z"]
    let v := (gather names).finalize
    others.toFinset = names.toFinset ∧ Variables.ofNames others = v ∧
      v.slot? "Δ" = some 3 ∧ v.name? 3 = some "Δ" ∧ v.slot? "w" = none := by
  intro names others v
  have same : others.toFinset = names.toFinset := by decide
  obtain ⟨ranks, -, unique⟩ := ranks_finalize_gather names
  have before : rank names.toFinset "Δ" = 3 := by decide
  have found : v.slot? "Δ" = some 3 := by
    rw [ranks.slot?_of_mem "Δ" (by decide), before]
  exact ⟨same, unique others same, found, (ranks.slot?_iff "Δ" 3).mp found,
    ranks.slot?_of_notMem "w" (by decide)⟩

end Names

end Formula
