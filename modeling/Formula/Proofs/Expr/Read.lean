import Formula.Proofs.Expr.Folded
import Formula.Proofs.Token.Lexeme

/-!
What has been read from a text. Each name in it is a whole word of the text, and a word that means a
function or a constant is never a name. All names get their slots, so that binding a tree to them
never fails, and the expression is folded.
-/

set_option autoImplicit false

namespace Formula

/-- The names among the tokens of a text. -/
theorem scan_of_mem {source : String} {tokens : List Token} (ok : scan source = .ok tokens)
    {text : String} (member : .name text ∈ tokens.map (·.kind)) :
    scan text = .ok [⟨.name text, 0⟩] := by
  obtain ⟨token, htoken, same⟩ := List.mem_map.mp member
  obtain ⟨piece, lexeme, -⟩ := (splits_of_scan ok).standsAt htoken
  have alone := lexeme.alone
  rwa [same, lexeme.spelled text same] at alone

theorem not_reserved {text : String} (one : scan text = .ok [⟨.name text, 0⟩]) :
    UnaryFn.ofName? text = none ∧ namedConstant? text = none := by
  obtain ⟨-, -, -, -, -, word⟩ := exists_of_scan_eq_name one
  exact (TokenKind.ofWord_eq_name_iff.mp word).2

namespace Derives

variable {symbol : Symbol} {input rest : List TokenKind} {term : Term} {depth : Nat}

theorem suffix (derives : Derives symbol input rest term depth) : rest <:+ input := by
  induction derives with
  | number | name => exact List.suffix_cons _ _
  | group _ ih => exact ((List.suffix_cons _ _).trans ih).trans (List.suffix_cons _ _)
  | ofPrimary _ ih | ofApplication _ ih | ofUnary _ ih | ofPower _ ih | ofProduct _ ih => exact ih
  | call _ ih | minus _ ih | plus _ ih => exact ih.trans (List.suffix_cons _ _)
  | power _ _ ihleft ihright | product _ _ _ ihleft ihright | sum _ _ _ ihleft ihright =>
      exact (ihright.trans (List.suffix_cons _ _)).trans ihleft

/-- The tree of a row of tokens has no names but those of the tokens. -/
theorem mem_input (derives : Derives symbol input rest term depth) {name : String}
    (member : name ∈ term.names) : .name name ∈ input := by
  induction derives with
  | number => contradiction
  | name => exact List.mem_cons.mpr (.inl (congrArg _ (List.mem_singleton.mp member)))
  | ofPrimary _ ih | ofApplication _ ih | ofUnary _ ih | ofPower _ ih | ofProduct _ ih =>
      exact ih member
  | group _ ih | call _ ih | minus _ ih | plus _ ih => exact List.mem_cons_of_mem _ (ih member)
  | power left _ ihleft ihright | product _ left _ ihleft ihright | sum _ left _ ihleft ihright =>
      rcases List.mem_append.mp member with member | member
      · exact ihleft member
      · exact left.suffix.subset (List.mem_cons_of_mem _ (ihright member))

end Derives

namespace Expr

theorem vars_foldRoot {α : Type} [Arithmetic α] (e : Expr α) : (foldRoot e).vars = e.vars := by
  unfold foldRoot
  split
  · rfl
  · exact (Finset.union_idempotent _).symm
  · rfl
  · rfl

/-- A tree whose names all have slots can be bound to them. -/
theorem exists_ofTerm {v : Variables} {term : Term} (known : ∀ name ∈ term.names, name ∈ v.names) :
    ∃ e, ofTerm v term = .ok e := by
  induction term with
  | number value => exact ⟨_, rfl⟩
  | var name =>
      obtain ⟨slot, found⟩ := Variables.exists_slot? (known name (List.mem_singleton_self name))
      exact ⟨.var name slot, by rw [ofTerm, found]⟩
  | neg body ih =>
      obtain ⟨e, ok⟩ := ih known
      exact ⟨foldRoot (.neg e), by rw [ofTerm, ok]; rfl⟩
  | binary op left right ihleft ihright =>
      obtain ⟨l, okl⟩ := ihleft fun name member => known name (List.mem_append_left _ member)
      obtain ⟨r, okr⟩ := ihright fun name member => known name (List.mem_append_right _ member)
      exact ⟨foldRoot (.binary op l r), by rw [ofTerm, okl, okr]; rfl⟩
  | call f argument ih =>
      obtain ⟨e, ok⟩ := ih known
      exact ⟨foldRoot (.call f e), by rw [ofTerm, ok]; rfl⟩

/-- What a tree becomes when it is bound: folded, with the same names, each in its slot. -/
structure Binds (v : Variables) (term : Term) (e : Expr Float) : Prop where
  folded : e.Folded
  mem_vars_iff : ∀ name slot,
    (name, slot) ∈ e.vars ↔ name ∈ term.names ∧ v.slot? name = some slot

theorem Binds.within {v : Variables} {term : Term} {e : Expr Float} (binds : Binds v term e) :
    e.Within e.vars :=
  ⟨binds.folded, subset_rfl⟩

theorem binds_of_ofTerm {v : Variables} {term : Term} {e : Expr Float}
    (ok : ofTerm v term = .ok e) : Binds v term e := by
  induction term generalizing e with
  | number value =>
      cases ok
      exact ⟨trivial, by simp [vars, Term.names]⟩
  | var name =>
      rw [ofTerm] at ok
      split at ok
      · rename_i slot found
        cases ok
        refine ⟨trivial, ?_⟩
        intro other s
        simp only [vars, Finset.mem_singleton, Prod.mk.injEq, Term.names, List.mem_singleton]
        constructor
        · rintro ⟨rfl, rfl⟩
          exact ⟨rfl, found⟩
        · rintro ⟨rfl, found'⟩
          exact ⟨rfl, Option.some.inj (found'.symm.trans found)⟩
      · contradiction
  | neg body ih =>
      obtain ⟨b, okb, ok⟩ := bind_eq_ok ok
      obtain rfl := Except.ok.inj ok
      have binds := ih okb
      exact ⟨binds.within.foldRoot_neg.folded, by rw [vars_foldRoot]; exact binds.mem_vars_iff⟩
  | binary op left right ihleft ihright =>
      obtain ⟨l, okl, ok⟩ := bind_eq_ok ok
      obtain ⟨r, okr, ok⟩ := bind_eq_ok ok
      obtain rfl := Except.ok.inj ok
      have bindsl := ihleft okl
      have bindsr := ihright okr
      have withinl : l.Within (l.vars ∪ r.vars) := ⟨bindsl.folded, Finset.subset_union_left⟩
      have withinr : r.Within (l.vars ∪ r.vars) := ⟨bindsr.folded, Finset.subset_union_right⟩
      refine ⟨(withinl.foldRoot_binary withinr).folded, ?_⟩
      intro name slot
      rw [vars_foldRoot, vars, Finset.mem_union, bindsl.mem_vars_iff, bindsr.mem_vars_iff,
        Term.names, List.mem_append, or_and_right]
  | call f argument ih =>
      obtain ⟨a, oka, ok⟩ := bind_eq_ok ok
      obtain rfl := Except.ok.inj ok
      have binds := ih oka
      exact ⟨binds.within.foldRoot_call.folded, by rw [vars_foldRoot]; exact binds.mem_vars_iff⟩

theorem mem_finalize {tokens : List Token} {term : Term} {names : Names}
    (ok : Term.ofTokens tokens = .ok (term, names)) {name : String} :
    name ∈ names.finalize.names ↔ name ∈ term.names := by
  obtain ⟨p, reads, -, hterm, hnames⟩ := Term.exists_of_ofTokens_eq_ok ok
  rw [Names.finalize, Variables.mem_ofNames, ← hnames, reads.names_eq, hterm,
    Names.mem_foldl_insert]
  exact or_iff_left List.not_mem_nil

/-- The names gathered are those of the tree, so that none of them is ever missing. -/
theorem read_ne_variableNotFound (source name : String) :
    read source ≠ .error (.variableNotFound name) := by
  unfold read
  split
  · rintro ⟨⟩
  · split
    · rintro ⟨⟩
    · rename_i term names ok
      have known : ∀ name ∈ term.names, name ∈ names.finalize.names :=
        fun name => (mem_finalize ok).mpr
      obtain ⟨e, bound⟩ := exists_ofTerm known
      rw [bound]
      rintro ⟨⟩

/-- What there is behind an expression that has been read. -/
structure ReadFrom (source : String) (e : Expr Float) (v : Variables) : Prop where
  named : ∃ names, v = .ofNames names
  folded : e.Folded
  slot? : ∀ name slot, (name, slot) ∈ e.vars → v.slot? name = some slot
  mem_names_iff : ∀ name, name ∈ v.names ↔ name ∈ e.names
  scan : ∀ name ∈ v.names, scan name = .ok [⟨.name name, 0⟩]

/-- No name of a formula is a reserved word: a function, the second name of the logarithm, or a
constant. -/
theorem ReadFrom.ne_reserved {source : String} {e : Expr Float} {v : Variables}
    (read : ReadFrom source e v) {name : String} (member : name ∈ v.names) :
    name ≠ "log" ∧ (∀ f : UnaryFn, name ≠ f.name) ∧ name ∉ ["PI", "π", "TAU", "τ", "E"] := by
  obtain ⟨noFunction, noConstant⟩ := not_reserved (read.scan name member)
  obtain ⟨notLog, noName⟩ := UnaryFn.ofName?_eq_none_iff.mp noFunction
  exact ⟨notLog, noName, namedConstant?_eq_none_iff.mp noConstant⟩

theorem readFrom_of_read {source : String} {e : Expr Float} {v : Variables}
    (ok : read source = .ok (e, v)) : ReadFrom source e v := by
  unfold read at ok
  split at ok
  · contradiction
  · rename_i tokens scanned
    split at ok
    · contradiction
    · rename_i term names parsed
      split at ok
      · contradiction
      · rename_i bound
        cases ok
        have binds := binds_of_ofTerm bound
        have mem_names (name : String) : name ∈ names.finalize.names ↔ name ∈ e.names := by
          rw [mem_finalize parsed, Expr.mem_names_iff]
          constructor
          · intro member
            obtain ⟨slot, found⟩ := Variables.exists_slot? ((mem_finalize parsed).mpr member)
            exact ⟨slot, (binds.mem_vars_iff name slot).mpr ⟨member, found⟩⟩
          · rintro ⟨slot, member⟩
            exact ((binds.mem_vars_iff name slot).mp member).1
        refine ⟨⟨_, rfl⟩, binds.folded, ?_, mem_names, ?_⟩
        · intro name slot member
          exact ((binds.mem_vars_iff name slot).mp member).2
        · intro name member
          obtain ⟨depth, derives, -⟩ := Term.derives_of_ofTokens parsed
          exact scan_of_mem scanned (derives.mem_input ((mem_finalize parsed).mp member))

end Expr

end Formula
