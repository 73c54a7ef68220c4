import Formula.Proofs.Term.Grammar
import Formula.Proofs.Term.Readers

/-!
What the readers return is derived from the grammar. Each reader calls others with fewer tokens
to come, or earlier ones of their row, so that the proofs call each other as the readers do.
-/

set_option autoImplicit false

namespace Formula

variable {limit : Nat}

def Term.names : Term → List String
  | number _ => []
  | var name => [name]
  | neg body => body.names
  | binary _ left right => left.names ++ right.names
  | call _ argument => argument.names

/-- That `p` is a symbol read from `c` on. -/
structure Reads (symbol : Symbol) (c : Cursor limit) (p : Parsed limit) : Prop where
  derives : ∃ depth, Derives symbol c.kinds p.stop.kinds p.term depth ∧ c.level + depth ≤ limit
  height_eq : p.height = p.term.height
  height_le : p.height ≤ max limit 1
  level_eq : p.stop.level = c.level
  names_eq : p.stop.names = p.term.names.foldl .insert c.names

namespace Reads

variable {c inner start : Cursor limit} {left p body right : Parsed limit} {rest : List Token}
  {position height k : Nat}

theorem loosen {m n : Nat} (hle : m ≤ n) (reads : Reads (.ofPrecedence n) c p) :
    Reads (.ofPrecedence m) c p := by
  obtain ⟨depth, derives, shallow⟩ := reads.derives
  exact { reads with derives := ⟨depth, derives.loosen hle, shallow⟩ }

theorem ofApplication (reads : Reads .application c p) : Reads .unary c p := by
  obtain ⟨depth, derives, shallow⟩ := reads.derives
  exact { reads with derives := ⟨depth, .ofApplication derives, shallow⟩ }

theorem ofPrimary (reads : Reads .primary c p) : Reads .application c p := by
  obtain ⟨depth, derives, shallow⟩ := reads.derives
  exact { reads with derives := ⟨depth, .ofPrimary derives, shallow⟩ }

theorem enclose {symbol around : Symbol} (opened : c.enter rest position = .ok inner)
    (reads : Reads symbol inner body)
    (rule : ∀ depth, Derives symbol inner.kinds body.stop.kinds body.term depth →
      Derives around c.kinds p.stop.kinds p.term (depth + 1))
    (height_eq : p.height = p.term.height) (height_le : p.height ≤ max limit 1)
    (level_eq : p.stop.level = body.stop.level - 1) (names_eq : p.stop.names = body.stop.names)
    (same : p.term.names = body.term.names) : Reads around c p := by
  obtain ⟨-, hlevel, hnames⟩ := Cursor.enter_eq_ok opened
  obtain ⟨depth, derives, shallow⟩ := reads.derives
  refine ⟨⟨depth + 1, rule depth derives, by omega⟩, height_eq, height_le, ?_, ?_⟩
  · rw [level_eq, reads.level_eq, hlevel]
    rfl
  · rw [names_eq, same, ← hnames]
    exact reads.names_eq

theorem minus (hrest : c.rest = ⟨.operator .sub, position⟩ :: rest)
    (opened : c.enter rest position = .ok inner) (reads : Reads .unary inner body)
    (grown : growHeight limit body.height position = .ok height) :
    Reads .unary c ⟨.neg body.term, height, body.stop.closeGroup⟩ := by
  obtain ⟨rfl, low⟩ := growHeight_eq_ok grown
  obtain ⟨rfl, -, -⟩ := Cursor.enter_eq_ok opened
  refine reads.enclose opened ?_ (congrArg (· + 1) reads.height_eq)
    (le_max_of_le_left low) rfl rfl rfl
  intro depth derives
  rw [Cursor.kinds, hrest]
  exact .minus derives

theorem plus (hrest : c.rest = ⟨.operator .add, position⟩ :: rest)
    (opened : c.enter rest position = .ok inner) (reads : Reads .unary inner body) :
    Reads .unary c { body with stop := body.stop.closeGroup } := by
  obtain ⟨rfl, -, -⟩ := Cursor.enter_eq_ok opened
  refine reads.enclose opened ?_ reads.height_eq reads.height_le rfl rfl rfl
  intro depth derives
  rw [Cursor.kinds, hrest]
  exact .plus derives

theorem call {f : UnaryFn} (hrest : c.rest = ⟨.function f, position⟩ :: rest)
    (opened : c.enter rest position = .ok inner) (reads : Reads .application inner body)
    (grown : growHeight limit body.height position = .ok height) :
    Reads .application c ⟨.call f body.term, height, body.stop.closeGroup⟩ := by
  obtain ⟨rfl, low⟩ := growHeight_eq_ok grown
  obtain ⟨rfl, -, -⟩ := Cursor.enter_eq_ok opened
  refine reads.enclose opened ?_ (congrArg (· + 1) reads.height_eq)
    (le_max_of_le_left low) rfl rfl rfl
  intro depth derives
  rw [Cursor.kinds, hrest]
  exact .call derives

theorem group {close : Nat} {after : List Token} (hrest : c.rest = ⟨.left, position⟩ :: rest)
    (opened : c.enter rest position = .ok inner) (reads : Reads .sum inner body)
    (hstop : body.stop.rest = ⟨.right, close⟩ :: after) :
    Reads .primary c { body with stop := body.stop.closeGroup.moveTo after } := by
  obtain ⟨rfl, -, -⟩ := Cursor.enter_eq_ok opened
  refine reads.enclose opened ?_ reads.height_eq reads.height_le rfl rfl rfl
  intro depth derives
  rw [Cursor.kinds, hrest]
  rw [Cursor.kinds, Cursor.kinds, hstop] at derives
  exact .group derives

theorem number {value : Float} (hrest : c.rest = ⟨.number value, position⟩ :: rest) :
    Reads .primary c ⟨.number value, 1, c.moveTo rest⟩ := by
  refine ⟨⟨0, ?_, c.level_le⟩, rfl, le_max_right limit 1, rfl, rfl⟩
  rw [Cursor.kinds, hrest]
  exact .number

theorem name {text : String} (hrest : c.rest = ⟨.name text, position⟩ :: rest)
    (notCalled : ¬ rest.head?.any (·.kind = .left)) :
    Reads .primary c ⟨.var text, 1, { c with rest, names := c.names.insert text }⟩ := by
  refine ⟨⟨0, ?_, c.level_le⟩, rfl, le_max_right limit 1, rfl, rfl⟩
  rw [Cursor.kinds, hrest]
  refine .name ?_
  cases rest with
  | nil => nofun
  | cons token after => simpa using notCalled

theorem binary {op : Operator} (follows : Follows k left.stop.kinds)
    (sofar : Reads (.ofPrecedence k) start left)
    (hrest : left.stop.rest = ⟨.operator op, position⟩ :: rest)
    (opened : left.stop.enter rest position = .ok inner)
    (reads : Reads (.ofPrecedence op.rightPrecedence) inner right)
    (grown : growHeight limit (max left.height right.height) position = .ok height) :
    Reads (.ofPrecedence op.precedence) start
      ⟨.binary op left.term right.term, height, right.stop.closeGroup⟩ := by
  have hkinds : left.stop.kinds = .operator op :: rest.map (·.kind) := by
    rw [Cursor.kinds, hrest]
    rfl
  obtain ⟨rfl, hlevel, hnames⟩ := Cursor.enter_eq_ok opened
  obtain ⟨rfl, low⟩ := growHeight_eq_ok grown
  obtain ⟨dl, dleft, hdl⟩ := (sofar.loosen (follows _ _ hkinds)).derives
  obtain ⟨dr, dright, hdr⟩ := reads.derives
  have hstart := sofar.level_eq
  refine ⟨⟨max dl (dr + 1), ?_, by omega⟩, ?_, le_max_of_le_left low, ?_, ?_⟩
  · rw [hkinds] at dleft
    exact dleft.binary dright
  · rw [sofar.height_eq, reads.height_eq]
    rfl
  · exact (congrArg (· - 1) (reads.level_eq.trans hlevel)).trans hstart
  · change right.stop.names = (left.term.names ++ right.term.names).foldl .insert start.names
    rw [List.foldl_append, ← sofar.names_eq, ← hnames]
    exact reads.names_eq

end Reads

namespace Parse

mutual

theorem reads_expression (least : Nat) (c : Cursor limit) {p : Parsed limit}
    (ok : plain (expression least c) = .ok p) :
    Reads (.ofPrecedence least) c p ∧ Stops least p.stop.kinds := by
  rw [plain_expression] at ok
  obtain ⟨first, hfirst, hrest⟩ := bind_eq_ok ok
  have shorter := passed_of_plain hfirst
  exact reads_operators least (least + 4) first (Nat.le_add_right least 4)
    (reads_signed c hfirst) (.of_ge (Nat.le_add_left 4 least)) hrest
termination_by (c.rest.length, 4)

/-- The loop over the operators, after `left` has been read from `start` on. -/
theorem reads_operators (least k : Nat) {start : Cursor limit} (left : Parsed limit)
    {p : Parsed limit} (tight : least ≤ k) (sofar : Reads (.ofPrecedence k) start left)
    (follows : Follows k left.stop.kinds) (ok : plain (operators least left) = .ok p) :
    Reads (.ofPrecedence least) start p ∧ Stops least p.stop.kinds := by
  rw [plain_operators] at ok
  split at ok
  · rename_i op position rest hrest
    split at ok
    · rename_i loose
      cases ok
      refine ⟨sofar.loosen tight, ?_⟩
      intro next after heq
      simp only [Cursor.kinds, hrest] at heq
      cases heq
      exact loose
    · rename_i strong
      obtain ⟨inner, opened, ok⟩ := bind_eq_ok ok
      obtain ⟨right, hright, ok⟩ := bind_eq_ok ok
      obtain ⟨height, grown, ok⟩ := bind_eq_ok ok
      have entered := Cursor.length_lt_of_enter hrest opened
      have shorter := Nat.lt_trans (passed_of_plain hright) entered
      have ⟨reads, stops⟩ := reads_expression _ inner hright
      exact reads_operators least _ _ (Nat.not_lt.mp strong)
        (sofar.binary follows hrest opened reads grown) (stops_rightPrecedence_iff.mp stops) ok
  · rename_i ends
    cases ok
    refine ⟨sofar.loosen tight, ?_⟩
    intro op after heq
    obtain ⟨⟨kind, position⟩, rest, hrest, rfl, -⟩ := List.map_eq_cons_iff.mp heq
    exact (ends op position rest hrest).elim
termination_by (left.stop.rest.length, 0)

theorem reads_signed (c : Cursor limit) {p : Parsed limit} (ok : plain (signed c) = .ok p) :
    Reads .unary c p := by
  rw [plain_signed] at ok
  split at ok
  · rename_i position rest hrest
    obtain ⟨inner, opened, ok⟩ := bind_eq_ok ok
    obtain ⟨body, hbody, ok⟩ := bind_eq_ok ok
    obtain ⟨height, grown, ok⟩ := bind_eq_ok ok
    have entered := Cursor.length_lt_of_enter hrest opened
    cases ok
    exact .minus hrest opened (reads_signed inner hbody) grown
  · rename_i position rest hrest
    obtain ⟨inner, opened, ok⟩ := bind_eq_ok ok
    obtain ⟨body, hbody, ok⟩ := bind_eq_ok ok
    have entered := Cursor.length_lt_of_enter hrest opened
    cases ok
    exact .plus hrest opened (reads_signed inner hbody)
  · exact .ofApplication (reads_application c ok)
termination_by (c.rest.length, 3)

theorem reads_application (c : Cursor limit) {p : Parsed limit}
    (ok : plain (application c) = .ok p) : Reads .application c p := by
  rw [plain_application] at ok
  split at ok
  · rename_i f position rest hrest
    obtain ⟨inner, opened, ok⟩ := bind_eq_ok ok
    have entered := Cursor.length_lt_of_enter hrest opened
    split at ok
    · obtain ⟨argument, hargument, ok⟩ := bind_eq_ok ok
      obtain ⟨height, grown, ok⟩ := bind_eq_ok ok
      cases ok
      exact .call hrest opened (reads_application inner hargument) grown
    · contradiction
  · exact .ofPrimary (reads_primary c ok)
termination_by (c.rest.length, 2)

theorem reads_primary (c : Cursor limit) {p : Parsed limit} (ok : plain (primary c) = .ok p) :
    Reads .primary c p := by
  rw [plain_primary] at ok
  split at ok
  · contradiction
  · rename_i hrest
    cases ok
    exact .number hrest
  · rename_i hrest
    split at ok
    · contradiction
    · rename_i notCalled
      cases ok
      exact .name hrest notCalled
  · rename_i position rest hrest
    obtain ⟨inner, opened, ok⟩ := bind_eq_ok ok
    obtain ⟨body, hbody, ok⟩ := bind_eq_ok ok
    have entered := Cursor.length_lt_of_enter hrest opened
    split at ok
    · rename_i hstop
      cases ok
      exact .group hrest opened (reads_expression 0 inner hbody).1 hstop
    · contradiction
    · contradiction
  · contradiction
termination_by (c.rest.length, 1)

end

end Parse

end Formula
