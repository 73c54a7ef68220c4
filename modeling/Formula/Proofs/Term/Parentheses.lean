import Formula.Proofs.Term.Blamed
import Formula.Proofs.Term.Completeness
import Mathlib.Combinatorics.Enumerative.DyckWord

/-!
Parentheses and their partners. What a symbol of the grammar takes has balanced parentheses. So a
right one that is left over has none before it to close, and a left one whose group runs to the end
is closed by none behind it.
-/

set_option autoImplicit false

namespace Formula

open DyckStep

/-- A left parenthesis is a step up, and a right one a step down. -/
def TokenKind.parenthesis? : TokenKind → Option DyckStep
  | left => some U
  | right => some D
  | _ => none

/-- The parentheses in a row of tokens. -/
def parentheses (kinds : List TokenKind) : List DyckStep := kinds.filterMap TokenKind.parenthesis?

section

variable (kinds rest : List TokenKind)

@[simp] theorem parentheses_left :
    parentheses (.left :: kinds) = U :: parentheses kinds := rfl

@[simp] theorem parentheses_right :
    parentheses (.right :: kinds) = D :: parentheses kinds := rfl

theorem parentheses_cons_of_none {kind : TokenKind} (plain : kind.parenthesis? = none) :
    parentheses (kind :: kinds) = parentheses kinds := List.filterMap_cons_none plain

@[simp] theorem parentheses_append :
    parentheses (kinds ++ rest) = parentheses kinds ++ parentheses rest := List.filterMap_append

end

/-- That the parentheses in a row of tokens are balanced. -/
def Balances (kinds : List TokenKind) : Prop := ∃ word : DyckWord, word.toList = parentheses kinds

namespace Balances

variable {kinds before after rest : List TokenKind}

theorem iff_count : Balances kinds ↔
    (parentheses kinds).count U = (parentheses kinds).count D ∧
      ∀ n ≤ (parentheses kinds).length,
        ((parentheses kinds).take n).count D ≤ ((parentheses kinds).take n).count U := by
  constructor
  · rintro ⟨word, heq⟩
    rw [← heq]
    exact ⟨word.count_U_eq_count_D, fun n _ => word.count_D_le_count_U n⟩
  · rintro ⟨same, low⟩
    refine ⟨⟨parentheses kinds, same, ?_⟩, rfl⟩
    intro n
    rcases Nat.le_total n (parentheses kinds).length with inside | beyond
    · exact low n inside
    · rw [List.take_of_length_le beyond]
      exact same.ge

instance : Decidable (Balances kinds) := decidable_of_iff _ iff_count.symm

theorem nil : Balances [] := ⟨0, rfl⟩

theorem cons {kind : TokenKind} (plain : kind.parenthesis? = none) (balances : Balances kinds) :
    Balances (kind :: kinds) := by
  obtain ⟨word, heq⟩ := balances
  exact ⟨word, heq.trans (parentheses_cons_of_none kinds plain).symm⟩

theorem append (first : Balances kinds) (second : Balances rest) : Balances (kinds ++ rest) := by
  obtain ⟨word, heq⟩ := first
  obtain ⟨word', heq'⟩ := second
  refine ⟨word + word', ?_⟩
  rw [parentheses_append, ← heq, ← heq']
  rfl

theorem operation (op : Operator) (left : Balances kinds) (right : Balances rest) :
    Balances (kinds ++ .operator op :: rest) := left.append (right.cons rfl)

theorem enclose (balances : Balances kinds) : Balances (.left :: (kinds ++ [.right])) := by
  obtain ⟨word, heq⟩ := balances
  refine ⟨word.nest, ?_⟩
  rw [parentheses_left, parentheses_append, ← heq]
  rfl

/-- Behind a balanced part, a right parenthesis has nothing to close. -/
theorem not_right (balances : Balances before) : ¬ Balances (before ++ .right :: after) := by
  obtain ⟨word, heq⟩ := balances
  rintro ⟨whole, hwhole⟩
  have split : whole.toList = (word.toList ++ [D]) ++ parentheses after := by
    rw [hwhole, parentheses_append, parentheses_right, ← heq, List.append_assoc]
    rfl
  have low := whole.count_D_le_count_U (word.toList ++ [D]).length
  rw [split, List.take_left, List.count_append, List.count_append, word.count_U_eq_count_D] at low
  simp at low

/-- Before a balanced part, a left parenthesis is not closed. -/
theorem not_left (balances : Balances after) : ¬ Balances (before ++ .left :: after) := by
  obtain ⟨word, heq⟩ := balances
  rintro ⟨whole, hwhole⟩
  have split : whole.toList = parentheses before ++ U :: word.toList := by
    rw [hwhole, parentheses_append, parentheses_left, heq]
  have low := whole.count_D_le_count_U (parentheses before).length
  have same := whole.count_U_eq_count_D
  rw [split, List.take_left] at low
  rw [split, List.count_append, List.count_append, List.count_cons_self,
    List.count_cons_of_ne (by decide), word.count_U_eq_count_D] at same
  omega

end Balances

/-- That the token between two rows is a parenthesis without a partner. The side where the partner
belongs is balanced, and no parenthesis there closes, or opens, a balanced part next to this one. -/
inductive Unpartnered (before after : List TokenKind) : TokenKind → Prop
  | left : Balances after → (∀ inner rest, after = inner ++ .right :: rest → ¬ Balances inner) →
      Unpartnered before after .left
  | right : Balances before → (∀ rest inner, before = rest ++ .left :: inner → ¬ Balances inner) →
      Unpartnered before after .right

namespace Unpartnered

variable {before after : List TokenKind} {kind : TokenKind}

theorem ofLeft (balances : Balances after) : Unpartnered before after .left := by
  refine .left balances ?_
  rintro inner rest rfl closed
  exact closed.not_right balances

theorem ofRight (balances : Balances before) : Unpartnered before after .right := by
  refine .right balances ?_
  rintro rest inner rfl closed
  exact closed.not_left balances

theorem not_balances (unpartnered : Unpartnered before after kind) :
    ¬ Balances (before ++ kind :: after) := by
  cases unpartnered with
  | left balances => exact balances.not_left
  | right balances => exact balances.not_right

end Unpartnered

/-- What a symbol takes of a row of tokens has balanced parentheses. -/
theorem Derives.exists_balances {symbol : Symbol} {input rest : List TokenKind} {term : Term}
    {depth : Nat} (derives : Derives symbol input rest term depth) :
    ∃ taken, input = taken ++ rest ∧ Balances taken := by
  induction derives with
  | number | name => exact ⟨[_], rfl, .cons rfl .nil⟩
  | group _ ih =>
      obtain ⟨taken, rfl, balances⟩ := ih
      exact ⟨_, by simp, balances.enclose⟩
  | ofPrimary _ ih | ofApplication _ ih | ofUnary _ ih | ofPower _ ih | ofProduct _ ih => exact ih
  | call _ ih | minus _ ih | plus _ ih =>
      obtain ⟨taken, rfl, balances⟩ := ih
      exact ⟨_, rfl, balances.cons rfl⟩
  | power _ _ ihleft ihright | product _ _ _ ihleft ihright | sum _ _ _ ihleft ihright =>
      obtain ⟨taken, rfl, balances⟩ := ihleft
      obtain ⟨taken', rfl, balances'⟩ := ihright
      exact ⟨_, (List.append_assoc _ (_ :: _) _).symm, balances.operation _ balances'⟩

/-!
### The readers

A reader reports a left parenthesis in one place alone, where its group takes all tokens that are
left. Everywhere else it hands on what an inner reader reports, of tokens that end where its own do.
-/

/-- That a left parenthesis stands at a position, and that nothing behind it closes it. -/
def LeavesOpen (position : Nat) (tokens : List Token) : Prop :=
  ∃ before after, tokens = before ++ ⟨.left, position⟩ :: after ∧ Balances (after.map (·.kind))

theorem LeavesOpen.mono {position : Nat} {tokens more : List Token}
    (opens : LeavesOpen position tokens) (suffix : tokens <:+ more) : LeavesOpen position more := by
  obtain ⟨before, after, rfl, balances⟩ := opens
  obtain ⟨front, rfl⟩ := suffix
  exact ⟨front ++ before, after, (List.append_assoc front before _).symm, balances⟩

theorem bind_eq_error {ε α β : Type} {x : Except ε α} {f : α → Except ε β} {e : ε}
    (failed : x.bind f = .error e) : x = .error e ∨ ∃ a, x = .ok a ∧ f a = .error e := by
  cases x with
  | error refused => exact .inl (congrArg Except.error (Except.error.inj failed))
  | ok a => exact .inr ⟨a, rfl, failed⟩

variable {limit position : Nat}

/-- A group that is too deep is not what is wrong with a parenthesis. -/
theorem Cursor.exists_of_enter_bind {c : Cursor limit} {token : Token} {rest : List Token}
    {opening : Nat} {f : Cursor limit → Except ParseError (Parsed limit)}
    (hrest : c.rest = token :: rest)
    (failed : (c.enter rest opening).bind f = .error (.unbalancedParentheses position)) :
    ∃ inner : Cursor limit, inner.rest = rest ∧ inner.rest <:+ c.rest ∧
      inner.rest.length < c.rest.length ∧ f inner = .error (.unbalancedParentheses position) := by
  rcases bind_eq_error failed with refused | ⟨inner, opened, failed⟩
  · cases Cursor.enter_eq_error refused
  · exact ⟨inner, (Cursor.enter_eq_ok opened).1, Cursor.suffix_of_enter hrest opened,
      Cursor.length_lt_of_enter hrest opened, failed⟩

theorem exists_of_growHeight_bind {height near : Nat} {f : Nat → Except ParseError (Parsed limit)}
    (failed : (growHeight limit height near).bind f = .error (.unbalancedParentheses position)) :
    ∃ grown, f grown = .error (.unbalancedParentheses position) := by
  rcases bind_eq_error failed with refused | ⟨grown, -, failed⟩
  · cases growHeight_eq_error refused
  · exact ⟨grown, failed⟩

namespace Parse

theorem Keeps.suffix {tokens : List Token} {r : Except ParseError (Parsed limit)}
    {p : Parsed limit} (keeps : Keeps tokens r) (ok : r = .ok p) : p.stop.rest <:+ tokens := by
  rw [ok] at keeps
  exact keeps

mutual

theorem leavesOpen_expression (least : Nat) (c : Cursor limit)
    (failed : plain (expression least c) = .error (.unbalancedParentheses position)) :
    LeavesOpen position c.rest := by
  rw [plain_expression] at failed
  rcases bind_eq_error failed with failed | ⟨first, hfirst, failed⟩
  · exact leavesOpen_signed c failed
  · have shorter := passed_of_plain hfirst
    exact (leavesOpen_operators least first failed).mono ((keeps_signed c).suffix hfirst)
termination_by (c.rest.length, 4)

theorem leavesOpen_operators (least : Nat) (left : Parsed limit)
    (failed : plain (operators least left) = .error (.unbalancedParentheses position)) :
    LeavesOpen position left.stop.rest := by
  rw [plain_operators] at failed
  split at failed
  · rename_i op opening rest hrest
    split at failed
    · contradiction
    · obtain ⟨inner, -, within, entered, failed⟩ := Cursor.exists_of_enter_bind hrest failed
      rcases bind_eq_error failed with failed | ⟨right, hright, failed⟩
      · exact (leavesOpen_expression _ inner failed).mono within
      · have shorter := Nat.lt_trans (passed_of_plain hright) entered
        obtain ⟨height, failed⟩ := exists_of_growHeight_bind failed
        have suffix := ((keeps_expression _ inner).suffix hright).trans within
        exact (leavesOpen_operators least _ failed).mono suffix
  · contradiction
termination_by (left.stop.rest.length, 0)

theorem leavesOpen_signed (c : Cursor limit)
    (failed : plain (signed c) = .error (.unbalancedParentheses position)) :
    LeavesOpen position c.rest := by
  rw [plain_signed] at failed
  split at failed
  · rename_i opening rest hrest
    obtain ⟨inner, -, within, entered, failed⟩ := Cursor.exists_of_enter_bind hrest failed
    rcases bind_eq_error failed with failed | ⟨body, -, failed⟩
    · exact (leavesOpen_signed inner failed).mono within
    · obtain ⟨height, failed⟩ := exists_of_growHeight_bind failed
      contradiction
  · rename_i opening rest hrest
    obtain ⟨inner, -, within, entered, failed⟩ := Cursor.exists_of_enter_bind hrest failed
    rcases bind_eq_error failed with failed | ⟨body, -, failed⟩
    · exact (leavesOpen_signed inner failed).mono within
    · contradiction
  · exact leavesOpen_application c failed
termination_by (c.rest.length, 3)

theorem leavesOpen_application (c : Cursor limit)
    (failed : plain (application c) = .error (.unbalancedParentheses position)) :
    LeavesOpen position c.rest := by
  rw [plain_application] at failed
  split at failed
  · rename_i f opening rest hrest
    obtain ⟨inner, -, within, entered, failed⟩ := Cursor.exists_of_enter_bind hrest failed
    split at failed
    · rcases bind_eq_error failed with failed | ⟨argument, -, failed⟩
      · exact (leavesOpen_application inner failed).mono within
      · obtain ⟨height, failed⟩ := exists_of_growHeight_bind failed
        contradiction
    · cases failed
  · exact leavesOpen_primary c failed
termination_by (c.rest.length, 2)

theorem leavesOpen_primary (c : Cursor limit)
    (failed : plain (primary c) = .error (.unbalancedParentheses position)) :
    LeavesOpen position c.rest := by
  rw [plain_primary] at failed
  split at failed
  · cases failed
  · cases failed
  · split at failed <;> cases failed
  · rename_i opening rest hrest
    obtain ⟨inner, hinner, within, entered, failed⟩ := Cursor.exists_of_enter_bind hrest failed
    rcases bind_eq_error failed with failed | ⟨body, hbody, failed⟩
    · exact (leavesOpen_expression 0 inner failed).mono within
    · split at failed
      · contradiction
      -- The group has been read to the end of the tokens, all of which it takes.
      · rename_i hstop
        cases failed
        obtain ⟨depth, derives, -⟩ := (reads_expression 0 inner hbody).1.derives
        obtain ⟨taken, heq, balances⟩ := derives.exists_balances
        rw [Cursor.kinds, Cursor.kinds, hinner, hstop, List.map_nil, List.append_nil] at heq
        exact ⟨[], rest, hrest, heq ▸ balances⟩
      · cases failed
  · cases failed
termination_by (c.rest.length, 1)

end

end Parse

/-- A parenthesis that is reported has no partner. -/
theorem Term.exists_unpartnered_of_ofTokens {tokens : List Token}
    (failed : ofTokens tokens = .error (.unbalancedParentheses position)) :
    ∃ before token after, tokens = before ++ token :: after ∧ token.position = position ∧
      Unpartnered (before.map (·.kind)) (after.map (·.kind)) token.kind := by
  rw [ofTokens_eq] at failed
  split at failed
  · cases failed
  · rcases bind_eq_error failed with failed | ⟨p, hp, failed⟩
    · obtain ⟨before, after, heq, balances⟩ := Parse.leavesOpen_expression 0 _ failed
      exact ⟨before, ⟨.left, position⟩, after, heq, rfl, .ofLeft balances⟩
    · split at failed
      · cases failed
      · rename_i closing after hstop
        cases failed
        obtain ⟨before, heq⟩ := (Parse.keeps_expression 0 _).suffix hp
        obtain ⟨depth, derives, -⟩ := (Parse.reads_expression 0 _ hp).1.derives
        obtain ⟨taken, htaken, balances⟩ := derives.exists_balances
        have same : before.map (·.kind) = taken := by
          refine List.append_cancel_right (Eq.trans ?_ htaken)
          rw [Cursor.kinds, Cursor.kinds, ← List.map_append, heq]
        rw [hstop] at heq
        exact ⟨before, ⟨.right, position⟩, after, heq.symm, rfl, .ofRight (same ▸ balances)⟩
      · cases failed

/-- Where positions are distinct, a position tells its token and what stands around it. -/
theorem Token.eq_of_position_eq {tokens before before' after after' : List Token}
    {token token' : Token}
    (distinct : (tokens.map (·.position)).Nodup) (heq : tokens = before ++ token :: after)
    (heq' : tokens = before' ++ token' :: after') (same : token.position = token'.position) :
    before = before' ∧ token = token' ∧ after = after' := by
  have length : before.length = before'.length := by
    refine (List.getElem?_inj ?_ distinct).mp ?_
    · simp [heq]
    · calc (tokens.map (·.position))[before.length]?
          = some token.position := by simp [heq]
        _ = (tokens.map (·.position))[before'.length]? := by simp [heq', same]
  obtain ⟨hbefore, hrest⟩ := List.append_inj (heq.symm.trans heq') length
  exact ⟨hbefore, List.cons.inj hrest⟩

/-- A parenthesis that is reported has no partner among the tokens, so that they are not balanced,
and tokens that are read are. -/
theorem Term.ofTokens_reports_unpartnered {tokens : List Token}
    (distinct : (tokens.map (·.position)).Nodup) :
    (∀ position, ofTokens tokens = .error (.unbalancedParentheses position) →
      (∃ token ∈ tokens, token.position = position) ∧
      (∀ before token after, tokens = before ++ token :: after → token.position = position →
        Unpartnered (before.map (·.kind)) (after.map (·.kind)) token.kind) ∧
      ¬ Balances (tokens.map (·.kind))) ∧
    ∀ term names, ofTokens tokens = .ok (term, names) → Balances (tokens.map (·.kind)) := by
  constructor
  · intro position failed
    obtain ⟨before, token, after, rfl, rfl, unpartnered⟩ := exists_unpartnered_of_ofTokens failed
    refine ⟨⟨token, by simp, rfl⟩, ?_, ?_⟩
    · intro before' token' after' heq same
      obtain ⟨rfl, rfl, rfl⟩ := Token.eq_of_position_eq distinct heq rfl same
      exact unpartnered
    · rw [List.map_append, List.map_cons]
      exact unpartnered.not_balances
  · intro term names ok
    obtain ⟨depth, derives, -⟩ := derives_of_ofTokens ok
    obtain ⟨taken, heq, balances⟩ := derives.exists_balances
    rw [heq, List.append_nil]
    exact balances

/-- In `(x + (1)` the first parenthesis is left open, while the second one is closed. -/
theorem Term.ofTokens_reports_unpartnered_left :
    let tokens : List Token := [⟨.left, 0⟩, ⟨.name "x", 1⟩, ⟨.operator .add, 3⟩, ⟨.left, 5⟩,
      ⟨.number 1, 6⟩, ⟨.right, 7⟩]
    (tokens.map (·.position)).Nodup ∧
      ofTokens tokens = .error (.unbalancedParentheses 0) ∧
      Unpartnered [] (tokens.tail.map (·.kind)) .left ∧ ¬ Balances (tokens.map (·.kind)) ∧
      Balances (tokens.tail.map (·.kind)) := by
  intro tokens
  have distinct : (tokens.map (·.position)).Nodup := by decide
  have failed : ofTokens tokens = .error (.unbalancedParentheses 0) := by cbv
  obtain ⟨-, unpartnered, unbalanced⟩ := (ofTokens_reports_unpartnered distinct).1 0 failed
  exact ⟨distinct, failed, unpartnered [] ⟨.left, 0⟩ tokens.tail rfl rfl, unbalanced, by decide⟩

end Formula
