import Formula.Proofs.Term.Soundness

/-!
The readers find what the grammar derives, or report that it is nested too deep. A reader of
operators does not stop behind an operand, so that the induction says of it how it goes on: it
takes the operand for its left one and looks at the next operator.
-/

set_option autoImplicit false

namespace Formula

variable {limit : Nat}

theorem Cursor.kinds_eq_cons {c : Cursor limit} {kind : TokenKind} {input : List TokenKind}
    (hkinds : c.kinds = kind :: input) :
    ∃ position rest, c.rest = ⟨kind, position⟩ :: rest ∧ rest.map (·.kind) = input := by
  obtain ⟨⟨_, position⟩, rest, hrest, rfl, hinput⟩ := List.map_eq_cons_iff.mp hkinds
  exact ⟨position, rest, hrest, hinput⟩

/-- What a reader answers where a symbol with the tree `term` stands before `rest`, and `level`
groups are open. -/
inductive Answers (level : Nat) (rest : List TokenKind) (term : Term) (depth : Nat) :
    Except ParseError (Parsed limit) → Prop
  | found {p} : p.term = term → p.height = term.height → p.stop.kinds = rest →
      p.stop.level = level → level + depth ≤ limit → Answers level rest term depth (.ok p)
  | tooDeep {position} : limit < level + depth ∨ limit < term.height →
      Answers level rest term depth (.error (.nestingTooDeep limit position))

namespace Answers

variable {rest : List TokenKind} {term term' : Term} {level depth depth' : Nat}

/-- Whether a node is added to what has been found depends on its height. -/
theorem grow {height position : Nat} {stop : Cursor limit} (hheight : term.height = height + 1)
    (hkinds : stop.kinds = rest) (hlevel : stop.level = level) (hdepth : level + depth ≤ limit) :
    Answers level rest term depth
      ((growHeight limit height position).bind fun height => .ok ⟨term, height, stop⟩) := by
  unfold growHeight
  split
  · exact .found rfl hheight.symm hkinds hlevel hdepth
  · rename_i high
    refine .tooDeep (.inr ?_)
    rw [hheight]
    exact Nat.not_le.mp high

/-- What a reader answers in a group, and then what is made of its answer. -/
theorem enclose {c : Cursor limit} {position : Nat} {tokens : List Token}
    (before : List TokenKind)
    {reader : Cursor limit → Except ParseError (Parsed limit)}
    {finish : Parsed limit → Except ParseError (Parsed limit)}
    (hheight : term.height ≤ term'.height)
    (hdepth : depth + 1 ≤ depth')
    (read : ∀ inner : Cursor limit, inner.rest = tokens →
      Answers inner.level before term depth (reader inner))
    (finished : ∀ body : Parsed limit, body.term = term → body.height = term.height →
      body.stop.kinds = before → body.stop.level - 1 = c.level → c.level + (depth + 1) ≤ limit →
      Answers c.level rest term' depth' (finish body)) :
    Answers c.level rest term' depth'
      ((c.enter tokens position).bind fun inner => (reader inner).bind finish) := by
  by_cases shallow : c.level + 1 ≤ limit
  · rw [Cursor.enter_of_le shallow]
    have answer := read ⟨tokens, c.level + 1, c.names, shallow⟩ rfl
    change Answers c.level rest term' depth'
      ((reader ⟨tokens, c.level + 1, c.names, shallow⟩).bind finish)
    generalize reader ⟨tokens, c.level + 1, c.names, shallow⟩ = r at answer ⊢
    cases answer with
    | found hterm hbody hkinds hlevel hdepth =>
        refine finished _ hterm hbody hkinds ?_ ?_
        · rw [hlevel]
          rfl
        · change c.level + 1 + depth ≤ limit at hdepth
          omega
    | tooDeep deep =>
        refine .tooDeep (deep.imp (fun deep => ?_) (fun high => Nat.lt_of_lt_of_le high hheight))
        change limit < c.level + 1 + depth at deep
        omega
  · rw [Cursor.enter_of_lt (Nat.not_le.mp shallow)]
    refine .tooDeep (.inl ?_)
    omega

/-- What a reader answers where it makes a node of what it has found in a group. -/
theorem above {c : Cursor limit} {position : Nat} {tokens : List Token}
    {reader : Cursor limit → Except ParseError (Parsed limit)} {node : Term → Term}
    (hheight : (node term).height = term.height + 1)
    (read : ∀ inner : Cursor limit, inner.rest = tokens →
      Answers inner.level rest term depth (reader inner)) :
    Answers c.level rest (node term) (depth + 1)
      ((c.enter tokens position).bind fun inner => (reader inner).bind fun body =>
        (growHeight limit body.height position).bind fun height =>
          .ok ⟨node body.term, height, body.stop.closeGroup⟩) := by
  refine .enclose rest (hheight ▸ Nat.le_succ _) (Nat.le_refl _) read ?_
  intro body hbody hbodyHeight hbodyStop hbodyLevel hbodyDepth
  rw [hbody, hbodyHeight]
  exact .grow hheight hbodyStop hbodyLevel hbodyDepth

end Answers

namespace Parse

/-- That reading operators of at least some precedence goes on behind an operand. -/
def Continues (limit k : Nat) (input rest : List TokenKind) (term : Term) (depth : Nat) : Prop :=
  Follows k rest → ∀ least ≤ k, ∀ c : Cursor limit, c.kinds = input →
    ∃ r, Answers c.level rest term depth r ∧
      plain (expression least c) = r.bind fun left => plain (operators least left)

/-- That the reader of a symbol answers. -/
def Reached (limit : Nat) (input rest : List TokenKind) (term : Term) (depth : Nat) : Symbol → Prop
  | .primary =>
      ∀ c : Cursor limit, c.kinds = input → Answers c.level rest term depth (plain (primary c))
  | .application =>
      ∀ c : Cursor limit, c.kinds = input → Answers c.level rest term depth (plain (application c))
  | .unary =>
      ∀ c : Cursor limit, c.kinds = input → Answers c.level rest term depth (plain (signed c))
  | .power => Continues limit 3 input rest term depth
  | .product => Continues limit 2 input rest term depth
  | .sum => Continues limit 1 input rest term depth

variable {k dl dr : Nat} {input middle rest : List TokenKind} {term l r : Term} {depth : Nat}

theorem Continues.loosen {m n : Nat} (hle : m ≤ n)
    (continues : Continues limit n input rest term depth) :
    Continues limit m input rest term depth := by
  intro follows least hleast
  exact continues (follows.mono hle) least (Nat.le_trans hleast hle)

theorem Continues.of_unary (reached : Reached limit input rest term depth .unary) :
    Continues limit k input rest term depth := by
  intro _ least _ c hkinds
  exact ⟨plain (signed c), reached c hkinds, plain_expression least c⟩

/-- Where no operator of the given precedence follows, the operand is all that is read. -/
theorem plain_operators_of_stops {least : Nat} {left : Parsed limit}
    (stops : Stops least left.stop.kinds) : plain (operators least left) = .ok left := by
  rw [plain_operators]
  split
  · rename_i op position rest hrest
    refine if_pos (stops op (rest.map (·.kind)) ?_)
    rw [Cursor.kinds, hrest]
    rfl
  · rfl

/-- Where the operators end, the answer about the operand is that about the whole. -/
theorem Continues.answers {least : Nat} (continues : Continues limit k input rest term depth)
    (hleast : least ≤ k) (stops : Stops least rest) (c : Cursor limit) (hkinds : c.kinds = input) :
    Answers c.level rest term depth (plain (expression least c)) := by
  obtain ⟨answer, found, heq⟩ := continues (stops.follows.mono hleast) least hleast c hkinds
  rw [heq]
  cases found with
  | tooDeep deep => exact .tooDeep deep
  | found hterm hheight hstop hlevel hdepth =>
      rename_i p
      change Answers c.level rest term depth (plain (operators least p))
      rw [plain_operators_of_stops (hstop ▸ stops)]
      exact .found hterm hheight hstop hlevel hdepth

theorem Continues.binary (op : Operator)
    (left : Continues limit op.leftPrecedence input (.operator op :: middle) l dl)
    (right : Continues limit op.rightPrecedence middle rest r dr) :
    Continues limit op.precedence input rest (.binary op l r) (max dl (dr + 1)) := by
  intro follows least hleast c hkinds
  have hprecedence : op.precedence ≤ op.leftPrecedence := by cases op <;> decide
  have hl : l.height ≤ (Term.binary op l r).height := Nat.le_succ_of_le (Nat.le_max_left _ _)
  have hr : r.height ≤ (Term.binary op l r).height := Nat.le_succ_of_le (Nat.le_max_right _ _)
  obtain ⟨answer, found, hleft⟩ :=
    left (.cons op middle) least (Nat.le_trans hleast hprecedence) c hkinds
  rw [hleft]
  cases found with
  | tooDeep deep =>
      rename_i position
      refine ⟨.error (.nestingTooDeep limit position), .tooDeep ?_, rfl⟩
      exact deep.imp (fun deep => by omega) (fun high => Nat.lt_of_lt_of_le high hl)
  | found hterm hheight hstop hlevel hdepth =>
      rename_i p
      obtain ⟨position, tokens, hrest, hmiddle⟩ := Cursor.kinds_eq_cons hstop
      refine ⟨(p.stop.enter tokens position).bind fun inner =>
        (plain (expression op.rightPrecedence inner)).bind fun right =>
        (growHeight limit (max p.height right.height) position).bind fun height =>
        .ok ⟨.binary op p.term right.term, height, right.stop.closeGroup⟩, ?_, ?_⟩
      · rw [← hlevel]
        refine .enclose rest hr (Nat.le_max_right _ _) ?_ ?_
        · intro inner hinner
          refine right.answers (Nat.le_refl _) (stops_rightPrecedence_iff.mpr follows) inner ?_
          rw [Cursor.kinds, hinner, hmiddle]
        · intro body hbody hbodyHeight hbodyStop hbodyLevel hbodyDepth
          rw [hterm, hbody, hheight, hbodyHeight]
          exact .grow rfl hbodyStop hbodyLevel (by omega)
      · change plain (operators least p) = _
        rw [plain_operators]
        simp only [hrest, if_neg (Nat.not_lt.mpr hleast), bind_assoc]
        rfl

namespace Reached

theorem number {value : Float} :
    Reached limit (.number value :: rest) rest (.number value) 0 .primary := by
  intro c hkinds
  obtain ⟨position, tokens, hrest, hinput⟩ := Cursor.kinds_eq_cons hkinds
  rw [plain_primary, hrest]
  exact .found rfl rfl hinput rfl c.level_le

theorem name {text : String} (notCalled : rest.head? ≠ some .left) :
    Reached limit (.name text :: rest) rest (.var text) 0 .primary := by
  intro c hkinds
  obtain ⟨position, tokens, hrest, rfl⟩ := Cursor.kinds_eq_cons hkinds
  have free : ¬ tokens.head?.any (·.kind = .left) := by
    cases tokens with
    | nil => nofun
    | cons token after => simpa using notCalled
  simp only [plain_primary, hrest, if_neg free]
  exact .found rfl rfl rfl rfl c.level_le

theorem group (reached : Reached limit input (.right :: rest) term depth .sum) :
    Reached limit (.left :: input) rest term (depth + 1) .primary := by
  intro c hkinds
  obtain ⟨position, tokens, hrest, hinput⟩ := Cursor.kinds_eq_cons hkinds
  rw [plain_primary, hrest]
  refine .enclose (.right :: rest) (Nat.le_refl _) (Nat.le_refl _) ?_ ?_
  · intro inner hinner
    have hkinds : inner.kinds = input := by rw [Cursor.kinds, hinner, hinput]
    exact Continues.answers reached (Nat.zero_le 1) nofun inner hkinds
  · intro body hbody hbodyHeight hbodyStop hbodyLevel hbodyDepth
    obtain ⟨close, after, hafter, hkinds⟩ := Cursor.kinds_eq_cons hbodyStop
    rw [hafter]
    exact .found hbody hbodyHeight hkinds hbodyLevel hbodyDepth

theorem ofPrimary (primary : Derives .primary input rest term depth)
    (reached : Reached limit input rest term depth .primary) :
    Reached limit input rest term depth .application := by
  intro c hkinds
  obtain ⟨kind, after, rfl, -, notFunction⟩ := primary.head_of_primary
  obtain ⟨position, tokens, hrest, hinput⟩ := Cursor.kinds_eq_cons hkinds
  rw [plain_application]
  split
  · rename_i f _ _ heq
    rw [hrest] at heq
    cases heq
    exact absurd rfl (notFunction f)
  · exact reached c hkinds

theorem call {f : UnaryFn} (operand : Derives .application input rest term depth)
    (reached : Reached limit input rest term depth .application) :
    Reached limit (.function f :: input) rest (.call f term) (depth + 1) .application := by
  intro c hkinds
  obtain ⟨position, tokens, hrest, rfl⟩ := Cursor.kinds_eq_cons hkinds
  have starts : tokens.head?.any (·.kind.startsOperand) := by
    obtain ⟨kind, after, heq, starts⟩ := operand.head_of_application
    obtain ⟨token, tail, rfl, rfl, -⟩ := List.map_eq_cons_iff.mp heq
    exact starts
  rw [plain_application]
  simp only [hrest, if_pos starts]
  refine .above rfl ?_
  intro inner hinner
  apply reached inner
  rw [Cursor.kinds, hinner]

theorem ofApplication (application : Derives .application input rest term depth)
    (reached : Reached limit input rest term depth .application) :
    Reached limit input rest term depth .unary := by
  intro c hkinds
  obtain ⟨kind, after, rfl, starts⟩ := application.head_of_application
  obtain ⟨position, tokens, hrest, hinput⟩ := Cursor.kinds_eq_cons hkinds
  rw [plain_signed]
  split
  · rename_i heq
    rw [hrest] at heq
    cases heq
    contradiction
  · rename_i heq
    rw [hrest] at heq
    cases heq
    contradiction
  · exact reached c hkinds

theorem minus (reached : Reached limit input rest term depth .unary) :
    Reached limit (.operator .sub :: input) rest (.neg term) (depth + 1) .unary := by
  intro c hkinds
  obtain ⟨position, tokens, hrest, rfl⟩ := Cursor.kinds_eq_cons hkinds
  rw [plain_signed]
  simp only [hrest]
  refine .above rfl ?_
  intro inner hinner
  apply reached inner
  rw [Cursor.kinds, hinner]

/-- A plus opens a group as a minus does, but leaves no node. -/
theorem plus (reached : Reached limit input rest term depth .unary) :
    Reached limit (.operator .add :: input) rest term (depth + 1) .unary := by
  intro c hkinds
  obtain ⟨position, tokens, hrest, rfl⟩ := Cursor.kinds_eq_cons hkinds
  rw [plain_signed]
  simp only [hrest]
  refine .enclose rest (Nat.le_refl _) (Nat.le_refl _) ?_ ?_
  · intro inner hinner
    apply reached inner
    rw [Cursor.kinds, hinner]
  · intro body hbody hbodyHeight hbodyStop hbodyLevel hbodyDepth
    exact .found hbody hbodyHeight hbodyStop hbodyLevel hbodyDepth

end Reached

theorem reached_of_derives {symbol : Symbol} (derives : Derives symbol input rest term depth) :
    Reached limit input rest term depth symbol := by
  induction derives with
  | number => exact .number
  | name notCalled => exact .name notCalled
  | group _ ih => exact .group ih
  | ofPrimary primary ih => exact .ofPrimary primary ih
  | call operand ih => exact .call operand ih
  | ofApplication application ih => exact .ofApplication application ih
  | minus _ ih => exact .minus ih
  | plus _ ih => exact .plus ih
  | ofUnary _ ih => exact Continues.of_unary ih
  | power _ _ ihleft ihright => exact Continues.binary .pow (.of_unary ihleft) ihright
  | ofPower _ ih => exact Continues.loosen (by decide) ih
  | product hop _ _ ihleft ihright =>
      rcases hop with rfl | rfl
      · exact Continues.binary .mul ihleft ihright
      · exact Continues.binary .div ihleft ihright
  | ofProduct _ ih => exact Continues.loosen (by decide) ih
  | sum hop _ _ ihleft ihright =>
      rcases hop with rfl | rfl
      · exact Continues.binary .add ihleft ihright
      · exact Continues.binary .sub ihleft ihright

end Parse

/-- A row of tokens has one tree. The reader finds it if the limit leaves it the room. -/
theorem Derives.unique {input : List TokenKind} {term term' : Term} {depth depth' : Nat}
    (derives : Derives .sum input [] term depth) (derives' : Derives .sum input [] term' depth') :
    term = term' := by
  let limit := max (max depth depth') (max term.height term'.height)
  let c := Cursor.start limit (input.map fun kind => ⟨kind, 0⟩)
  have hkinds : c.kinds = input := by
    simp [c, Cursor.kinds, Cursor.start, Function.comp_def]
  have found := (Parse.reached_of_derives derives).answers (Nat.zero_le 1) nofun c hkinds
  have found' := (Parse.reached_of_derives derives').answers (Nat.zero_le 1) nofun c hkinds
  generalize Parse.plain (Parse.expression 0 c) = r at found found'
  cases found with
  | tooDeep deep =>
      change limit < 0 + depth ∨ limit < term.height at deep
      omega
  | found hterm =>
      cases found' with
      | found hterm' => exact hterm.symm.trans hterm'

theorem Term.ofTokens_eq (tokens : List Token) :
    ofTokens tokens =
      if tokens.isEmpty then .error .emptyInput
      else
        (Parse.plain (Parse.expression 0 (.start maxNesting tokens))).bind fun p =>
        match p.stop.rest with
        | [] => .ok (p.term, p.stop.names)
        | ⟨.right, position⟩ :: _ => .error (.unbalancedParentheses position)
        | token :: _ => .error (.trailingTokens token.kind.text token.position) := by
  unfold ofTokens
  split
  · rfl
  · cases Parse.expression 0 (.start maxNesting tokens) <;> rfl

/-- What has been read as a whole formula is a sum behind which no token is left. -/
theorem Term.exists_of_ofTokens_eq_ok {tokens : List Token} {term : Term} {names : Names}
    (ok : ofTokens tokens = .ok (term, names)) :
    ∃ p, Reads .sum (Cursor.start maxNesting tokens) p ∧ p.stop.rest = [] ∧ p.term = term ∧
      p.stop.names = names := by
  rw [ofTokens_eq] at ok
  split at ok
  · contradiction
  · obtain ⟨p, hp, ok⟩ := bind_eq_ok ok
    split at ok
    · rename_i hstop
      cases ok
      exact ⟨p, (Parse.reads_expression 0 _ hp).1, hstop, rfl, rfl⟩
    · contradiction
    · contradiction

theorem Term.derives_of_ofTokens {tokens : List Token} {term : Term} {names : Names}
    (ok : ofTokens tokens = .ok (term, names)) :
    ∃ depth, Derives .sum (tokens.map (·.kind)) [] term depth ∧ term.height ≤ maxNesting ∧
      depth ≤ maxNesting := by
  obtain ⟨p, reads, hstop, rfl, -⟩ := exists_of_ofTokens_eq_ok ok
  obtain ⟨depth, derives, shallow⟩ := reads.derives
  refine ⟨depth, ?_, ?_, ?_⟩
  · rw [Cursor.kinds, Cursor.kinds, hstop] at derives
    exact derives
  · rw [← reads.height_eq]
    exact reads.height_le
  · change 0 + depth ≤ maxNesting at shallow
    omega

/-- A formula of the grammar is read exactly if neither its tree nor the groups in it are nested too
deep. -/
theorem Term.ofTokens_answers {tokens : List Token} {term : Term} {depth : Nat}
    (derives : Derives .sum (tokens.map (·.kind)) [] term depth) :
    (∃ names, ofTokens tokens = .ok (term, names)) ∧
        term.height ≤ maxNesting ∧ depth ≤ maxNesting ∨
      (∃ position, ofTokens tokens = .error (.nestingTooDeep maxNesting position)) ∧
        (maxNesting < term.height ∨ maxNesting < depth) := by
  have answer := (Parse.reached_of_derives derives).answers (Nat.zero_le 1) nofun
    (Cursor.start maxNesting tokens) rfl
  have some : ¬ tokens.isEmpty := by
    intro empty
    rw [List.isEmpty_iff.mp empty] at derives
    exact derives.input_ne_nil rfl
  have hread := ofTokens_eq tokens
  rw [if_neg some] at hread
  generalize Parse.plain (Parse.expression 0 (.start maxNesting tokens)) = r at answer hread
  cases answer with
  | tooDeep deep =>
      refine .inr ⟨⟨_, hread⟩, ?_⟩
      change maxNesting < 0 + depth ∨ maxNesting < term.height at deep
      omega
  | @found p hterm hheight hstop hlevel hdepth =>
      have hrest : p.stop.rest = [] := List.map_eq_nil_iff.mp hstop
      simp only [Except.bind, hrest, hterm] at hread
      obtain ⟨-, -, low, -⟩ := derives_of_ofTokens hread
      change 0 + depth ≤ maxNesting at hdepth
      exact .inl ⟨⟨_, hread⟩, low, by omega⟩

theorem Term.ofTokens_of_derives {tokens : List Token} {term : Term} {depth : Nat}
    (derives : Derives .sum (tokens.map (·.kind)) [] term depth) :
    (∃ names, ofTokens tokens = .ok (term, names)) ∨
      (∃ position, ofTokens tokens = .error (.nestingTooDeep maxNesting position)) ∧
        (maxNesting < term.height ∨ maxNesting < depth) :=
  (ofTokens_answers derives).imp_left And.left

/-- The formulas that are read are those of the grammar, with the trees that it gives them, as far
as neither the tree nor the groups in it are nested too deep. -/
theorem Term.ofTokens_reads_grammar (tokens : List Token) :
    (∀ term names, ofTokens tokens = .ok (term, names) →
      ∃ depth, Derives .sum (tokens.map (·.kind)) [] term depth ∧
        term.height ≤ maxNesting ∧ depth ≤ maxNesting) ∧
    (∀ term depth, Derives .sum (tokens.map (·.kind)) [] term depth →
      (∃ names, ofTokens tokens = .ok (term, names)) ∨
      (∃ position, ofTokens tokens = .error (.nestingTooDeep maxNesting position)) ∧
        (maxNesting < term.height ∨ maxNesting < depth)) ∧
    (∀ term term' depth depth', Derives .sum (tokens.map (·.kind)) [] term depth →
      Derives .sum (tokens.map (·.kind)) [] term' depth' → term = term') := by
  refine ⟨?_, ?_, ?_⟩
  · intro term names ok
    exact derives_of_ofTokens ok
  · intro term depth derives
    exact ofTokens_of_derives derives
  · intro term term' depth depth' derives derives'
    exact derives.unique derives'

/-- A sign binds tighter than a power: `-x ^ 2 - sin 3`. -/
theorem Term.ofTokens_reads_signed_power :
    let kinds : List TokenKind := [.operator .sub, .name "x", .operator .pow, .number 2,
      .operator .sub, .function .sin, .number 3]
    let term : Term :=
      .binary .sub (.binary .pow (.neg (.var "x")) (.number 2)) (.call .sin (.number 3))
    Derives .sum kinds [] term 2 ∧
      ∃ names, ofTokens (kinds.map fun kind => ⟨kind, 0⟩) = .ok (term, names) := by
  intro kinds term
  have derives : Derives .sum kinds [] term 2 := by
    have number (value : Float) (rest : List TokenKind) :
        Derives .application (.number value :: rest) rest (.number value) 0 := .ofPrimary .number
    have base : Derives .unary kinds (kinds.drop 2) (.neg (.var "x")) 1 :=
      .minus (.ofApplication (.ofPrimary (.name (by decide))))
    have square := Derives.power base (.ofUnary (.ofApplication (number 2 _)))
    have sine : Derives .unary (kinds.drop 5) [] (.call .sin (.number 3)) 1 :=
      .ofApplication (.call (number 3 []))
    exact .sum (.inr rfl) (.ofProduct (.ofPower square)) (.ofPower (.ofUnary sine))
  refine ⟨derives, ?_⟩
  rcases (ofTokens_reads_grammar (kinds.map fun kind => ⟨kind, 0⟩)).2.1 term 2 derives with
    read | ⟨-, high | deep⟩
  · exact read
  · exact absurd high (by decide)
  · exact absurd deep (by decide)

end Formula
