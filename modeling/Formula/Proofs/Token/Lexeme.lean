import Formula.Proofs.Token.Taken

/-!
The pieces of a text that its tokens stand for. A token takes a piece without blanks that begins
where the token is, and it needs no more than this piece: alone it is read as the same token.
-/

set_option autoImplicit false

namespace Formula

theorem byteLength_append (cs ds : List Char) :
    byteLength (cs ++ ds) = byteLength cs + byteLength ds := by
  induction cs with
  | nil => exact (Nat.zero_add _).symm
  | cons c rest ih => rw [List.cons_append, byteLength, byteLength, ih, Nat.add_assoc]

theorem utf8ByteSize_ofList (cs : List Char) : (String.ofList cs).utf8ByteSize = byteLength cs := by
  induction cs with
  | nil => rfl
  | cons c rest ih =>
      rw [← List.singleton_append, String.ofList_append, String.utf8ByteSize_append, ih,
        ← String.singleton_eq_ofList, String.utf8ByteSize_singleton]
      rfl

theorem byteLength_toList (text : String) : byteLength text.toList = text.utf8ByteSize := by
  rw [← utf8ByteSize_ofList, String.ofList_toList]

theorem byteLength_pos {cs : List Char} (some : cs ≠ []) : 0 < byteLength cs := by
  obtain ⟨c, rest, rfl⟩ := List.exists_cons_of_ne_nil some
  exact Nat.lt_of_lt_of_le c.utf8Size_pos (Nat.le_add_right _ _)

/-- That a text is one token: no blank is in it, and it is read as this token alone. -/
structure IsLexeme (piece : String) (kind : TokenKind) : Prop where
  some : piece ≠ ""
  solid : ∀ c ∈ piece.toList, Text.isBlank c = false
  alone : scan piece = .ok [⟨kind, 0⟩]
  spelled : ∀ text, kind = .name text → piece = text

/-- The bytes of a text at which a token starts. Behind the last token this is the end. -/
def startOf (stop : Nat) (tokens : List Token) (i : Nat) : Nat :=
  (tokens[i]?.map (·.position)).getD stop

theorem ofList_cons_ne_empty (c : Char) (tail : List Char) : String.ofList (c :: tail) ≠ "" :=
  String.ofList_eq_empty_iff.not.mpr (List.cons_ne_nil c tail)

theorem ScansTo.isLexeme {c : Char} {rest tail : List Char} {kind : TokenKind}
    (scans : ScansTo c rest kind tail) (notBlank : Text.isBlank c = false) :
    IsLexeme (String.ofList (c :: tail)) kind where
  some := ofList_cons_ne_empty c tail
  solid := by
    rw [String.toList_ofList, List.forall_mem_cons]
    exact ⟨notBlank, fun x => scans.isBlank_of_mem⟩
  alone := by
    rw [scan, if_neg (ofList_cons_ne_empty c tail), String.toList_ofList, scanFrom_token notBlank,
      scans.alone.scanToken]
    simp only [Except.bind, List.drop_length, scanFrom_nil]
    rfl
  spelled text isName := by
    cases scans with
    | word starts => exact (TokenKind.ofWord_eq_name_iff.mp isName).1
    | operator | left | right | number => contradiction

/-- That a text is blanks and pieces in turn, one piece for each token. -/
inductive Splits : Nat → List Char → List Token → Prop
  | nil {position} : Splits position [] []
  | blank {position c rest tokens} : Text.isBlank c = true →
      Splits (position + c.utf8Size) rest tokens → Splits position (c :: rest) tokens
  | token {position kind piece rest tokens} : IsLexeme (String.ofList piece) kind →
      Splits (position + byteLength piece) rest tokens →
      Splits position (piece ++ rest) (⟨kind, position⟩ :: tokens)

theorem splits_of_scanFrom {position : Nat} {cs : List Char} {tokens : List Token}
    (ok : scanFrom position cs = .ok tokens) : Splits position cs tokens := by
  fun_induction scanFrom position cs generalizing tokens with
  | case1 position =>
      cases ok
      exact .nil
  | case2 position c rest blank ih => exact .blank blank (ih ok)
  | case3 => contradiction
  | case4 => contradiction
  | case5 position c rest notBlank kind tail first after hafter ih =>
      cases ok
      -- The rest goes on where the token stops, and what it took is the token alone.
      have scans := scansTo_of_scanToken first
      have lexeme := scans.isLexeme (Bool.eq_false_iff.mpr notBlank)
      have splits := Splits.token lexeme (ih hafter)
      rwa [List.cons_append, scans.append_drop] at splits

namespace Splits

variable {position : Nat} {cs : List Char} {tokens : List Token}

theorem le_position (splits : Splits position cs tokens) {token : Token} (member : token ∈ tokens) :
    position ≤ token.position := by
  induction splits with
  | nil => contradiction
  | blank _ _ ih => exact Nat.le_trans (Nat.le_add_right _ _) (ih member)
  | token _ _ ih =>
      rcases List.mem_cons.mp member with rfl | member
      · exact Nat.le_refl _
      · exact Nat.le_trans (Nat.le_add_right _ _) (ih member)

theorem sorted (splits : Splits position cs tokens) :
    (tokens.map (·.position)).Pairwise (· < ·) := by
  induction splits with
  | nil => exact .nil
  | blank _ _ ih => exact ih
  | @token position kind piece rest tokens lexeme splits ih =>
      refine List.pairwise_cons.mpr ⟨?_, ih⟩
      intro later member
      obtain ⟨token, hmember, rfl⟩ := List.mem_map.mp member
      have some : piece ≠ [] := by
        rintro rfl
        exact lexeme.some rfl
      exact Nat.lt_of_lt_of_le (Nat.lt_add_of_pos_right (byteLength_pos some))
        (splits.le_position hmember)

/-- Nothing but blanks stands before the first token. -/
theorem lead (splits : Splits position cs tokens) : ∃ gap rest, cs = gap ++ rest ∧
    (∀ c ∈ gap, Text.isBlank c = true) ∧
    position + byteLength gap = startOf (position + byteLength cs) tokens 0 := by
  induction splits with
  | nil => exact ⟨[], [], rfl, nofun, rfl⟩
  | @blank position c rest tokens blank _ ih =>
      obtain ⟨gap, after, rfl, blanks, start⟩ := ih
      refine ⟨c :: gap, after, rfl, List.forall_mem_cons.mpr ⟨blank, blanks⟩, ?_⟩
      rw [byteLength, byteLength, ← Nat.add_assoc, ← Nat.add_assoc, start]
  | token => exact ⟨[], _, rfl, nofun, rfl⟩

/-- From one token to the next there are its piece and blanks. -/
theorem piece (splits : Splits position cs tokens) {i : Nat} {token : Token}
    (found : tokens[i]? = some token) : ∃ before piece gap after,
      cs = before ++ (piece ++ (gap ++ after)) ∧ position + byteLength before = token.position ∧
      token.position + byteLength piece + byteLength gap =
        startOf (position + byteLength cs) tokens (i + 1) ∧
      IsLexeme (String.ofList piece) token.kind ∧ ∀ c ∈ gap, Text.isBlank c = true := by
  induction splits generalizing i with
  | nil => contradiction
  | @blank position c rest tokens blank _ ih =>
      obtain ⟨before, piece, gap, after, rfl, start, stop, holds⟩ := ih found
      refine ⟨c :: before, piece, gap, after, rfl, ?_, ?_, holds⟩
      · rw [byteLength, ← Nat.add_assoc, start]
      · rw [byteLength, ← Nat.add_assoc, stop]
  | @token position kind piece rest tokens lexeme splits ih =>
      have bytes : position + byteLength (piece ++ rest) =
          position + byteLength piece + byteLength rest := by
        rw [byteLength_append, Nat.add_assoc]
      rw [bytes]
      cases i with
      | zero =>
          obtain rfl := Option.some.inj found
          obtain ⟨gap, after, rfl, blanks, stop⟩ := splits.lead
          exact ⟨[], piece, gap, after, rfl, rfl, stop, lexeme, blanks⟩
      | succ i =>
          obtain ⟨before, next, gap, after, rfl, start, stop, holds⟩ := ih found
          refine ⟨piece ++ before, next, gap, after, by rw [List.append_assoc], ?_, stop, holds⟩
          rw [byteLength_append, ← Nat.add_assoc, start]

end Splits

/-- That a token takes the text from its own byte up to another one, but for blanks at the end. -/
def Token.Covers (token : Token) (source : String) (stop : Nat) : Prop :=
  ∃ before piece gap after : String, source = before ++ piece ++ gap ++ after ∧
    before.utf8ByteSize = token.position ∧ (before ++ piece ++ gap).utf8ByteSize = stop ∧
    IsLexeme piece token.kind ∧ ∀ c ∈ gap.toList, Text.isBlank c = true

theorem Splits.covers {source : String} {tokens : List Token}
    (splits : Splits 0 source.toList tokens) {i : Nat} {token : Token}
    (found : tokens[i]? = some token) :
    token.Covers source (startOf source.utf8ByteSize tokens (i + 1)) := by
  obtain ⟨before, piece, gap, after, heq, start, stop, lexeme, blanks⟩ := splits.piece found
  refine ⟨.ofList before, .ofList piece, .ofList gap, .ofList after, ?_, ?_, ?_, lexeme, ?_⟩
  · rw [← String.ofList_toList (s := source), heq, String.ofList_append, String.ofList_append,
      String.ofList_append, String.append_assoc, String.append_assoc]
  · rw [utf8ByteSize_ofList, ← start, Nat.zero_add]
  · rw [Nat.zero_add, byteLength_toList] at stop
    rw [String.utf8ByteSize_append, String.utf8ByteSize_append, utf8ByteSize_ofList,
      utf8ByteSize_ofList, utf8ByteSize_ofList, ← stop, ← start, Nat.zero_add]
  · rwa [String.toList_ofList]

/-- That a text goes on with another one from a byte on. -/
def StandsAt (source : String) (position : Nat) (text : String) : Prop :=
  ∃ before after, source = before ++ text ++ after ∧ before.utf8ByteSize = position

/-- Where a token is, its piece of the text stands. -/
theorem Splits.standsAt {source : String} {tokens : List Token}
    (splits : Splits 0 source.toList tokens) {token : Token} (member : token ∈ tokens) :
    ∃ piece, IsLexeme piece token.kind ∧ StandsAt source token.position piece := by
  obtain ⟨i, found⟩ := List.mem_iff_getElem?.mp member
  obtain ⟨before, piece, gap, after, heq, start, -, lexeme, -⟩ := splits.covers found
  exact ⟨piece, lexeme, before, gap ++ after, by rw [heq, String.append_assoc], start⟩

theorem splits_of_scan {source : String} {tokens : List Token} (ok : scan source = .ok tokens) :
    Splits 0 source.toList tokens :=
  splits_of_scanFrom (scanFrom_of_scan ok)

/-- Nothing of a text is lost: it is blanks, and for each token a piece that is this token whatever
stands around it. -/
theorem scan_covers {source : String} {tokens : List Token} (ok : scan source = .ok tokens) :
    (tokens.map (·.position)).Pairwise (· < ·) ∧
      (∃ lead rest : String, source = lead ++ rest ∧
        lead.utf8ByteSize = startOf source.utf8ByteSize tokens 0 ∧
        ∀ c ∈ lead.toList, Text.isBlank c = true) ∧
      ∀ (i : Nat) (token : Token), tokens[i]? = some token →
        token.Covers source (startOf source.utf8ByteSize tokens (i + 1)) := by
  have splits := splits_of_scan ok
  refine ⟨splits.sorted, ?_, fun i token => splits.covers⟩
  obtain ⟨gap, rest, heq, blanks, start⟩ := splits.lead
  refine ⟨.ofList gap, .ofList rest, ?_, ?_, by rwa [String.toList_ofList]⟩
  · rw [← String.ofList_append, ← heq, String.ofList_toList]
  · rw [Nat.zero_add, Nat.zero_add, byteLength_toList] at start
    rw [utf8ByteSize_ofList, start]

/-- A name of two bytes, and numbers that touch: the exponent of the first one ends at the point of
the second, and a name follows the exponent of the third. -/
theorem scan_covers_touching :
    let source := " Δ*2e5.5 +1e-3x"
    let tokens : List Token :=
      [⟨.name "Δ", 1⟩, ⟨.operator .mul, 3⟩, ⟨.number 200000, 4⟩, ⟨.number 0.5, 7⟩,
        ⟨.operator .add, 10⟩, ⟨.number 0.001, 11⟩, ⟨.name "x", 15⟩]
    scan source = .ok tokens ∧ (tokens.map (·.position)).Pairwise (· < ·) ∧
      (⟨.number 200000, 4⟩ : Token).Covers source 7 ∧ (⟨.number 0.5, 7⟩ : Token).Covers source 10 ∧
      (⟨.name "x", 15⟩ : Token).Covers source 16 := by
  intro source tokens
  have ok : scan source = .ok tokens := by decide +kernel
  obtain ⟨sorted, -, covers⟩ := scan_covers ok
  exact ⟨ok, sorted, covers 2 _ rfl, covers 3 _ rfl, covers 6 _ rfl⟩

end Formula
