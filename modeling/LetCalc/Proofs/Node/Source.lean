import LetCalc.Proofs.Decimal.Layout
import LetCalc.Proofs.Node.Shape
import LetCalc.Proofs.Session.Joining

/-!
# Source texts of programs

Every program of the right shape is written as a source text by `Program.source`: its words in
order, each followed by a space, and a semicolon after every statement. What is parsed from that
text is the program itself, so that the trees of source texts are exactly those of the shape
(`Program.exists_parse_iff`).

* `Binary64.isLiteral_iff`: the values of numerals are the finite numbers without a sign.
* `Node.Prints`: a node is derived from its own tokens, whatever follows them. There is one lemma
  for each kind of shape.
-/

namespace LetCalc

open Grammar

/-! ## Writing -/

/-- A token that stands nowhere in particular. -/
def Token.ofWord (kind : Token.Kind) (text : String) : Token := ⟨kind, text, .origin⟩

/-- The kind of the token for an operation. -/
def Operator.kind : Operator → Token.Kind
  | .add => .plus
  | .sub => .minus
  | .mul => .star
  | .div => .slash

namespace Node

/-- The token that starts a declaration. -/
def keyword (isConst : Bool) : Token :=
  if isConst then .ofWord .constKeyword "const" else .ofWord .letKeyword "let"

/-- The tokens of a node. A declaration is written without the semicolon that ends it, and a node
that no source text has is not written at all. -/
def tokens : Node → List Token
  | .number x => [.ofWord (.number x) x.text]
  | .identifier (.scalar (.text (.whole name))) => [.ofWord .identifier name]
  | .binary op left right => left.tokens ++ .ofWord op.kind op.symbol :: right.tokens
  | .assignment target value => target.tokens ++ .ofWord .equals "=" :: value.tokens
  | .declaration (.scalar (.text (.whole name))) isConst .null =>
    [keyword isConst, .ofWord .identifier name]
  | .declaration (.scalar (.text (.whole name))) isConst value =>
    keyword isConst :: .ofWord .identifier name :: .ofWord .equals "=" :: value.tokens
  | _ => []

end Node

/-- The text of tokens, each of them followed by a space. -/
def Token.spaced (ts : List Token) : List Char := ts.flatMap fun t => t.text.toList ++ [' ']

namespace Program

/-- The tokens of a program, with a semicolon after every statement. -/
def tokens (program : Program) : List Token :=
  program.flatMap fun statement => statement.tokens ++ [.ofWord .semicolon ";"]

/-- A source text for a program. -/
def source (program : Program) : String := String.ofList (Token.spaced program.tokens)

end Program

/-! ## Words with spaces between them -/

/-- A word alone is the longest word at the start of its text. -/
theorem LongestAt.self {T : Terminal} {w : List Char} (h : w ∈ T.language) : LongestAt w T w :=
  ⟨List.prefix_rfl, h, fun _ _ hv _ => hv.length_le⟩

/-- A word starts with no blank, so that none is skipped before it. -/
theorem Terminal.takeWhile_isSkipped {T : Terminal} {w : List Char} (h : w ∈ T.language) :
    w.takeWhile Lexer.isSkipped = [] := by
  apply List.takeWhile_eq_nil_iff.2
  intro hw
  simp [T.not_isSkipped_of_mem h _ (List.getElem_mem hw)]

theorem Terminal.dropWhile_isSkipped {T : Terminal} {w : List Char} (h : w ∈ T.language) :
    w.dropWhile Lexer.isSkipped = w := by
  have hsplit := List.takeWhile_append_dropWhile (p := Lexer.isSkipped) (l := w)
  rwa [takeWhile_isSkipped h, List.nil_append] at hsplit

/-- A word spells itself. -/
theorem Lexer.IsWord.spells {t : Token} (h : IsWord t.word) :
    Spells t.text.toList [t.word] := by
  obtain ⟨T, hmem, htags⟩ := h
  have hdrop : t.text.toList.dropWhile isSkipped = t.text.toList := T.dropWhile_isSkipped hmem
  have hspells : Spells t.text.toList [(t.kind, String.ofList t.text.toList)] := by
    have hend : Spells [] [] := .nil rfl
    refine .cons (T := T) ?_ ?_ ?_ hend
    · rw [hdrop]
      exact .self hmem
    · rwa [String.ofList_toList]
    · rw [hdrop, List.append_nil]
  rwa [String.ofList_toList] at hspells

theorem Token.AreWords.spells {ts : List Token} (h : AreWords ts) :
    Lexer.Spells (spaced ts) (ts.map Token.word) := by
  induction ts with
  | nil => exact .nil rfl
  | cons t ts ih =>
    obtain ⟨hword, hts⟩ := areWords_cons.1 h
    exact hword.spells.append (ih hts) (by simp) (by simp [Lexer.isSkipped])

/-! ## Numbers -/

namespace Binary64

/-- A number with a sign is not read from digits alone. -/
theorem eq_finite_of_toBinary64 {d : Decimal} {negative : Bool}
    (h : (d.toBinary64 negative).isFinite) :
    ∃ rank, d.toBinary64 negative = .finite negative rank := by
  revert h
  unfold Decimal.toBinary64 ofUnits
  repeat' split
  · exact fun _ => ⟨_, rfl⟩
  · nofun
  · exact fun _ => ⟨_, rfl⟩
  · exact fun _ => ⟨_, rfl⟩
  · nofun

theorem isLiteral_iff {x : Binary64} : x.IsLiteral ↔ ∃ rank, x = .finite false rank := by
  constructor
  · rintro ⟨hfinite, word, hmem, hread⟩
    obtain ⟨n, hn, hword⟩ := Terminal.mem_number_iff.1 hmem
    rw [← String.ofList_toList (s := word), hword, Lenient.number?_text hn] at hread
    obtain rfl := Option.some.inj hread
    exact eq_finite_of_toBinary64 hfinite
  · rintro ⟨rank, rfl⟩
    obtain ⟨n, hn, htext, hvalue⟩ := exists_numeral false rank
    refine ⟨rfl, String.ofList n.text, ?_, ?_⟩
    · rw [String.toList_ofList]
      exact Terminal.mem_number_iff.2 ⟨n, hn.toWellFormed, rfl⟩
    · rw [Lenient.number?_text hn.toWellFormed, hvalue]

/-- A numeral of a finite number is a word for it. -/
theorem isWord_of_numeral {n : Numeral} {text : String} {x : Binary64} (hn : n.WellFormed)
    (htext : text.toList = n.text) (hvalue : n.decimal.toBinary64 false = x)
    (hfinite : x.isFinite) : Lexer.IsWord (.number x, text) := by
  have hread : Lenient.number? text = some x := by
    rw [← String.ofList_toList (s := text), htext, Lenient.number?_text hn, hvalue]
  exact ⟨.number, Terminal.mem_number_iff.2 ⟨n, hn, htext⟩, .number hread hfinite⟩

/-- The text of such a number is a numeral of it. -/
theorem IsLiteral.isWord {x : Binary64} (h : x.IsLiteral) :
    Lexer.IsWord (.number x, x.text) := by
  obtain ⟨rank, rfl⟩ := isLiteral_iff.1 h
  obtain ⟨n, hn, htext, hvalue⟩ := exists_numeral false rank
  exact isWord_of_numeral hn.toWellFormed htext hvalue rfl

end Binary64

/-! ## Nodes are derived from their tokens -/

theorem Lexer.isWord_equals : IsWord (.equals, "=") := ⟨.equals, rfl, .equals⟩

/-- The token for an operation is a word. -/
theorem Operator.isWord (op : Operator) : Lexer.IsWord (op.kind, op.symbol) := by
  cases op with
  | add => exact ⟨.plus, rfl, .plus⟩
  | sub => exact ⟨.minus, rfl, .minus⟩
  | mul => exact ⟨.star, rfl, .star⟩
  | div => exact ⟨.slash, rfl, .slash⟩

namespace Node

/-- The tokens of a node are words, and a rule derives the node from them whatever follows. -/
structure Prints (Rule : List Token → Node → List Token → Prop) (node : Node) : Prop where
  areWords : Token.AreWords node.tokens
  derives : ∀ rest, Rule (node.tokens ++ rest) node rest

theorem IsName.isWord {name : String} (h : IsName name) : Lexer.IsWord (.identifier, name) :=
  ⟨.identifier, h.mem, .identifier h.ne_let h.ne_const⟩

theorem IsLeaf.prints {node : Node} (h : node.IsLeaf) : node.Prints Primary := by
  cases h with
  | number hx => exact ⟨List.forall_mem_singleton.2 hx.isWord, fun _ => .number rfl⟩
  | identifier hname => exact ⟨List.forall_mem_singleton.2 hname.isWord, fun _ => .name rfl⟩

/-- One more operation at the end. -/
theorem operations_concat {Sign : Token.Kind → Operator → Prop}
    {Operand : List Token → Node → List Token → Prop} {ts us rest : List Token} {t : Token}
    {op : Operator} {node : Node} {operations : List (Operator × Node)}
    (h : Operations Sign Operand ts operations (t :: us)) (hop : Sign t.kind op)
    (hnode : Operand us node rest) :
    Operations Sign Operand ts (operations ++ [(op, node)]) rest := by
  generalize hvs : t :: us = vs at h
  induction h with
  | nil =>
    subst hvs
    exact .cons hop hnode .nil
  | cons hfirst hright _ ih => exact .cons hfirst hright (ih hvs)

theorem IsChain.prints {Sign : Token.Kind → Operator → Prop}
    {Operand : List Token → Node → List Token → Prop} {signs : List Operator}
    {IsOperand : Node → Prop} (hsign : ∀ op ∈ signs, Sign op.kind op)
    (hoperand : ∀ node, IsOperand node → node.Prints Operand) {node : Node}
    (h : node.IsChain signs IsOperand) : node.Prints (Chain Sign Operand) := by
  induction h with
  | single hnode =>
    have hprints := hoperand _ hnode
    exact ⟨hprints.areWords, fun rest => ⟨_, rest, [], hprints.derives rest, .nil, rfl⟩⟩
  | @binary op left right hop _ hright ih =>
    have hprints := hoperand _ hright
    refine ⟨?_, fun rest => ?_⟩
    · exact List.forall_mem_append.2
        ⟨ih.areWords, List.forall_mem_cons.2 ⟨op.isWord, hprints.areWords⟩⟩
    · -- The chain on the left ends before the operator.
      obtain ⟨first, us, operations, hfirst, hoperations, hleft⟩ :=
        ih.derives (.ofWord op.kind op.symbol :: (right.tokens ++ rest))
      have hall := operations_concat hoperations (hsign op hop) (hprints.derives rest)
      rw [tokens, List.append_assoc, List.cons_append]
      refine ⟨first, us, _, hfirst, hall, ?_⟩
      rw [foldLeft, List.foldl_concat, ← foldLeft, ← hleft]

theorem IsProduct.prints {node : Node} (h : node.IsProduct) : node.Prints Multiplicative := by
  refine IsChain.prints ?_ (fun _ => IsLeaf.prints) h
  simpa using ⟨ProductSign.star, ProductSign.slash⟩

theorem IsSum.prints {node : Node} (h : node.IsSum) : node.Prints Additive := by
  refine IsChain.prints ?_ (fun _ => IsProduct.prints) h
  simpa using ⟨SumSign.plus, SumSign.minus⟩

theorem IsExpression.prints {node : Node} (h : node.IsExpression) : node.Prints Assignment := by
  induction h with
  | sum h => exact ⟨h.prints.areWords, fun rest => .plain (h.prints.derives rest)⟩
  | @assignment target value htarget _ ih =>
    refine ⟨?_, fun rest => ?_⟩
    · exact List.forall_mem_append.2
        ⟨htarget.prints.areWords, List.forall_mem_cons.2 ⟨Lexer.isWord_equals, ih.areWords⟩⟩
    · rw [tokens, List.append_assoc, List.cons_append]
      exact .assign (htarget.prints.derives _) rfl (ih.derives rest)

theorem isWord_keyword (isConst : Bool) : Lexer.IsWord (keyword isConst).word := by
  cases isConst with
  | false =>
    have hmem : "let".toList ∈ Terminal.identifier.language :=
      Terminal.mem_identifier_iff.2 ⟨'l', ['e', 't'], rfl, by simp [Lexer.isNamePart], rfl⟩
    exact ⟨.identifier, hmem, .letKeyword rfl⟩
  | true =>
    have hmem : "const".toList ∈ Terminal.identifier.language :=
      Terminal.mem_identifier_iff.2
        ⟨'c', ['o', 'n', 's', 't'], rfl, by simp [Lexer.isNamePart], rfl⟩
    exact ⟨.identifier, hmem, .constKeyword rfl⟩

theorem keyword_kind (isConst : Bool) : Keyword (keyword isConst).kind isConst := by
  cases isConst with
  | false => exact .letKeyword
  | true => exact .constKeyword

/-- An expression is always a value. -/
theorem IsExpression.ne_null {value : Node} (h : value.IsExpression) : value ≠ .null := by
  rintro rfl
  cases h with
  | sum hsum =>
    cases hsum with
    | single hproduct =>
      cases hproduct with
      | single hleaf => exact nomatch hleaf

/-- A value is written after an equals sign. -/
theorem IsExpression.tokens_declaration {value : Node} (h : value.IsExpression) (name : String)
    (isConst : Bool) :
    (declaration (.text name) isConst value).tokens =
      keyword isConst :: .ofWord .identifier name :: .ofWord .equals "=" :: value.tokens := by
  rw [Json.text, tokens]
  exact h.ne_null

/-- A statement is derived from its tokens and the semicolon after them. -/
theorem IsStatement.derives {node : Node} (h : node.IsStatement) (rest : List Token) :
    Token.AreWords node.tokens ∧
      Statement (node.tokens ++ .ofWord .semicolon ";" :: rest) node rest := by
  cases h with
  | expression h => exact ⟨h.prints.areWords, .terminated (h.prints.derives _) rfl⟩
  | @empty name hname =>
    refine ⟨?_, .declaration (.empty rfl rfl rfl)⟩
    exact List.forall_mem_cons.2 ⟨isWord_keyword false, List.forall_mem_singleton.2 hname.isWord⟩
  | @valued name isConst value hname hvalue =>
    rw [hvalue.tokens_declaration]
    refine ⟨?_, .declaration ?_⟩
    · exact List.forall_mem_cons.2 ⟨isWord_keyword isConst, List.forall_mem_cons.2
        ⟨hname.isWord, List.forall_mem_cons.2 ⟨Lexer.isWord_equals, hvalue.prints.areWords⟩⟩⟩
    · exact .valued (keyword_kind isConst) rfl rfl (hvalue.prints.derives _) rfl

end Node

namespace Program

variable {program : Program}

theorem IsWritten.derives (h : program.IsWritten) :
    Token.AreWords program.tokens ∧ Statements program.tokens program := by
  induction program with
  | nil => exact ⟨List.forall_mem_nil _, .nil⟩
  | cons statement rest ih =>
    obtain ⟨hstatement, hrest⟩ := List.forall_mem_cons.1 h
    obtain ⟨hwords, hstatements⟩ := ih hrest
    obtain ⟨hnode, hderives⟩ := hstatement.derives (tokens rest)
    have hsemicolon : Lexer.IsWord (.semicolon, ";") := ⟨.semicolon, rfl, .semicolon⟩
    have htokens : tokens (statement :: rest) =
        statement.tokens ++ .ofWord .semicolon ";" :: tokens rest := by
      rw [tokens, List.flatMap_cons, List.append_assoc]
      rfl
    rw [htokens]
    refine ⟨?_, .cons hderives hstatements⟩
    exact List.forall_mem_append.2 ⟨hnode, List.forall_mem_cons.2 ⟨hsemicolon, hwords⟩⟩

/-- What is read from the text of a program is the program. -/
theorem IsWritten.parse_source (h : program.IsWritten) : parse program.source = .ok program := by
  obtain ⟨hwords, hstatements⟩ := h.derives
  apply parse_of_writes
  refine ⟨program.tokens, ?_, hstatements⟩
  rw [source, String.toList_ofList]
  exact hwords.spells

/-- The trees of source texts are exactly those of the shape, and each of them is read from the
source text that is written for it. -/
theorem exists_parse_iff (program : Program) :
    ((∃ source, parse source = .ok program) ↔ program.IsWritten) ∧
      (parse program.source = .ok program ↔ program.IsWritten) := by
  constructor
  · constructor
    · rintro ⟨source, hparse⟩
      exact isWritten_of_parse hparse
    · intro h
      exact ⟨program.source, h.parse_source⟩
  · exact ⟨isWritten_of_parse, IsWritten.parse_source⟩

-- An assignment is a value; a sum in a product is not written, since there are no parentheses.
example : source [.declaration (.text "x") true
    (.assignment (.identifier (.text "y")) (.binary .mul (.identifier (.text "y"))
      (.identifier (.text "z"))))] = "const x = y = y * z ; " := by cbv

end Program

end LetCalc
