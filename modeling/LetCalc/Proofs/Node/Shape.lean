import LetCalc.Proofs.Node.Parts
import LetCalc.Proofs.Parser.Correctness
import LetCalc.Proofs.Token.Spelling

/-!
# The shape of programs that were written

A tree can hold more than a source text can say: there are no parentheses, so that an operand of a
product is never a sum, and a value is never a declaration. `Program.IsWritten` gives the trees that
are left. They are those of the grammar, without its tokens:

    leaf       := number | name
    product    := leaf | product ('*' | '/') leaf
    sum        := product | sum ('+' | '-') product
    expression := sum | sum '=' expression
    statement  := expression | 'let' name | ('let' | 'const') name '=' expression

Every program that is parsed has this shape (`Program.isWritten_of_parse`), and in a program of this
shape all names are identifiers (`Program.IsWritten.exists_isName`).
-/

namespace LetCalc

/-- The number is the value of a numeral, which is not out of range. -/
def Binary64.IsLiteral (x : Binary64) : Prop :=
  x.isFinite ∧ ∃ word : String, word.toList ∈ Terminal.number.language ∧
    Lenient.number? word = some x

namespace Node

/-- The text is an identifier, and no keyword. -/
structure IsName (name : String) : Prop where
  mem : name.toList ∈ Terminal.identifier.language
  ne_let : name ≠ "let"
  ne_const : name ≠ "const"

/-- A number or a variable. -/
inductive IsLeaf : Node → Prop
  | number {x : Binary64} : x.IsLiteral → IsLeaf (.number x)
  | identifier {name : String} : IsName name → IsLeaf (.identifier (.text name))

/-- Operands with operations between them, which are carried out from the left. -/
inductive IsChain (operations : List Operator) (IsOperand : Node → Prop) : Node → Prop
  | single {node : Node} : IsOperand node → IsChain operations IsOperand node
  | binary {op : Operator} {left right : Node} :
      op ∈ operations → IsChain operations IsOperand left → IsOperand right →
        IsChain operations IsOperand (.binary op left right)

/-- Leaves that are multiplied and divided. -/
def IsProduct : Node → Prop := IsChain [.mul, .div] IsLeaf

/-- Products that are added and subtracted. -/
def IsSum : Node → Prop := IsChain [.add, .sub] IsProduct

/-- A sum, or an assignment to one. -/
inductive IsExpression : Node → Prop
  | sum {node : Node} : IsSum node → IsExpression node
  | assignment {target value : Node} :
      IsSum target → IsExpression value → IsExpression (.assignment target value)

/-- An expression or a declaration. Only a variable can be declared without a value. -/
inductive IsStatement : Node → Prop
  | expression {node : Node} : IsExpression node → IsStatement node
  | empty {name : String} : IsName name → IsStatement (.declaration (.text name) false .null)
  | valued {name : String} {isConst : Bool} {value : Node} :
      IsName name → IsExpression value → IsStatement (.declaration (.text name) isConst value)

end Node

/-- The statements are such as a source text can hold. -/
def Program.IsWritten (program : Program) : Prop := ∀ statement ∈ program, statement.IsStatement

/-! ## The words of tokens -/

namespace Lexer

/-- A text is a word of the given kind. -/
def IsWord (word : Token.Kind × String) : Prop :=
  ∃ T : Terminal, word.2.toList ∈ T.language ∧ T.Tags word.2 word.1

/-- Every token is made of a word. -/
theorem isWord_of_mem_tokens {lexer : Lexer} {t : Token} (h : t ∈ lexer.tokens.1) :
    IsWord t.word := by
  induction lexer using run_induction with
  | done lexer left hnext =>
    rw [tokens_of_done hnext] at h
    exact absurd h List.not_mem_nil
  | failure lexer e left hnext =>
    rw [tokens_of_failure hnext] at h
    exact absurd h List.not_mem_nil
  | token lexer u left hnext ih =>
    rw [tokens_of_token hnext] at h
    rcases List.mem_cons.1 h with rfl | h
    · have htakes := takes_next lexer
      rw [hnext] at htakes
      cases htakes with
      | @token T word left kind hlongest htags _ =>
        refine ⟨T, ?_, htags⟩
        show (String.ofList word).toList ∈ _
        rw [String.toList_ofList]
        exact hlongest.mem
    · exact ih h

end Lexer

/-- The tokens are made of words. -/
def Token.AreWords (ts : List Token) : Prop := ∀ t ∈ ts, Lexer.IsWord t.word

theorem Token.areWords_cons {t : Token} {ts : List Token} :
    AreWords (t :: ts) ↔ Lexer.IsWord t.word ∧ AreWords ts :=
  List.forall_mem_cons

/-- The number of a numeral is one that can be written. -/
theorem Lexer.IsWord.isLiteral {t : Token} (h : IsWord t.word) {x : Binary64}
    (hkind : t.kind = .number x) : x.IsLiteral := by
  obtain ⟨T, hmem, htags⟩ := h
  rw [show t.word.1 = .number x from hkind] at htags
  cases htags with
  | number hread hfinite => exact ⟨hfinite, t.text, hmem, hread⟩

/-- An identifier is no keyword, since keywords have kinds of their own. -/
theorem Lexer.IsWord.isName {t : Token} (h : IsWord t.word) (hkind : t.kind = .identifier) :
    Node.IsName t.text := by
  obtain ⟨T, hmem, htags⟩ := h
  rw [show t.word.1 = .identifier from hkind] at htags
  cases htags with
  | identifier hlet hconst => exact ⟨hmem, hlet, hconst⟩

/-! ## The shape, rule by rule -/

namespace Grammar

open Token (AreWords areWords_cons)

variable {ts rest : List Token} {node : Node}

/-- An operand is a leaf, and the tokens after it are still words. -/
theorem Primary.isLeaf (h : Primary ts node rest) (hts : AreWords ts) :
    node.IsLeaf ∧ AreWords rest := by
  cases h with
  | number hkind =>
    obtain ⟨hword, hrest⟩ := areWords_cons.1 hts
    exact ⟨.number (hword.isLiteral hkind), hrest⟩
  | name hkind =>
    obtain ⟨hword, hrest⟩ := areWords_cons.1 hts
    exact ⟨.identifier (hword.isName hkind), hrest⟩

section Chains

variable {Sign : Token.Kind → Operator → Prop} {Operand : List Token → Node → List Token → Prop}
  {signs : List Operator} {IsOperand : Node → Prop}

/-- Operations are folded to the left into a chain. -/
theorem Operations.isChain (hsign : ∀ k op, Sign k op → op ∈ signs)
    (hoperand : ∀ ts node rest, Operand ts node rest → AreWords ts →
      IsOperand node ∧ AreWords rest)
    {operations : List (Operator × Node)} (h : Operations Sign Operand ts operations rest)
    (hts : AreWords ts) (hfirst : node.IsChain signs IsOperand) :
    (foldLeft node operations).IsChain signs IsOperand ∧ AreWords rest := by
  induction h generalizing node with
  | nil => exact ⟨hfirst, hts⟩
  | cons hop hright _ ih =>
    -- What is folded so far is the left operand of the next operation.
    obtain ⟨hnode, hus⟩ := hoperand _ _ _ hright (areWords_cons.1 hts).2
    exact ih hus (.binary (hsign _ _ hop) hfirst hnode)

theorem Chain.isChain (hsign : ∀ k op, Sign k op → op ∈ signs)
    (hoperand : ∀ ts node rest, Operand ts node rest → AreWords ts →
      IsOperand node ∧ AreWords rest)
    (h : Chain Sign Operand ts node rest) (hts : AreWords ts) :
    node.IsChain signs IsOperand ∧ AreWords rest := by
  obtain ⟨first, us, operations, hfirst, hoperations, rfl⟩ := h
  obtain ⟨hnode, hus⟩ := hoperand _ _ _ hfirst hts
  exact hoperations.isChain hsign hoperand hus (.single hnode)

end Chains

/-- A product multiplies and divides leaves. -/
theorem Multiplicative.isProduct (h : Multiplicative ts node rest) (hts : AreWords ts) :
    node.IsProduct ∧ AreWords rest := by
  refine Chain.isChain ?_ (fun _ _ _ => Primary.isLeaf) h hts
  intro k op hop
  cases hop <;> simp

/-- The operands of a sum are products, and never sums. -/
theorem Additive.isSum (h : Additive ts node rest) (hts : AreWords ts) :
    node.IsSum ∧ AreWords rest := by
  refine Chain.isChain ?_ (fun _ _ _ => Multiplicative.isProduct) h hts
  intro k op hop
  cases hop <;> simp

/-- What is assigned to is a sum, and what is assigned may be another assignment. -/
theorem Assignment.isExpression (h : Assignment ts node rest) (hts : AreWords ts) :
    node.IsExpression ∧ AreWords rest := by
  induction h with
  | plain h =>
    obtain ⟨hsum, hrest⟩ := Additive.isSum h hts
    exact ⟨.sum hsum, hrest⟩
  | assign htarget _ _ ih =>
    obtain ⟨hsum, hus⟩ := Additive.isSum htarget hts
    obtain ⟨hvalue, hrest⟩ := ih (areWords_cons.1 hus).2
    exact ⟨.assignment hsum hvalue, hrest⟩

/-- A constant has a value, and a variable may have none. -/
theorem Declaration.isStatement (h : Declaration ts node rest) (hts : AreWords ts) :
    node.IsStatement ∧ AreWords rest := by
  cases h with
  | empty _ hname _ =>
    obtain ⟨-, hts⟩ := areWords_cons.1 hts
    obtain ⟨hword, hts⟩ := areWords_cons.1 hts
    exact ⟨.empty (hword.isName hname), (areWords_cons.1 hts).2⟩
  | valued _ hname _ hvalue _ =>
    obtain ⟨-, hts⟩ := areWords_cons.1 hts
    obtain ⟨hword, hts⟩ := areWords_cons.1 hts
    obtain ⟨-, hts⟩ := areWords_cons.1 hts
    obtain ⟨hexpression, hrest⟩ := hvalue.isExpression hts
    exact ⟨.valued (hword.isName hname) hexpression, (areWords_cons.1 hrest).2⟩

/-- The semicolon after an expression leaves no trace in its node. -/
theorem Statement.isStatement (h : Statement ts node rest) (hts : AreWords ts) :
    node.IsStatement ∧ AreWords rest := by
  cases h with
  | declaration h => exact h.isStatement hts
  | expression h =>
    obtain ⟨hexpression, hrest⟩ := h.isExpression hts
    exact ⟨.expression hexpression, hrest⟩
  | terminated h _ =>
    obtain ⟨hexpression, hrest⟩ := h.isExpression hts
    exact ⟨.expression hexpression, (areWords_cons.1 hrest).2⟩

/-- All statements that the grammar derives from words have the shape. -/
theorem Statements.isWritten {program : Program} (h : Statements ts program)
    (hts : AreWords ts) : program.IsWritten := by
  induction h with
  | nil => exact List.forall_mem_nil _
  | cons hstatement _ ih =>
    obtain ⟨hnode, hus⟩ := hstatement.isStatement hts
    exact List.forall_mem_cons.2 ⟨hnode, ih hus⟩

end Grammar

/-- Every program that is parsed has the shape. -/
theorem Program.isWritten_of_parse {source : String} {program : Program}
    (h : Program.parse source = .ok program) : program.IsWritten := by
  obtain ⟨ts, hts, hstatements⟩ := exists_statements_of_parse h
  have htokens : (Lexer.ofSource source).tokens.1 = ts :=
    congrArg Prod.fst (Lexer.tokenize_eq_ok_iff.1 hts)
  apply hstatements.isWritten
  rw [← htokens]
  exact fun t ht => Lexer.isWord_of_mem_tokens ht

/-! ## The names in a program of the shape -/

namespace Node

/-- The names in a node are identifiers. -/
def WellNamed (node : Node) : Prop :=
  ∀ name ∈ node.names, ∃ text : String, name = .text text ∧ IsName text

theorem IsLeaf.wellNamed {node : Node} (h : node.IsLeaf) : node.WellNamed := by
  cases h with
  | number _ => exact List.forall_mem_nil _
  | identifier hname => exact List.forall_mem_singleton.2 ⟨_, rfl, hname⟩

/-- The names in a chain are those in its operands. -/
theorem IsChain.wellNamed {signs : List Operator} {IsOperand : Node → Prop}
    (hoperand : ∀ node, IsOperand node → node.WellNamed) {node : Node}
    (h : node.IsChain signs IsOperand) : node.WellNamed := by
  induction h with
  | single hnode => exact hoperand _ hnode
  | binary _ _ hright ih =>
    rw [WellNamed, names_binary]
    exact List.forall_mem_append.2 ⟨ih, hoperand _ hright⟩

theorem IsSum.wellNamed {node : Node} (h : node.IsSum) : node.WellNamed :=
  IsChain.wellNamed (fun _ => IsChain.wellNamed fun _ => IsLeaf.wellNamed) h

/-- The names in an expression are identifiers, those that are assigned to included. -/
theorem IsExpression.wellNamed {node : Node} (h : node.IsExpression) : node.WellNamed := by
  induction h with
  | sum h => exact h.wellNamed
  | assignment htarget _ ih =>
    rw [WellNamed, names_assignment]
    exact List.forall_mem_append.2 ⟨htarget.wellNamed, ih⟩

/-- So are the names that are declared. -/
theorem IsStatement.wellNamed {node : Node} (h : node.IsStatement) : node.WellNamed := by
  cases h with
  | expression h => exact h.wellNamed
  | empty hname =>
    rw [WellNamed, Json.text, names_declaration]
    exact List.forall_mem_cons.2 ⟨⟨_, rfl, hname⟩, List.forall_mem_nil _⟩
  | valued hname hvalue =>
    rw [WellNamed, Json.text, names_declaration]
    exact List.forall_mem_cons.2 ⟨⟨_, rfl, hname⟩, hvalue.wellNamed⟩

end Node

/-- In a program of the shape all names are identifiers. -/
theorem Program.IsWritten.exists_isName {program : Program} (h : program.IsWritten) :
    ∀ name ∈ program.names, ∃ text : String, name = .text text ∧ Node.IsName text := by
  induction program with
  | nil => exact List.forall_mem_nil _
  | cons statement rest ih =>
    obtain ⟨hstatement, hrest⟩ := List.forall_mem_cons.1 h
    rw [names_cons]
    exact List.forall_mem_append.2 ⟨hstatement.wellNamed, ih hrest⟩

end LetCalc
