import LetCalc.Proofs.Parser.Respacing

/-!
# Precedence

What a line of operands with operators between them is worth, told without a tree: the line is split
at every sum and difference, the groups that are left are products and quotients, and everything is
carried out from the left. A group is computed just before it is added or subtracted, so that the
first operation that fails is the one that is told.

* `Series.byPrecedence`: this value.
* `Series.tokens_groups`, `Series.groups_all`: splitting loses nothing, and leaves sums between the
  groups and none inside them.
* `Series.chain`, `Series.gives_eval`: operands with operators between them are one chain of the
  grammar, and it is evaluated from the left. Both are used twice, for a group and for the groups.
* `run_series`: a source text made of such a line has this value, and running it changes no scope.
-/

namespace LetCalc

open Grammar

/-! ## Lines of operands -/

/-- A numeral that is not out of range, or a name that is no keyword. -/
inductive Operand where
  | number (numeral : String) (value : Binary64) (isWord : Lexer.IsWord (.number value, numeral))
  | identifier (name : String) (isName : Node.IsName name)

namespace Operand

def text : Operand → String
  | .number numeral _ _ => numeral
  | .identifier name _ => name

/-- What the operand is worth in a scope. A name without a binding is null. -/
def read (scope : Nat) (forest : Forest) : Operand → Value
  | .number _ value _ => .number value
  | .identifier name _ => (forest.lookup scope (.text name)).getD .null

def token : Operand → Token
  | .number numeral value _ => .ofWord (.number value) numeral
  | .identifier name _ => .ofWord .identifier name

def node : Operand → Node
  | .number _ value _ => .number value
  | .identifier name _ => .identifier (.text name)

/-- A token is spelled as its operand. -/
theorem text_token (operand : Operand) : operand.token.text = operand.text := by
  cases operand <;> rfl

theorem isWord_token (operand : Operand) : Lexer.IsWord operand.token.word := by
  cases operand with
  | number numeral value isWord => exact isWord
  | identifier name isName => exact isName.isWord

/-- An operand is read from its token. -/
theorem primary_token (operand : Operand) (rest : List Token) :
    Primary ([operand.token] ++ rest) operand.node rest := by
  cases operand with
  | number numeral value isWord => exact .number rfl
  | identifier name isName => exact .name rfl

end Operand

/-- Whether the operation is a sum or a difference. -/
def Operator.isSum : Operator → Bool
  | .add => true
  | .sub => true
  | .mul => false
  | .div => false

theorem Operator.sumSign_kind {op : Operator} (h : op.isSum = true) : SumSign op.kind op := by
  cases op with
  | add => exact .plus
  | sub => exact .minus
  | mul => exact absurd h Bool.false_ne_true
  | div => exact absurd h Bool.false_ne_true

theorem Operator.productSign_kind {op : Operator} (h : op.isSum = false) :
    ProductSign op.kind op := by
  cases op with
  | add => exact absurd h.symm Bool.false_ne_true
  | sub => exact absurd h.symm Bool.false_ne_true
  | mul => exact .star
  | div => exact .slash

/-- One or more operands with operators between them. -/
structure Series (α : Type) where
  first : α
  rest : List (Operator × α)

namespace Series

variable {α : Type}

/-- The words of a line. -/
def words (s : Series Operand) : List String :=
  s.first.text :: s.rest.flatMap fun (op, a) => [op.symbol, a.text]

/-- The groups of a line that starts with `first`. -/
def split (first : α) : List (Operator × α) → Series (Series α)
  | [] => ⟨⟨first, []⟩, []⟩
  | (op, a) :: rest =>
    let groups := split a rest
    if op.isSum then ⟨⟨first, []⟩, (op, groups.first) :: groups.rest⟩
    else ⟨⟨first, (op, groups.first.first) :: groups.first.rest⟩, groups.rest⟩

/-- A sum or difference ends the first group. -/
theorem split_of_isSum {op : Operator} (h : op.isSum = true) (first a : α)
    (rest : List (Operator × α)) :
    split first ((op, a) :: rest) =
      ⟨⟨first, []⟩, (op, (split a rest).first) :: (split a rest).rest⟩ := by
  rw [split, if_pos h]

/-- A product or quotient continues it. -/
theorem split_of_not_isSum {op : Operator} (h : op.isSum = false) (first a : α)
    (rest : List (Operator × α)) :
    split first ((op, a) :: rest) =
      ⟨⟨first, (op, (split a rest).first.first) :: (split a rest).first.rest⟩,
        (split a rest).rest⟩ := by
  rw [split, if_neg (Bool.eq_false_iff.1 h)]

/-- The line, split at every sum and difference. -/
def groups (s : Series α) : Series (Series α) := split s.first s.rest

/-- The value of operations carried out from the left. Each operand is computed just before it is
combined. -/
def value (compute : α → Except EvalError Value) (s : Series α) : Except EvalError Value := do
  let first ← compute s.first
  s.rest.foldlM (fun left (op, a) => do Value.combine op.symbol left (← compute a)) first

/-- The value of a line: first within the groups, then between them. -/
def byPrecedence (scope : Nat) (forest : Forest) (s : Series Operand) : Except EvalError Value :=
  s.groups.value (value fun operand => .ok (operand.read scope forest))

/-! ## The tokens of a line -/

/-- The tokens of the operands with those of the operators between them. -/
def tokens (ofOperand : α → List Token) (s : Series α) : List Token :=
  ofOperand s.first ++ s.rest.flatMap fun (op, a) => .ofWord op.kind op.symbol :: ofOperand a

/-- All operators and all operands are as given. -/
structure All (IsSign : Operator → Prop) (IsOperand : α → Prop) (s : Series α) : Prop where
  first : IsOperand s.first
  rest : ∀ x ∈ s.rest, IsSign x.1 ∧ IsOperand x.2

/-- The groups have the tokens of the line. -/
theorem tokens_groups (ofOperand : α → List Token) (s : Series α) :
    s.groups.tokens (tokens ofOperand) = s.tokens ofOperand := by
  obtain ⟨first, rest⟩ := s
  show (split first rest).tokens (tokens ofOperand) = tokens ofOperand ⟨first, rest⟩
  induction rest generalizing first with
  | nil => simp only [split, tokens, List.flatMap_nil, List.append_nil]
  | cons operation rest ih =>
    obtain ⟨op, a⟩ := operation
    have hrest := ih a
    cases hsum : op.isSum with
    | true =>
      rw [split_of_isSum hsum]
      simp only [tokens, List.flatMap_nil, List.append_nil, List.flatMap_cons, List.cons_append,
        List.append_assoc] at hrest ⊢
      rw [← hrest]
    | false =>
      rw [split_of_not_isSum hsum]
      simp only [tokens, List.flatMap_cons, List.cons_append, List.append_assoc] at hrest ⊢
      rw [← hrest]

/-- The groups are divided by sums and differences, and have none inside them. -/
theorem groups_all (s : Series α) :
    s.groups.All (fun op => op.isSum = true)
      fun group => group.All (fun op => op.isSum = false) fun _ => True := by
  obtain ⟨first, rest⟩ := s
  show (split first rest).All _ _
  induction rest generalizing first with
  | nil => exact ⟨⟨trivial, nofun⟩, nofun⟩
  | cons operation rest ih =>
    obtain ⟨op, a⟩ := operation
    have hrest := ih a
    cases hsum : op.isSum with
    | true =>
      rw [split_of_isSum hsum]
      exact ⟨⟨trivial, nofun⟩, List.forall_mem_cons.2 ⟨⟨hsum, hrest.first⟩, hrest.rest⟩⟩
    | false =>
      -- The first group of the rest is continued to the left.
      rw [split_of_not_isSum hsum]
      exact ⟨⟨trivial, List.forall_mem_cons.2 ⟨⟨hsum, trivial⟩, hrest.first.rest⟩⟩, hrest.rest⟩

-- The line is split at both differences, and the product and the quotient stay in one group.
example : (groups ⟨1, [(.sub, 2), (.mul, 3), (.div, 4), (.sub, 5)]⟩ : Series (Series Nat)) =
    ⟨⟨1, []⟩, [(.sub, ⟨2, [(.mul, 3), (.div, 4)]⟩), (.sub, ⟨5, []⟩)]⟩ := rfl

theorem areWords_tokens (s : Series Operand) :
    Token.AreWords (s.tokens fun operand => [operand.token]) := by
  refine List.forall_mem_append.2 ⟨List.forall_mem_singleton.2 s.first.isWord_token, ?_⟩
  intro t ht
  obtain ⟨⟨op, a⟩, -, hmem⟩ := List.mem_flatMap.1 ht
  rcases List.mem_cons.1 hmem with rfl | hmem
  · exact op.isWord
  · rw [List.mem_singleton.1 hmem]
    exact a.isWord_token

theorem map_text_tokens (s : Series Operand) :
    (s.tokens fun operand => [operand.token]).map Token.text = s.words := by
  simp only [tokens, words, List.map_cons, List.map_nil, List.map_flatMap, Operand.text_token,
    List.cons_append, List.nil_append]
  rfl

/-! ## A line is one expression -/

variable {ofOperand : α → List Token} {nodeOf : α → Node}

/-- The tree of operations that are folded to the left. -/
def node (nodeOf : α → Node) (s : Series α) : Node :=
  foldLeft (nodeOf s.first) (s.rest.map fun (op, a) => (op, nodeOf a))

/-- Operands that a rule derives from their tokens are chained by operators. -/
theorem chain {Sign : Token.Kind → Operator → Prop} {Rule : List Token → Node → List Token → Prop}
    {IsSign : Operator → Prop} {IsOperand : α → Prop}
    (hsign : ∀ op, IsSign op → Sign op.kind op)
    (hrule : ∀ a, IsOperand a → ∀ rest, Rule (ofOperand a ++ rest) (nodeOf a) rest) {s : Series α}
    (h : s.All IsSign IsOperand) (rest : List Token) :
    Chain Sign Rule (s.tokens ofOperand ++ rest) (s.node nodeOf) rest := by
  obtain ⟨first, operations⟩ := s
  obtain ⟨hfirst, hoperations⟩ := h
  have hrest : Operations Sign Rule
      (operations.flatMap (fun x => .ofWord x.1.kind x.1.symbol :: ofOperand x.2) ++ rest)
      (operations.map fun x => (x.1, nodeOf x.2)) rest := by
    induction operations with
    | nil => exact .nil
    | cons x operations ih =>
      obtain ⟨⟨hop, ha⟩, hmore⟩ := List.forall_mem_cons.1 hoperations
      rw [List.flatMap_cons, List.append_assoc, List.cons_append]
      exact .cons (hsign _ hop) (hrule _ ha _) (ih hfirst hmore)
  refine ⟨nodeOf first, _, _, ?_, hrest, rfl⟩
  rw [tokens, List.append_assoc]
  exact hrule first hfirst _

/-- The tree of a line. -/
def tree (s : Series Operand) : Node := s.groups.node (node Operand.node)

/-- The tokens of a line are one statement, with the groups as operands of its sum. -/
theorem statements_tree (s : Series Operand) :
    Statements (s.tokens fun operand => [operand.token]) [s.tree] := by
  have hproduct : ∀ group : Series Operand, group.All (fun op => op.isSum = false) (fun _ => True) →
      ∀ rest, Multiplicative (group.tokens (fun operand => [operand.token]) ++ rest)
        (group.node Operand.node) rest := by
    intro group hgroup rest
    exact chain (fun _ => Operator.productSign_kind) (fun operand _ => operand.primary_token)
      hgroup rest
  have hsum : Additive (s.groups.tokens (tokens fun operand => [operand.token]) ++ [])
      s.tree [] :=
    chain (fun _ => Operator.sumSign_kind) hproduct s.groups_all []
  -- These are the tokens of the groups, which are those of the line.
  rw [List.append_nil, tokens_groups] at hsum
  exact .cons (.expression (.plain hsum)) .nil

/-- However a line is spaced, it is parsed as its tree. -/
theorem parse_words {s : Series Operand} {joined before after : String}
    (hjoined : Joined s.words joined) (hbefore : ∀ c ∈ before.toList, c ∈ Lexer.blanks)
    (hafter : ∀ c ∈ after.toList, c ∈ Lexer.blanks) :
    Program.parse (before ++ joined ++ after) = .ok [s.tree] := by
  apply Program.parse_of_writes
  refine ⟨_, ?_, s.statements_tree⟩
  rw [← map_text_tokens] at hjoined
  rw [String.toList_append, String.toList_append]
  exact (s.areWords_tokens.spells_joined hjoined).pad hbefore hafter

end Series

/-! ## The value of a line -/

namespace Run

variable {α β : Type} {forest : Forest}

/-- On a machine with the given scopes the computation has the given result, and it leaves the
scopes as they are. -/
def Gives (forest : Forest) (r : Run α) (result : Except EvalError α) : Prop :=
  ∀ m : Machine, m.forest = forest →
    (r m).1 = result.mapError Fault.error ∧ (r m).2.forest = forest

theorem gives_pure (forest : Forest) (a : α) : Gives forest (pure a) (.ok a) := fun _ h => ⟨rfl, h⟩

/-- Results follow one another, and the scopes stay as they are. -/
theorem Gives.bind {r : Run α} {f : α → Run β} {result : Except EvalError α}
    {next : α → Except EvalError β} (hr : Gives forest r result)
    (hf : ∀ a, Gives forest (f a) (next a)) : Gives forest (r >>= f) (result >>= next) := by
  intro m hm
  obtain ⟨hresult, hforest⟩ := hr m hm
  rw [bind_apply, hresult]
  cases result with
  | error e => exact ⟨rfl, hforest⟩
  | ok a => exact hf a (r m).2 hforest

theorem gives_report (forest : Forest) (level : Int) (event : Event) :
    Gives forest (report level event) (.ok ()) :=
  fun m hm => ⟨rfl, (forest_report level event m).trans hm⟩

theorem gives_operate (forest : Forest) (level : Int) (op : Operator) (a b : Value) :
    Gives forest (operate level op a b) (Value.combine op.symbol a b) := by
  rw [operate_eq]
  cases Value.combine op.symbol a b with
  | error e => exact fun m hm => ⟨rfl, hm⟩
  | ok result => exact (gives_report forest level _).bind fun _ => gives_pure forest result

end Run

/-- Operations that are folded to the left are carried out in turn. -/
theorem Node.eval_foldLeft (level : Int) (scope : Nat) (first : Node)
    (operations : List (Operator × Node)) :
    (foldLeft first operations).eval level scope =
      first.eval level scope >>= fun value => carryOut level scope value operations := by
  induction operations generalizing first with
  | nil => exact (bind_pure _).symm
  | cons x operations ih =>
    rw [foldLeft, List.foldl_cons, ← foldLeft, ih, eval_binary]
    simp only [carryOut, List.foldlM_cons, bind_assoc]

namespace Series

variable {α : Type} {forest : Forest} {level : Int} {scope : Nat}

/-- A line is computed from the left, operand by operand. -/
theorem gives_eval {nodeOf : α → Node} {compute : α → Except EvalError Value}
    (h : ∀ a, Run.Gives forest ((nodeOf a).eval level scope) (compute a)) (s : Series α) :
    Run.Gives forest ((s.node nodeOf).eval level scope) (s.value compute) := by
  obtain ⟨first, operations⟩ := s
  rw [node, Node.eval_foldLeft]
  refine (h first).bind fun value => ?_
  -- The value so far is what the first of the remaining operations has on its left.
  induction operations generalizing value with
  | nil => exact Run.gives_pure forest value
  | cons x operations ih =>
    rw [List.map_cons, Node.carryOut, List.foldlM_cons, List.foldlM_cons]
    refine Run.Gives.bind ?_ ih
    exact (h x.2).bind fun right => Run.gives_operate forest level x.1 value right

theorem gives_operand (operand : Operand) :
    Run.Gives forest (operand.node.eval level scope) (.ok (operand.read scope forest)) := by
  rw [Node.eval_eq]
  rintro m rfl
  cases operand with
  | number numeral value isWord => exact ⟨rfl, rfl⟩
  | identifier name isName => exact ⟨rfl, rfl⟩

/-- The value of a line is that by precedence. -/
theorem gives_tree (s : Series Operand) :
    Run.Gives forest (Program.eval level scope [s.tree]) (s.byPrecedence scope forest) := by
  have htree : Run.Gives forest (s.tree.eval level scope) (s.byPrecedence scope forest) :=
    gives_eval (gives_eval gives_operand) s.groups
  have hprogram := htree.bind fun value =>
    (Run.gives_report forest level (.statement 0 value)).bind fun _ => Run.gives_pure forest value
  have hresult : (s.byPrecedence scope forest >>= fun value =>
      (.ok () : Except EvalError Unit) >>= fun _ => .ok value) = s.byPrecedence scope forest :=
    bind_pure _
  rwa [hresult] at hprogram

end Series

/-- A source text of operands with operators between them has the value that precedence gives it:
the line is split at every sum and difference, each group is computed from the left just before it
is combined, and the groups are combined from the left. The first operation that fails is told. The
scopes stay as they are. -/
theorem run_series (level : Int) (scope : Nat) (forest : Forest) {s : Series Operand}
    {joined before after : String} (hjoined : Joined s.words joined)
    (hbefore : ∀ c ∈ before.toList, c ∈ Lexer.blanks)
    (hafter : ∀ c ∈ after.toList, c ∈ Lexer.blanks) :
    (Program.run level scope (before ++ joined ++ after) forest).1 =
        (s.byPrecedence scope forest).mapError (fun e => .fault (.error e)) ∧
      (Program.run level scope (before ++ joined ++ after) forest).2.1 = forest := by
  have hparse := Series.parse_words hjoined hbefore hafter
  have hgives : Run.Gives forest (Program.eval level scope [s.tree])
      (s.byPrecedence scope forest) := s.gives_tree
  obtain ⟨hresult, hforest⟩ := hgives ⟨forest, #[]⟩ rfl
  rw [Program.run_of_parse hparse]
  refine ⟨?_, hforest⟩
  show Except.mapError Failure.fault (Program.eval level scope [s.tree] ⟨forest, #[]⟩).1 = _
  rw [hresult]
  cases s.byPrecedence scope forest with
  | error e => rfl
  | ok value => rfl

/-- The sum so far is null, so that the last difference is null whatever is subtracted. Still the
quotient is computed before it, and fails. -/
theorem run_series_fails :
    ∃ s : Series Operand, s.words = ["7", "-", "2", "*", "y", "-", "true", "/", "2"] ∧
      Joined s.words "7 -\t2 * y\n- true / 2" ∧
      (Program.run 0 0 "\x0c7 -\t2 * y\n- true / 2 " .single).1 =
        (s.byPrecedence 0 .single).mapError (fun e => .fault (.error e)) ∧
      (Program.run 0 0 "\x0c7 -\t2 * y\n- true / 2 " .single).1 =
        .error (.fault (.error (.unsupportedOperands "/" "Boolean" "Number"))) ∧
      (Program.run 0 0 "\x0c7 -\t2 * y\n- true / 2 " .single).2.1 = .single := by
  -- The words are those of the tokens that they are read as.
  have hword : ∀ t : Token, t ∈ (Lexer.ofSource t.text).tokens.1 → Lexer.IsWord t.word :=
    fun _ h => Lexer.isWord_of_mem_tokens h
  have hseven := hword (.ofWord (.number (.finite false ⟨4619567317775286272, by decide⟩)) "7")
    (by decide +kernel)
  have htwo := hword (.ofWord (.number (.finite false ⟨4611686018427387904, by decide⟩)) "2")
    (by decide +kernel)
  have hy := (hword (.ofWord .identifier "y") (by decide +kernel)).isName rfl
  have htrue := (hword (.ofWord .identifier "true") (by decide +kernel)).isName rfl
  have hjoined : Joined ["7", "-", "2", "*", "y", "-", "true", "/", "2"]
      ("7" ++ " " ++ ("-" ++ "\t" ++ ("2" ++ " " ++ ("*" ++ " " ++ ("y" ++ "\n" ++
        ("-" ++ " " ++ ("true" ++ " " ++ ("/" ++ " " ++ "2")))))))) := by
    iterate 8 refine .cons (by decide) (by simp [Lexer.blanks]) ?_
    exact .single "2"
  have hbefore : ∀ c ∈ "\x0c".toList, c ∈ Lexer.blanks := by simp [Lexer.blanks]
  have hafter : ∀ c ∈ " ".toList, c ∈ Lexer.blanks := by simp [Lexer.blanks]
  let s : Series Operand := ⟨.number "7" _ hseven, [(.sub, .number "2" _ htwo),
    (.mul, .identifier "y" hy), (.sub, .identifier "true" htrue), (.div, .number "2" _ htwo)]⟩
  have hwords : Joined s.words _ := hjoined
  obtain ⟨hvalue, hforest⟩ := run_series 0 0 .single hwords hbefore hafter
  exact ⟨s, rfl, hjoined, hvalue, by decide +kernel, hforest⟩

end LetCalc
