import LetCalc.Node
import LetCalc.Token.Cursor

/-!
# Reading programs

Programs are read from left to right with one token of lookahead, and refused at the first token
that cannot continue them:

    program        := statement*
    statement      := declaration | assignment ';'?
    declaration    := ('let' | 'const') NAME (';' | '=' assignment ';')
    assignment     := additive ('=' assignment)?
    additive       := multiplicative (('+' | '-') multiplicative)*
    multiplicative := primary (('*' | '/') primary)*
    primary        := NUMBER | NAME

Operators of one level fold to the left, and assignments nest to the right. A constant has to be
declared with a value. Each rule is a `Reading`, so that it can also be used on its own, and each
takes at least one token when it succeeds.

Three rules are recursive: `Reading.chain`, `Reading.assignment` and `Reading.program`. Each of them
comes with the equations of its cases and with an induction that has these cases.
-/

namespace LetCalc

namespace Reading

/-- A number or a variable. -/
def primary : Reading Node := fun c =>
  match c.ahead with
  | .failed e => (.error (.lexer e), c)
  | .finished => (.error (.operandMissing c.span), c)
  | .token t =>
    match t.kind with
    | .number x => (.ok (.number x), c.next)
    | .identifier => (.ok (.identifier (.text t.text)), c.next)
    | .letKeyword => (.error (.keywordOperand t), c)
    | .constKeyword => (.error (.keywordOperand t), c)
    | _ => (.error (.unexpectedToken t), c)

/-- An operand is either refused on the spot or taken. -/
theorem primary_cases (c : Cursor) :
    (∃ e, primary c = (.error e, c)) ∨
      ∃ t node, c.ahead = .token t ∧ primary c = (.ok node, c.next) := by
  unfold primary
  split
  · exact .inl ⟨_, rfl⟩
  · exact .inl ⟨_, rfl⟩
  · rename_i t h
    split
    · exact .inr ⟨t, _, h, rfl⟩
    · exact .inr ⟨t, _, h, rfl⟩
    all_goals exact .inl ⟨_, rfl⟩

/-- An operand is one token. -/
theorem consumes_primary : Consumes primary := by
  refine ⟨fun c => ?_, fun c a h => ?_⟩
  · obtain ⟨e, he⟩ | ⟨t, node, ht, hn⟩ := primary_cases c
    · exact he ▸ Nat.le_refl c.unread
    · exact hn ▸ Nat.le_of_lt (Cursor.unread_next_lt ht)
  · obtain ⟨e, he⟩ | ⟨t, node, ht, hn⟩ := primary_cases c
    · simp [he] at h
    · rw [hn]
      exact Cursor.unread_next_lt ht

/-- The rest of a chain of operations after its first operand `left`, folded to the left. -/
def chain (operator? : Token.Kind → Option Operator) (operand : Reading Node)
    (shrinks : operand.Shrinks) (left : Node) (c : Cursor) : Except ParseError Node × Cursor :=
  match _h : c.ahead with
  | .failed e => (.error (.lexer e), c)
  | .finished => (.ok left, c)
  | .token t =>
    match operator? t.kind with
    | none => (.ok left, c)
    | some op =>
      match _hr : operand c.next with
      | (.error e, d) => (.error e, d)
      | (.ok right, d) => chain operator? operand shrinks (.binary op left right) d
termination_by c.unread
decreasing_by
  exact Nat.lt_of_le_of_lt (shrinks.unread_le _hr) (Cursor.unread_next_lt _h)

section Chain

variable {operator? : Token.Kind → Option Operator} {operand : Reading Node}
variable {shrinks : operand.Shrinks} {left right : Node} {c d : Cursor} {t : Token} {op : Operator}

/-- One step of a chain. Unlike the definition it keeps no facts for termination, so that its
matches can be rewritten. -/
theorem chain_eq (operator? : Token.Kind → Option Operator) (operand : Reading Node)
    (shrinks : operand.Shrinks) (left : Node) (c : Cursor) :
    chain operator? operand shrinks left c = match c.ahead with
      | .failed e => (.error (.lexer e), c)
      | .finished => (.ok left, c)
      | .token t =>
        match operator? t.kind with
        | none => (.ok left, c)
        | some op =>
          match operand c.next with
          | (.error e, d) => (.error e, d)
          | (.ok right, d) => chain operator? operand shrinks (.binary op left right) d := by
  rw [chain]
  split
  · simp only [*]
  · simp only [*]
  · simp only [*]
    split
    · simp only [*]
    · split <;> simp only [*]

/-- A failure of the lexer ends a chain. -/
theorem chain_of_failed {e : LexError} (h : c.ahead = .failed e) :
    chain operator? operand shrinks left c = (.error (.lexer e), c) := by
  rw [chain_eq, h]

/-- So does the end of the source, which leaves what was read. -/
theorem chain_of_finished (h : c.ahead = .finished) :
    chain operator? operand shrinks left c = (.ok left, c) := by
  rw [chain_eq, h]

/-- A token that is no operator is left for what comes after the chain. -/
theorem chain_of_other (h : c.ahead = .token t) (hop : operator? t.kind = none) :
    chain operator? operand shrinks left c = (.ok left, c) := by
  simp only [chain_eq _ _ _ left c, h, hop]

/-- An operator has to have an operand after it. -/
theorem chain_of_refused {e : ParseError} (h : c.ahead = .token t)
    (hop : operator? t.kind = some op) (hr : operand c.next = (.error e, d)) :
    chain operator? operand shrinks left c = (.error e, d) := by
  simp only [chain_eq _ _ _ left c, h, hop, hr]

/-- An operation is the left operand of the next one. -/
theorem chain_of_operation (h : c.ahead = .token t) (hop : operator? t.kind = some op)
    (hr : operand c.next = (.ok right, d)) :
    chain operator? operand shrinks left c =
      chain operator? operand shrinks (.binary op left right) d := by
  simp only [chain_eq _ _ _ left c, h, hop, hr]

/-- Induction along a chain: its operations come one after the other, up to a token that is no
operator, the end of the source or a failure. -/
theorem chain_induction (operator? : Token.Kind → Option Operator) (shrinks : operand.Shrinks)
    {motive : Node → Cursor → Prop}
    (failed : ∀ left c e, c.ahead = .failed e → motive left c)
    (finished : ∀ left c, c.ahead = .finished → motive left c)
    (other : ∀ left c t, c.ahead = .token t → operator? t.kind = none → motive left c)
    (refused : ∀ left c t, c.ahead = .token t → ∀ op, operator? t.kind = some op →
      ∀ e d, operand c.next = (.error e, d) → motive left c)
    (operation : ∀ left c t, c.ahead = .token t → ∀ op, operator? t.kind = some op →
      ∀ right d, operand c.next = (.ok right, d) → motive (.binary op left right) d →
        motive left c)
    (left : Node) (c : Cursor) : motive left c :=
  chain.induct operator? operand shrinks motive failed finished other refused operation left c

theorem shrinks_chain (shrinks : operand.Shrinks) (left : Node) :
    Shrinks (chain operator? operand shrinks left) := by
  intro c
  -- An operand puts nothing back, and the operator before it is gone.
  induction left, c using chain_induction operator? shrinks with
  | failed left c e h => simp only [chain_of_failed h, Nat.le_refl]
  | finished left c h => simp only [chain_of_finished h, Nat.le_refl]
  | other left c t h hop => simp only [chain_of_other h hop, Nat.le_refl]
  | refused left c t h op hop e d hr =>
    rw [chain_of_refused h hop hr]
    exact Nat.le_trans (shrinks.unread_le hr) (Nat.le_of_lt (Cursor.unread_next_lt h))
  | operation left c t h op hop right d hr ih =>
    rw [chain_of_operation h hop hr]
    have hle := Nat.le_trans (shrinks.unread_le hr) (Nat.le_of_lt (Cursor.unread_next_lt h))
    exact Nat.le_trans ih hle

end Chain

/-- The operators that bind tighter. -/
def multiplicativeOperator? : Token.Kind → Option Operator
  | .star => some .mul
  | .slash => some .div
  | _ => none

/-- The operators that bind less tightly. -/
def additiveOperator? : Token.Kind → Option Operator
  | .plus => some .add
  | .minus => some .sub
  | _ => none

/-- A chain of products and quotients. -/
def multiplicative : Reading Node := do
  chain multiplicativeOperator? primary consumes_primary.1 (← primary)

theorem consumes_multiplicative : Consumes multiplicative :=
  consumes_primary.bind fun _ => shrinks_chain _ _

/-- A chain of sums and differences. -/
def additive : Reading Node := do
  chain additiveOperator? multiplicative consumes_multiplicative.1 (← multiplicative)

theorem consumes_additive : Consumes additive :=
  consumes_multiplicative.bind fun _ => shrinks_chain _ _

/-- An expression, possibly assigned to the one before it. -/
def assignment (c : Cursor) : Except ParseError Node × Cursor :=
  match _hl : additive c with
  | (.error e, d) => (.error e, d)
  | (.ok left, d) =>
    match _h : d.ahead with
    | .failed e => (.error (.lexer e), d)
    | .finished => (.ok left, d)
    | .token t =>
      if t.kind = .equals then
        match assignment d.next with
        | (.error e, f) => (.error e, f)
        | (.ok value, f) => (.ok (.assignment left value), f)
      else (.ok left, d)
termination_by c.unread
decreasing_by
  exact Nat.lt_of_lt_of_le (Cursor.unread_next_lt _h) (consumes_additive.1.unread_le _hl)

section Assignment

variable {c d f : Cursor} {left value : Node} {t : Token}

/-- One step of an assignment, without facts for termination. -/
theorem assignment_eq (c : Cursor) :
    assignment c = match additive c with
      | (.error e, d) => (.error e, d)
      | (.ok left, d) =>
        match d.ahead with
        | .failed e => (.error (.lexer e), d)
        | .finished => (.ok left, d)
        | .token t =>
          if t.kind = .equals then
            match assignment d.next with
            | (.error e, f) => (.error e, f)
            | (.ok value, f) => (.ok (.assignment left value), f)
          else (.ok left, d) := by
  rw [assignment]
  split
  · simp only [*]
  · simp only [*]
    split
    · simp only [*]
    · simp only [*]
    · simp only [*]

/-- An assignment is refused with its first expression. -/
theorem assignment_of_refused {e : ParseError} (hl : additive c = (.error e, d)) :
    assignment c = (.error e, d) := by
  rw [assignment_eq, hl]

theorem assignment_of_failed {e : LexError} (hl : additive c = (.ok left, d))
    (h : d.ahead = .failed e) : assignment c = (.error (.lexer e), d) := by
  simp only [assignment_eq c, hl, h]

theorem assignment_of_finished (hl : additive c = (.ok left, d)) (h : d.ahead = .finished) :
    assignment c = (.ok left, d) := by
  simp only [assignment_eq c, hl, h]

/-- An equals sign has to have a value after it. -/
theorem assignment_of_valueRefused {e : ParseError} (hl : additive c = (.ok left, d))
    (h : d.ahead = .token t) (hk : t.kind = .equals) (hv : assignment d.next = (.error e, f)) :
    assignment c = (.error e, f) := by
  simp only [assignment_eq c, hl, h, hk, if_true, hv]

/-- The value of an assignment may be another assignment. -/
theorem assignment_of_assigned (hl : additive c = (.ok left, d)) (h : d.ahead = .token t)
    (hk : t.kind = .equals) (hv : assignment d.next = (.ok value, f)) :
    assignment c = (.ok (.assignment left value), f) := by
  simp only [assignment_eq c, hl, h, hk, if_true, hv]

/-- Without an equals sign the expression stands for itself. -/
theorem assignment_of_other (hl : additive c = (.ok left, d)) (h : d.ahead = .token t)
    (hk : t.kind ≠ .equals) : assignment c = (.ok left, d) := by
  simp only [assignment_eq c, hl, h, hk, if_false]

/-- Induction along assignments in one another: after an expression comes an equals sign with the
value, any other token, the end of the source or a failure. -/
theorem assignment_induction {motive : Cursor → Prop}
    (refused : ∀ c e d, additive c = (.error e, d) → motive c)
    (failed : ∀ c left d, additive c = (.ok left, d) → ∀ e, d.ahead = .failed e → motive c)
    (finished : ∀ c left d, additive c = (.ok left, d) → d.ahead = .finished → motive c)
    (valueRefused : ∀ c left d, additive c = (.ok left, d) → ∀ t, d.ahead = .token t →
      t.kind = .equals → ∀ e f, assignment d.next = (.error e, f) → motive d.next → motive c)
    (assigned : ∀ c left d, additive c = (.ok left, d) → ∀ t, d.ahead = .token t →
      t.kind = .equals → ∀ value f, assignment d.next = (.ok value, f) → motive d.next → motive c)
    (other : ∀ c left d, additive c = (.ok left, d) → ∀ t, d.ahead = .token t →
      t.kind ≠ .equals → motive c)
    (c : Cursor) : motive c :=
  assignment.induct motive refused failed finished valueRefused assigned other c

/-- An assignment takes the tokens of its first expression at least. -/
theorem consumes_assignment : Consumes assignment := by
  suffices h : ∀ c, (assignment c).2.unread ≤ c.unread ∧
      ∀ a, (assignment c).1 = .ok a → (assignment c).2.unread < c.unread from
    ⟨fun c => (h c).1, fun c => (h c).2⟩
  intro c
  induction c using assignment_induction with
  | refused c e d hl =>
    rw [assignment_of_refused hl]
    exact ⟨consumes_additive.1.unread_le hl, nofun⟩
  | failed c left d hl e h =>
    rw [assignment_of_failed hl h]
    exact ⟨Nat.le_of_lt (consumes_additive.unread_lt hl), nofun⟩
  | finished c left d hl h =>
    rw [assignment_of_finished hl h]
    exact ⟨Nat.le_of_lt (consumes_additive.unread_lt hl), fun _ _ => consumes_additive.unread_lt hl⟩
  | valueRefused c left d hl t h hk e f hv ih =>
    rw [assignment_of_valueRefused hl h hk hv]
    rw [hv] at ih
    have hlt := Nat.lt_trans (Cursor.unread_next_lt h) (consumes_additive.unread_lt hl)
    exact ⟨Nat.le_trans ih.1 (Nat.le_of_lt hlt), nofun⟩
  | assigned c left d hl t h hk value f hv ih =>
    rw [assignment_of_assigned hl h hk hv]
    rw [hv] at ih
    have hlt := Nat.lt_trans (Cursor.unread_next_lt h) (consumes_additive.unread_lt hl)
    have hlt' := Nat.lt_of_le_of_lt ih.1 hlt
    exact ⟨Nat.le_of_lt hlt', fun _ _ => hlt'⟩
  | other c left d hl t h hk =>
    rw [assignment_of_other hl h hk]
    exact ⟨Nat.le_of_lt (consumes_additive.unread_lt hl), fun _ _ => consumes_additive.unread_lt hl⟩

end Assignment

/-- Any expression. -/
def expression : Reading Node := assignment

/-- The declaration that starts with the token ahead. -/
def declaration : Reading Node := do
  let keyword ← advance
  if ← sees (· = .identifier) then
    let name ← advance
    if ← sees (· = .semicolon) then
      if keyword.kind = .constKeyword then fail (.valueMissing name.text)
      else
        let _ ← advance
        return .declaration (.text name.text) false .null
    else if ← sees (· = .equals) then
      let _ ← advance
      let initializer ← expression
      if ← sees (· = .semicolon) then
        let _ ← advance
        return .declaration (.text name.text) (keyword.kind = .constKeyword) initializer
      else fail (.semicolonMissing name.text)
    else fail (.equalsMissing name.text)
  else fail (.nameMissing keyword.text)

theorem consumes_declaration : Consumes declaration := by
  refine consumes_advance.bind fun keyword => (shrinks_sees _).bind fun _ => .ite ?_ ?_
  · refine consumes_advance.1.bind fun name => (shrinks_sees _).bind fun _ => .ite ?_ ?_
    · exact .ite (shrinks_fail _) (consumes_advance.1.bind fun _ => shrinks_pure _)
    · refine (shrinks_sees _).bind fun _ => .ite ?_ (shrinks_fail _)
      refine consumes_advance.1.bind fun _ => consumes_assignment.1.bind fun _ => ?_
      exact (shrinks_sees _).bind fun _ =>
        .ite (consumes_advance.1.bind fun _ => shrinks_pure _) (shrinks_fail _)
  · exact shrinks_fail _

/-- A declaration, or an expression and the semicolon that may follow it. -/
def statement : Reading Node := do
  if ← sees fun k => k = .letKeyword || k = .constKeyword then declaration
  else
    let node ← expression
    if ← sees (· = .semicolon) then
      let _ ← advance
      return node
    else return node

theorem consumes_statement : Consumes statement := by
  refine (shrinks_sees _).bind_consumes fun _ => .ite consumes_declaration ?_
  refine consumes_assignment.bind fun _ => (shrinks_sees _).bind fun _ => .ite ?_ ?_
  · exact consumes_advance.1.bind fun _ => shrinks_pure _
  · exact shrinks_pure _

/-- Statements up to the end of the source. -/
def program (c : Cursor) : Except ParseError Program × Cursor :=
  match c.ahead with
  | .failed e => (.error (.lexer e), c)
  | .finished => (.ok [], c)
  | .token _ =>
    match _hs : statement c with
    | (.error e, d) => (.error e, d)
    | (.ok node, d) =>
      match program d with
      | (.error e, f) => (.error e, f)
      | (.ok rest, f) => (.ok (node :: rest), f)
termination_by c.unread
decreasing_by
  exact consumes_statement.unread_lt _hs

section Program

variable {c d f : Cursor} {node : Node} {rest : Program} {t : Token}

/-- One step of a program, without facts for termination. -/
theorem program_eq (c : Cursor) :
    program c = match c.ahead with
      | .failed e => (.error (.lexer e), c)
      | .finished => (.ok [], c)
      | .token _ =>
        match statement c with
        | (.error e, d) => (.error e, d)
        | (.ok node, d) =>
          match program d with
          | (.error e, f) => (.error e, f)
          | (.ok rest, f) => (.ok (node :: rest), f) := by
  rw [program]
  split
  · simp only [*]
  · simp only [*]
  · split
    · simp only [*]
    · simp only [*]

theorem program_of_failed {e : LexError} (h : c.ahead = .failed e) :
    program c = (.error (.lexer e), c) := by
  rw [program_eq, h]

/-- A program may have no statements. -/
theorem program_of_finished (h : c.ahead = .finished) : program c = (.ok [], c) := by
  rw [program_eq, h]

/-- A statement that is refused ends the program. -/
theorem program_of_refused {e : ParseError} (h : c.ahead = .token t)
    (hs : statement c = (.error e, d)) : program c = (.error e, d) := by
  simp only [program_eq c, h, hs]

/-- So does one that comes later, and the statements before it are lost. -/
theorem program_of_restRefused {e : ParseError} (h : c.ahead = .token t)
    (hs : statement c = (.ok node, d)) (hrest : program d = (.error e, f)) :
    program c = (.error e, f) := by
  simp only [program_eq c, h, hs, hrest]

/-- Statements follow one another. -/
theorem program_of_more (h : c.ahead = .token t) (hs : statement c = (.ok node, d))
    (hrest : program d = (.ok rest, f)) : program c = (.ok (node :: rest), f) := by
  simp only [program_eq c, h, hs, hrest]

/-- Induction along a program: its statements come one after the other, up to the end of the source
or a failure. -/
theorem program_induction {motive : Cursor → Prop}
    (failed : ∀ c e, c.ahead = .failed e → motive c)
    (finished : ∀ c, c.ahead = .finished → motive c)
    (refused : ∀ c t, c.ahead = .token t → ∀ e d, statement c = (.error e, d) → motive c)
    (restRefused : ∀ c t, c.ahead = .token t → ∀ node d, statement c = (.ok node, d) →
      ∀ e f, program d = (.error e, f) → motive d → motive c)
    (more : ∀ c t, c.ahead = .token t → ∀ node d, statement c = (.ok node, d) →
      ∀ rest f, program d = (.ok rest, f) → motive d → motive c)
    (c : Cursor) : motive c :=
  program.induct motive failed finished refused restRefused more c

end Program

end Reading

/-- The program that a source text writes. -/
def Program.parse (source : String) : Except ParseError Program :=
  (Reading.program (.ofSource source)).1

end LetCalc
