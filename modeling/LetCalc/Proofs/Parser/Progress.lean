import LetCalc.Proofs.Parser.Correctness
import LetCalc.Proofs.Parser.Failures
import LetCalc.Proofs.Parser.Respacing

/-!
# Progress

A parser only moves forward. Every rule but that of the whole program takes at least one token when
it succeeds, and no rule puts a token back, also when it fails. That is why parsing ends: a loop of
a rule takes a token in each turn, and a rule that calls itself has taken one before it does.

The rules are defined by recursion, without a limit to it. To say how soon they end, their loops are
written here with a number of turns after which they are given up, and the rule that calls itself
with a number of calls. One more than there are tokens left is always enough.

* `Cursor.Taken`: one cursor is the other after some tokens.
* `Reading.Consumes.length_upcoming_lt`: a rule that succeeds leaves fewer tokens.
* `Reading.endsWithin_loop`: a loop whose turns take tokens comes to an end.
* `Reading.endsWithin_multiplicative`, `Reading.endsWithin_additive`,
  `Reading.endsWithin_assignment`, `Reading.endsWithin_program`: so do the rules.
* `Parser.rules_make_progress`: all of it, for a parser at any cursor.
-/

namespace LetCalc

open Relation (ReflTransGen)

/-! ## Tokens that are taken -/

namespace Cursor

/-- The second cursor is the first one after the given tokens, which were the next ones. -/
structure Taken (c : Cursor) (taken : List Token) (d : Cursor) : Prop where
  upcoming : c.upcoming = taken ++ d.upcoming
  cursor : d = next^[taken.length] c

/-- Steps of a cursor are tokens that are taken. -/
theorem exists_taken {c d : Cursor} (h : ReflTransGen Step c d) : ∃ taken, Taken c taken d := by
  induction h using ReflTransGen.head_induction_on with
  | refl => exact ⟨[], rfl, rfl⟩
  | head hstep _ ih =>
    obtain ⟨t, ht, rfl⟩ := hstep
    obtain ⟨taken, hupcoming, hcursor⟩ := ih
    refine ⟨t :: taken, ?_, hcursor⟩
    rw [upcoming_of_token ht, hupcoming, List.cons_append]

theorem length_upcoming_next_lt {c : Cursor} {t : Token} (h : c.ahead = .token t) :
    c.next.upcoming.length < c.upcoming.length := by
  rw [upcoming_of_token h, List.length_cons]
  exact Nat.lt_succ_self _

end Cursor

namespace Reading

variable {α σ : Type}

theorem Points.exists_taken {r : Reading α} (hr : r.Points) {c d : Cursor}
    {result : Except ParseError α} (h : r c = (result, d)) : ∃ taken, c.Taken taken d :=
  Cursor.exists_taken (hr.of_eq h).steps

/-- No rule puts a token back. -/
theorem Points.length_upcoming_le {r : Reading α} (hr : r.Points) {c d : Cursor}
    {result : Except ParseError α} (h : r c = (result, d)) :
    d.upcoming.length ≤ c.upcoming.length := by
  obtain ⟨taken, htaken⟩ := hr.exists_taken h
  rw [htaken.upcoming, List.length_append]
  exact Nat.le_add_left _ _

/-- A success takes a token: without one taken, the cursor would be where it was. -/
theorem Consumes.ne_nil_of_taken {r : Reading α} (hr : r.Consumes) {c d : Cursor} {a : α}
    (h : r c = (.ok a, d)) {taken : List Token} (htaken : c.Taken taken d) : taken ≠ [] := by
  rintro rfl
  have hlt := hr.2 c a (by rw [h])
  rw [h, htaken.cursor] at hlt
  exact Nat.lt_irrefl _ hlt

/-- A rule that succeeds leaves fewer tokens. -/
theorem Consumes.length_upcoming_lt {r : Reading α} (hr : r.Consumes) (hpoints : r.Points)
    {c d : Cursor} {a : α} (h : r c = (.ok a, d)) : d.upcoming.length < c.upcoming.length := by
  obtain ⟨taken, htaken⟩ := hpoints.exists_taken h
  have hpos := List.length_pos_of_ne_nil (hr.ne_nil_of_taken h htaken)
  rw [htaken.upcoming, List.length_append]
  exact Nat.lt_add_of_pos_left hpos

/-! ## Loops -/

/-- A loop that is given up after some turns. A turn ends the loop with a result, or it says what
the next turn starts with. -/
def loop (turn : σ → Reading (α ⊕ σ)) : Nat → σ → Reading (Option α)
  | 0, _ => return none
  | n + 1, s => do
    match ← turn s with
    | .inl a => return some a
    | .inr s => loop turn n s

/-- The computations repeat a turn without a limit, each from what it starts with. -/
def RepeatsTurn (turn : σ → Reading (α ⊕ σ)) (f : σ → Reading α) : Prop :=
  ∀ s c, f s c = match turn s c with
    | (.error e, d) => (.error e, d)
    | (.ok (.inl a), d) => (.ok a, d)
    | (.ok (.inr s), d) => f s d

/-- Every turn but the last leaves fewer tokens. -/
def TakesTokens (turn : σ → Reading (α ⊕ σ)) : Prop :=
  ∀ s s' c d, turn s c = (.ok (.inr s'), d) → d.upcoming.length < c.upcoming.length

/-- With a limit above the number of tokens left, a rule that may be given up is not, and does what
another one does that has no limit. -/
def EndsWithin (limited : Nat → Reading (Option α)) (r : Reading α) : Prop :=
  ∀ n c, c.upcoming.length < n → limited n c = (some <$> r) c

/-- A loop whose turns take tokens comes to an end. -/
theorem endsWithin_loop {turn : σ → Reading (α ⊕ σ)} {f : σ → Reading α} (hturn : TakesTokens turn)
    (hf : RepeatsTurn turn f) (s : σ) : EndsWithin (fun n => loop turn n s) (f s) := by
  intro n c h
  induction n generalizing s c with
  | zero => exact absurd h (Nat.not_lt_zero _)
  | succ n ih =>
    show loop turn (n + 1) s c = _
    rw [loop, map_apply, bind_apply, hf]
    rcases hs : turn s c with ⟨e | a | s', d⟩
    · rfl
    · rfl
    · -- The turn took a token, so that one turn less is enough for the tokens that are left.
      have hlt := hturn s s' c d hs
      have hrest := ih s' d (by omega)
      rwa [map_apply] at hrest

/-- So does a loop that starts with what a rule gives. -/
theorem EndsWithin.bind {first : Reading σ} {limited : σ → Nat → Reading (Option α)}
    {f : σ → Reading α} (hfirst : first.Points) (hf : ∀ s, EndsWithin (limited s) (f s)) :
    EndsWithin (fun n => first >>= fun s => limited s n) (first >>= f) := by
  intro n c h
  show (first >>= fun s => limited s n) c = _
  rw [map_apply, bind_apply, bind_apply]
  rcases hs : first c with ⟨e | s, d⟩
  · rfl
  · -- The first rule puts nothing back, so that the limit is still above what is left.
    have hle := hfirst.length_upcoming_le hs
    have hrest := hf s n d (by omega)
    rwa [map_apply] at hrest

/-! ## The rules -/

/-- A turn of the loop of a chain: the operator ahead and the operand after it, unless there is
none. -/
def chainTurn (operator? : Token.Kind → Option Operator) (operand : Reading Node) (left : Node) :
    Reading (Node ⊕ Node) := do
  match (← peek).bind (operator? ·.kind) with
  | none => return .inl left
  | some op =>
    let _ ← advance
    return .inr (.binary op left (← operand))

/-- A turn of the loop of a program: one more statement, unless the source is at its end. -/
def programTurn (statements : Program) : Reading (Program ⊕ Program) := do
  if (← peek).isSome then return .inr (statements ++ [← statement])
  else return .inl statements

/-- A product, given up after some operators. -/
def multiplicativeWithin (n : Nat) : Reading (Option Node) := do
  loop (chainTurn multiplicativeOperator? primary) n (← primary)

/-- A sum, given up after some operators. -/
def additiveWithin (n : Nat) : Reading (Option Node) := do
  loop (chainTurn additiveOperator? multiplicative) n (← multiplicative)

/-- An assignment, given up after some calls of the rule. -/
def assignmentWithin : Nat → Reading (Option Node)
  | 0 => return none
  | n + 1 => do
    let left ← additive
    if ← sees (· = .equals) then
      let _ ← advance
      return (← assignmentWithin n).map (.assignment left)
    else return some left

/-- A program, given up after some statements. -/
def programWithin (n : Nat) : Reading (Option Program) := loop programTurn n []

theorem advance_bind_apply {f : Token → Reading α} {c : Cursor} {t : Token}
    (h : c.ahead = .token t) : (advance >>= f) c = f t c.next := by
  rw [bind_apply, advance, h]

section Chains

variable {operator? : Token.Kind → Option Operator} {operand : Reading Node}

theorem chainTurn_apply (left : Node) (c : Cursor) :
    chainTurn operator? operand left c = match c.ahead with
      | .failed e => (.error (.lexer e), c)
      | .finished => (.ok (.inl left), c)
      | .token t =>
        match operator? t.kind with
        | none => (.ok (.inl left), c)
        | some op =>
          ((operand c.next).1.map fun right => .inr (.binary op left right),
            (operand c.next).2) := by
  rw [chainTurn, bind_apply, peek]
  cases h : c.ahead with
  | failed e => rfl
  | finished => rfl
  | token t =>
    cases hop : operator? t.kind with
    | none =>
      simp only [Option.bind_some, hop]
      rfl
    | some op =>
      simp only [Option.bind_some, hop]
      rw [advance_bind_apply h, bind_apply]
      rcases operand c.next with ⟨e | right, d⟩ <;> rfl

/-- Each turn of a chain takes its operator. -/
theorem takesTokens_chainTurn (hoperand : operand.Points) :
    TakesTokens (chainTurn operator? operand) := by
  intro left left' c d h
  rw [chainTurn_apply] at h
  split at h
  · cases h
  · cases h
  · rename_i t ht
    have hlt := Cursor.length_upcoming_next_lt ht
    split at h
    · cases h
    · -- The operator is gone, whether or not the operand takes a token too.
      have hle := hoperand.length_upcoming_le (c := c.next) rfl
      have hd : (operand c.next).2 = d := congrArg Prod.snd h
      rw [hd] at hle
      omega

/-- A chain repeats its turn. -/
theorem repeatsTurn_chain (shrinks : operand.Shrinks) :
    RepeatsTurn (chainTurn operator? operand) (chain operator? operand shrinks) := by
  intro left c
  rw [chainTurn_apply, chain_eq]
  cases c.ahead with
  | failed e => rfl
  | finished => rfl
  | token t =>
    dsimp only
    cases operator? t.kind with
    | none => rfl
    | some op => rcases operand c.next with ⟨e | right, d⟩ <;> rfl

end Chains

/-- The loop of a product ends within the tokens that are left. -/
theorem endsWithin_multiplicative : EndsWithin multiplicativeWithin multiplicative :=
  .bind points_primary
    (endsWithin_loop (takesTokens_chainTurn points_primary) (repeatsTurn_chain consumes_primary.1))

/-- So does that of a sum. -/
theorem endsWithin_additive : EndsWithin additiveWithin additive :=
  .bind points_multiplicative
    (endsWithin_loop (takesTokens_chainTurn points_multiplicative)
      (repeatsTurn_chain consumes_multiplicative.1))

/-- The rule calls itself only after an operand and an equals sign. -/
theorem length_upcoming_lt_of_additive {c d : Cursor} {left : Node} {t : Token}
    (h : additive c = (.ok left, d)) (ht : d.ahead = .token t) :
    d.next.upcoming.length < c.upcoming.length :=
  (Cursor.length_upcoming_next_lt ht).trans
    (consumes_additive.length_upcoming_lt points_additive h)

theorem assignmentWithin_succ_apply (n : Nat) (c : Cursor) :
    assignmentWithin (n + 1) c = match additive c with
      | (.error e, d) => (.error e, d)
      | (.ok left, d) =>
        match d.ahead with
        | .failed e => (.error (.lexer e), d)
        | .finished => (.ok (some left), d)
        | .token t =>
          if t.kind = .equals then
            ((assignmentWithin n d.next).1.map (Option.map (.assignment left)),
              (assignmentWithin n d.next).2)
          else (.ok (some left), d) := by
  rw [assignmentWithin, bind_apply]
  rcases additive c with ⟨e | left, d⟩
  · rfl
  · dsimp only
    rw [bind_apply, sees_apply, peek]
    cases ht : d.ahead with
    | failed e => rfl
    | finished => rfl
    | token t =>
      by_cases hequals : t.kind = .equals
      · simp only [Except.map, Option.any_some, hequals, decide_true, if_true]
        rw [advance_bind_apply ht, bind_apply]
        rcases assignmentWithin n d.next with ⟨e | node, f⟩ <;> rfl
      · simp only [Except.map, Option.any_some, hequals, decide_false, if_false]
        rfl

/-- Assignments are in one another at most as often as there are tokens. -/
theorem endsWithin_assignment : EndsWithin assignmentWithin assignment := by
  intro n c h
  induction n generalizing c with
  | zero => exact absurd h (Nat.not_lt_zero _)
  | succ n ih =>
    rw [assignmentWithin_succ_apply, map_apply, assignment_eq]
    rcases hl : additive c with ⟨e | left, d⟩
    · rfl
    · dsimp only
      cases ht : d.ahead with
      | failed e => rfl
      | finished => rfl
      | token t =>
        have hlt := length_upcoming_lt_of_additive hl ht
        have hrest := ih d.next (by omega)
        rw [map_apply] at hrest
        dsimp only
        rw [hrest]
        split
        · rcases assignment d.next with ⟨e | value, f⟩ <;> rfl
        · rfl

theorem programTurn_apply (statements : Program) (c : Cursor) :
    programTurn statements c = match c.ahead with
      | .failed e => (.error (.lexer e), c)
      | .finished => (.ok (.inl statements), c)
      | .token _ =>
        ((statement c).1.map fun node => .inr (statements ++ [node]), (statement c).2) := by
  rw [programTurn, bind_apply, peek]
  cases c.ahead with
  | failed e => rfl
  | finished => rfl
  | token t =>
    show (statement >>= _) c = _
    rw [bind_apply]
    rcases statement c with ⟨e | node, d⟩ <;> rfl

/-- Each turn of a program takes a statement. -/
theorem takesTokens_programTurn : TakesTokens programTurn := by
  intro statements statements' c d h
  rw [programTurn_apply] at h
  split at h
  · cases h
  · cases h
  · rcases hs : statement c with ⟨e | node, f⟩
    · rw [hs] at h
      cases h
    · have hlt := consumes_statement.length_upcoming_lt points_statement hs
      rw [hs] at h
      cases h
      exact hlt

/-- The turns put the statements after those that are there already. -/
theorem repeatsTurn_program :
    RepeatsTurn programTurn fun statements =>
      (statements ++ ·) <$> (program : Reading Program) := by
  intro statements c
  dsimp only
  rw [programTurn_apply, map_apply, program_eq]
  cases c.ahead with
  | failed e => rfl
  | finished => simp [Except.map]
  | token t =>
    dsimp only
    rcases statement c with ⟨e | node, d⟩
    · rfl
    · simp only [Except.map]
      rw [map_apply]
      rcases program d with ⟨e | rest, f⟩
      · rfl
      · simp [Except.map]

/-- A program has at most as many statements as there are tokens. -/
theorem endsWithin_program : EndsWithin programWithin program := by
  intro n c h
  have hloop := endsWithin_loop takesTokens_programTurn repeatsTurn_program [] n c h
  simp only [List.nil_append, id_map'] at hloop
  exact hloop

/-- Each statement of a program takes a token of its own. -/
theorem length_program_le {c d : Cursor} {statements : Program}
    (h : program c = (.ok statements, d)) :
    statements.length + d.upcoming.length ≤ c.upcoming.length := by
  induction c using program_induction generalizing statements d with
  | failed c e hc =>
    rw [program_of_failed hc] at h
    cases h
  | finished c hc =>
    rw [program_of_finished hc] at h
    cases h
    exact (Nat.zero_add _).le
  | refused c t hc e d hs =>
    rw [program_of_refused hc hs] at h
    cases h
  | restRefused c t hc node d hs e f hrest ih =>
    rw [program_of_restRefused hc hs hrest] at h
    cases h
  | more c t hc node e hs rest f hrest ih =>
    -- The first statement took a token, and the others come from what it left.
    have hlt := consumes_statement.length_upcoming_lt points_statement hs
    have hle := ih hrest
    rw [program_of_more hc hs hrest] at h
    cases h
    rw [List.length_cons]
    omega

end Reading

/-! ## Parsers -/

theorem Program.length_le_of_parse {source : String} {program : Program}
    (h : parse source = .ok program) :
    ∃ ts, Lexer.tokenize source = .ok ts ∧ program.length ≤ ts.length := by
  obtain ⟨ts, hts, -⟩ := exists_statements_of_parse h
  have hle := Reading.length_program_le (Prod.ext h rfl)
  rw [Cursor.upcoming_ofSource, Lexer.tokenize_eq_ok_iff.1 hts] at hle
  exact ⟨ts, hts, (Nat.le_add_right _ _).trans hle⟩

namespace Parser

/-- Only the whole program may be read without taking a token. -/
theorem Rule.consumes_reading {rule : Rule} (h : rule ≠ .program) : rule.reading.Consumes := by
  cases rule with
  | program => exact absurd rfl h
  | statement => exact Reading.consumes_statement
  | declaration => exact Reading.consumes_declaration
  | expression => exact Reading.consumes_assignment
  | assignment => exact Reading.consumes_assignment
  | additive => exact Reading.consumes_additive
  | multiplicative => exact Reading.consumes_multiplicative
  | primary => exact Reading.consumes_primary

theorem reading_of_call_ok {p : Parser} {rule : Rule} {node : Node}
    (h : (p.call rule).1 = .ok node) :
    rule.reading p.cursor = (.ok node, (p.call rule).2.cursor) := by
  rw [call_eq_ite] at h ⊢
  split at h
  · cases h
  · rename_i hagain
    rw [if_neg hagain]
    refine Prod.ext ?_ rfl
    cases hr : (rule.reading p.cursor).1 with
    | error e => simp [hr, Except.mapError] at h
    | ok found => simpa [hr, Except.mapError] using h

/-- A parser only moves forward, wherever it stands. What a rule takes are the next tokens, none is
put back, and a rule that gives a node takes at least one, unless it is that of the whole program.
So the loops of products, sums and programs leave fewer tokens with each turn, and an assignment
with each call of itself. None of them is given up with a limit above the number of tokens left.
A program has at most as many statements as its source has tokens. -/
theorem rules_make_progress :
    (∀ (p : Parser) (rule : Rule), ∃ taken, p.cursor.Taken taken (p.call rule).2.cursor ∧
        (rule ≠ .program → ∀ node, (p.call rule).1 = .ok node → taken ≠ [])) ∧
      (Reading.TakesTokens (Reading.chainTurn Reading.multiplicativeOperator? Reading.primary) ∧
        Reading.TakesTokens (Reading.chainTurn Reading.additiveOperator? Reading.multiplicative) ∧
        Reading.TakesTokens Reading.programTurn ∧
        ∀ c d left t, Reading.additive c = (.ok left, d) → d.ahead = .token t →
          d.next.upcoming.length < c.upcoming.length) ∧
      (Reading.EndsWithin Reading.multiplicativeWithin Reading.multiplicative ∧
        Reading.EndsWithin Reading.additiveWithin Reading.additive ∧
        Reading.EndsWithin Reading.assignmentWithin Reading.assignment ∧
        Reading.EndsWithin Reading.programWithin Reading.program) ∧
      ∀ source program, Program.parse source = .ok program →
        ∃ ts, Lexer.tokenize source = .ok ts ∧ program.length ≤ ts.length := by
  refine ⟨fun p rule => ?_, ⟨?_, ?_, ?_, ?_⟩, ⟨?_, ?_, ?_, ?_⟩, ?_⟩
  · obtain ⟨taken, htaken⟩ := Cursor.exists_taken (steps_call p rule)
    refine ⟨taken, htaken, fun hrule node hnode => ?_⟩
    exact (Rule.consumes_reading hrule).ne_nil_of_taken (reading_of_call_ok hnode) htaken
  · exact Reading.takesTokens_chainTurn Reading.points_primary
  · exact Reading.takesTokens_chainTurn Reading.points_multiplicative
  · exact Reading.takesTokens_programTurn
  · exact fun c d left t => Reading.length_upcoming_lt_of_additive
  · exact Reading.endsWithin_multiplicative
  · exact Reading.endsWithin_additive
  · exact Reading.endsWithin_assignment
  · exact Reading.endsWithin_program
  · exact fun source program => Program.length_le_of_parse

/-- Assignments in one another, with a numeral after them that is a statement of its own. -/
theorem rules_make_progress_nested :
    let source := "x = y = 2 * 3 - 1 4"
    let c := Cursor.ofSource source
    (∃ taken, c.Taken taken ((ofSource source).call .statement).2.cursor ∧ taken ≠ []) ∧
      (∃ statements d, Reading.programTurn [] c = (.ok (.inr statements), d) ∧
        d.upcoming.length < c.upcoming.length) ∧
      (∃ left d, Reading.additive c = (.ok left, d) ∧
        d.ahead = .token ⟨.equals, "=", ⟨2, 1, 3⟩⟩ ∧
        d.next.upcoming.length < c.upcoming.length) ∧
      Reading.assignmentWithin 11 c = (some <$> Reading.assignment : Reading _) c ∧
      ∃ program ts, Program.parse source = .ok program ∧ Lexer.tokenize source = .ok ts ∧
        program.length ≤ ts.length := by
  intro source c
  obtain ⟨htaken, ⟨-, -, hturn, hcall⟩, ⟨-, -, hends, -⟩, hlength⟩ := rules_make_progress
  refine ⟨?_, ?_, ?_, ?_, ?_⟩
  · obtain ⟨taken, htaken, hne⟩ := htaken (ofSource source) .statement
    have hok : ((ofSource source).call .statement).1.isOk = true := by decide +kernel
    cases hnode : ((ofSource source).call .statement).1 with
    | error e => simp [hnode, Except.isOk, Except.toBool] at hok
    | ok node => exact ⟨taken, htaken, hne (by decide) node hnode⟩
  · have hmore : (Reading.programTurn [] c).1.toOption.any Sum.isRight = true := by decide +kernel
    rcases h : Reading.programTurn [] c with ⟨e | found | statements, d⟩
    · simp [h, Except.toOption] at hmore
    · simp [h, Except.toOption] at hmore
    · exact ⟨statements, d, rfl, hturn [] statements c d h⟩
  · have hok : (Reading.additive c).1.isOk = true := by decide +kernel
    have hequals : (Reading.additive c).2.ahead = .token ⟨.equals, "=", ⟨2, 1, 3⟩⟩ := by
      decide +kernel
    rcases h : Reading.additive c with ⟨e | left, d⟩
    · simp [h, Except.isOk, Except.toBool] at hok
    · rw [h] at hequals
      exact ⟨left, d, rfl, hequals, hcall c d left _ h hequals⟩
  · exact hends 11 c (by decide +kernel)
  · obtain ⟨program, hprogram⟩ :=
      exists_of_isOk_parse (show (Program.parse source).isOk = true by decide +kernel)
    obtain ⟨ts, hts, hle⟩ := hlength source program hprogram
    exact ⟨program, ts, hprogram, hts, hle⟩

end Parser

end LetCalc
