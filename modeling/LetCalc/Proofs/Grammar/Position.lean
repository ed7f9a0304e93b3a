import LetCalc.Proofs.Grammar

/-!
# Positions between the tokens of a program

The grammar has no brackets, so that finitely many positions suffice to say what may come next.
`Position.next` is the table of moves from one token to the next. It is tied to the grammar through
`Position.Completes`, the token sequences that complete a program from a position:

* `Position.completes_cons_iff`: a sequence completes a program exactly if its first token is a move
  and the others complete a program from there.
* `viable_iff`: tokens can be extended to a program exactly if every one of them is a move.
* `isProgram_iff`: they are a program exactly if the moves end in a final position.

The first of these rests on expressions being right-linear (`RightLinear`): an operand either ends
an expression, or is followed by an operator and an expression again. Which tree that makes of them
does not matter here.
-/

namespace LetCalc

namespace Grammar

/-- The tokens are a program. -/
def IsProgram (ts : List Token) : Prop := ∃ program, Statements ts program

/-- The tokens can be extended to a program. -/
def Viable (ts : List Token) : Prop := ∃ us, IsProgram (ts ++ us)

/-- A position between two tokens. -/
inductive Position where
  /-- Between statements. -/
  | start
  /-- After the keyword of a declaration. -/
  | keyword (isConst : Bool)
  /-- After the name in a declaration. -/
  | name (isConst : Bool)
  /-- Before an operand, in a declaration or in a statement of its own. -/
  | operand (declares : Bool)
  /-- After an operand, in a declaration or in a statement of its own. -/
  | operator (declares : Bool)
deriving DecidableEq, Repr

namespace Position

/-- The move at the start of a statement. -/
def first : Token.Kind → Option Position
  | .letKeyword => some (.keyword false)
  | .constKeyword => some (.keyword true)
  | .number _ => some (.operator false)
  | .identifier => some (.operator false)
  | _ => none

/-- The move that a token makes. -/
def next : Position → Token.Kind → Option Position
  | .start, k => first k
  | .keyword isConst, .identifier => some (.name isConst)
  | .name _, .equals => some (.operand true)
  | .name false, .semicolon => some .start
  | .operand declares, .number _ => some (.operator declares)
  | .operand declares, .identifier => some (.operator declares)
  | .operator declares, .star => some (.operand declares)
  | .operator declares, .slash => some (.operand declares)
  | .operator declares, .plus => some (.operand declares)
  | .operator declares, .minus => some (.operand declares)
  | .operator declares, .equals => some (.operand declares)
  | .operator _, .semicolon => some .start
  -- An expression that is a statement may end without a semicolon.
  | .operator false, k => first k
  | _, _ => none

/-- The moves that tokens make in turn. -/
def run (p : Position) (ts : List Token) : Option Position :=
  ts.foldlM (fun p t => p.next t.kind) p

/-- Whether a program may end here. -/
def isFinal : Position → Bool
  | .start => true
  | .operator false => true
  | _ => false

@[simp]
theorem run_nil (p : Position) : p.run [] = some p := rfl

@[simp]
theorem run_cons (p : Position) (t : Token) (ts : List Token) :
    p.run (t :: ts) = (p.next t.kind).bind (·.run ts) := rfl

theorem run_append (p : Position) (ts us : List Token) :
    p.run (ts ++ us) = (p.run ts).bind (·.run us) := by
  induction ts generalizing p with
  | nil => rfl
  | cons t ts ih =>
    simp only [List.cons_append, run_cons]
    cases p.next t.kind with
    | none => rfl
    | some q => exact ih q

theorem next_keyword {p : Position} {k : Token.Kind} {isConst : Bool} :
    (keyword isConst).next k = some p ↔ k = .identifier ∧ p = .name isConst := by
  cases k <;> simp [next, eq_comm]

theorem next_name {p : Position} {k : Token.Kind} {isConst : Bool} :
    (name isConst).next k = some p ↔
      k = .semicolon ∧ isConst = false ∧ p = .start ∨ k = .equals ∧ p = .operand true := by
  cases k <;> cases isConst <;> simp [next, eq_comm]

theorem next_operand {p : Position} {k : Token.Kind} {declares : Bool} :
    (operand declares).next k = some p ↔ IsOperand k ∧ p = .operator declares := by
  cases k <;> simp [next, IsOperand, eq_comm]

/-- The moves after an operand. -/
theorem next_operator {p : Position} {k : Token.Kind} {declares : Bool} :
    (operator declares).next k = some p ↔
      ContinuesAssignment k ∧ p = .operand declares ∨ k = .semicolon ∧ p = .start ∨
        declares = false ∧ first k = some p := by
  cases k <;> cases declares <;>
    simp [next, first, ContinuesAssignment, continuesSum_iff, eq_comm]

theorem next_keyword_eq_none {k : Token.Kind} {isConst : Bool} (h : k ≠ .identifier) :
    (keyword isConst).next k = none := by
  rw [Option.eq_none_iff_forall_ne_some]
  exact fun q hq => h (next_keyword.1 hq).1

theorem next_name_eq_none {k : Token.Kind} {isConst : Bool} (hsemi : k ≠ .semicolon)
    (hequals : k ≠ .equals) : (name isConst).next k = none := by
  rw [Option.eq_none_iff_forall_ne_some]
  intro q hq
  rcases next_name.1 hq with ⟨hk, -⟩ | ⟨hk, -⟩
  · exact hsemi hk
  · exact hequals hk

/-- A token that neither continues an expression nor ends it is no move inside a declaration. -/
theorem next_operator_eq_none {k : Token.Kind} (h : ¬ ContinuesAssignment k)
    (hsemi : k ≠ .semicolon) : (operator true).next k = none := by
  rw [Option.eq_none_iff_forall_ne_some]
  intro q hq
  rcases next_operator.1 hq with ⟨hk, -⟩ | ⟨hk, -⟩ | ⟨hfalse, -⟩
  · exact h hk
  · exact hsemi hk
  · exact absurd hfalse (by simp)

/-- Such a token makes the same move after a statement as between statements. -/
theorem next_operator_eq_first {k : Token.Kind} (h : ¬ ContinuesAssignment k)
    (hsemi : k ≠ .semicolon) : (operator false).next k = first k := by
  refine Option.ext fun q => ?_
  rw [next_operator]
  simp [h, hsemi]

/-- Without a keyword, a statement starts as an expression does. -/
theorem first_eq_next_operand {k : Token.Kind} (h : k ≠ .letKeyword ∧ k ≠ .constKeyword) :
    first k = (operand false).next k := by
  cases k <;> simp_all [first, next]

/-- What may follow an expression: a semicolon and further statements, where the semicolon can be
left out after a statement of its own. -/
def AfterExpression (declares : Bool) (ts : List Token) : Prop :=
  (∃ semi us, ts = semi :: us ∧ semi.kind = .semicolon ∧ IsProgram us) ∨
    declares = false ∧ IsProgram ts

/-- An expression and what may follow it. -/
def BeforeExpression (declares : Bool) (ts : List Token) : Prop :=
  ∃ rest, (∃ node, Assignment ts node rest) ∧ AfterExpression declares rest

/-- What may follow the name in a declaration. -/
def AfterName (isConst : Bool) (ts : List Token) : Prop :=
  ∃ t us, ts = t :: us ∧ (t.kind = .semicolon ∧ isConst = false ∧ IsProgram us ∨
    t.kind = .equals ∧ BeforeExpression true us)

/-- The tokens complete a program from a position. -/
def Completes : Position → List Token → Prop
  | .start, ts => IsProgram ts
  | .keyword isConst, ts => ∃ t us, ts = t :: us ∧ t.kind = .identifier ∧ AfterName isConst us
  | .name isConst, ts => AfterName isConst ts
  | .operand declares, ts => BeforeExpression declares ts
  | .operator declares, ts => AfterExpression declares ts ∨
      ∃ t us, ts = t :: us ∧ ContinuesAssignment t.kind ∧ BeforeExpression declares us

end Position

/-! ## Expressions, one token at a time -/

/-- A rule is an operand, which either ends it or is followed by a token that continues it and the
rule again. -/
def RightLinear (Rule : List Token → Node → List Token → Prop) (Continues : Token.Kind → Prop) :
    Prop :=
  ∀ ts rest, (∃ node, Rule ts node rest) ↔
    ∃ t us, ts = t :: us ∧ IsOperand t.kind ∧
      (us = rest ∨ ∃ o vs, us = o :: vs ∧ Continues o.kind ∧ ∃ node, Rule vs node rest)

theorem Primary.rightLinear : RightLinear Primary fun _ => False := by
  intro ts rest
  constructor
  · rintro ⟨node, h⟩
    obtain ⟨t, ht, rfl⟩ := h.eq_cons
    exact ⟨t, rest, rfl, ht, .inl rfl⟩
  · rintro ⟨t, us, rfl, ht, rfl | ⟨_, _, _, hf, _⟩⟩
    · rcases ht with ⟨x, hx⟩ | hx
      · exact ⟨_, .number hx⟩
      · exact ⟨_, .name hx⟩
    · exact hf.elim

/-- A chain takes its operands apart: what continues the last operand, or an operator, goes on to a
shorter chain. -/
theorem Chain.rightLinear {Sign : Token.Kind → Operator → Prop}
    {Operand : List Token → Node → List Token → Prop} {Inner : Token.Kind → Prop}
    (hoperand : RightLinear Operand Inner) :
    RightLinear (Chain Sign Operand) (ContinuesChain Sign Inner) := by
  intro ts rest
  constructor
  · rintro ⟨node, first, mid, operations, hfirst, hops, -⟩
    obtain ⟨t, us, rfl, ht, rfl | ⟨o, vs, rfl, ho, node', hvs⟩⟩ :=
      (hoperand ts mid).1 ⟨first, hfirst⟩
    · -- The first operand is a single token: the next one, if any, is an operator of the chain.
      refine ⟨t, us, rfl, ht, ?_⟩
      cases hops with
      | nil => exact .inl rfl
      | cons hsign hnode hmore =>
        exact .inr ⟨_, _, rfl, .inr ⟨_, hsign⟩, _, _, _, _, hnode, hmore, rfl⟩
    · -- The first operand goes on, and its rest is the first operand of a shorter chain.
      exact ⟨t, _, rfl, ht, .inr ⟨o, vs, rfl, .inl ho, _, _, _, _, hvs, hops, rfl⟩⟩
  · rintro ⟨t, us, rfl, ht, rfl | ⟨o, vs, rfl, ho, node, first, mid, operations, hfirst, hops, -⟩⟩
    · obtain ⟨node, hnode⟩ := (hoperand (t :: us) us).2 ⟨t, us, rfl, ht, .inl rfl⟩
      exact ⟨_, _, _, _, hnode, .nil, rfl⟩
    · rcases ho with ho | ⟨op, hsign⟩
      · obtain ⟨node, hnode⟩ :=
          (hoperand (t :: o :: vs) mid).2 ⟨t, _, rfl, ht, .inr ⟨o, vs, rfl, ho, first, hfirst⟩⟩
        exact ⟨_, _, _, _, hnode, hops, rfl⟩
      · obtain ⟨node, hnode⟩ := (hoperand (t :: o :: vs) (o :: vs)).2 ⟨t, _, rfl, ht, .inl rfl⟩
        exact ⟨_, _, _, _, hnode, .cons hsign hfirst hops, rfl⟩

theorem Additive.rightLinear : RightLinear Additive ContinuesSum :=
  Chain.rightLinear (Chain.rightLinear Primary.rightLinear)

theorem Assignment.rightLinear : RightLinear Assignment ContinuesAssignment := by
  intro ts rest
  constructor
  · rintro ⟨node, h⟩
    cases h with
    | plain h =>
      obtain ⟨t, us, rfl, ht, hus | ⟨o, vs, rfl, ho, node', hvs⟩⟩ :=
        (Additive.rightLinear ts rest).1 ⟨_, h⟩
      · exact ⟨t, us, rfl, ht, .inl hus⟩
      · exact ⟨t, _, rfl, ht, .inr ⟨o, vs, rfl, .inl ho, node', .plain hvs⟩⟩
    | @assign _ ws _ eq _ _ h heq hvalue =>
      obtain ⟨t, us, rfl, ht, rfl | ⟨o, vs, rfl, ho, node', hvs⟩⟩ :=
        (Additive.rightLinear ts (eq :: ws)).1 ⟨_, h⟩
      · exact ⟨t, _, rfl, ht, .inr ⟨eq, ws, rfl, .inr heq, _, hvalue⟩⟩
      · exact ⟨t, _, rfl, ht, .inr ⟨o, vs, rfl, .inl ho, _, .assign hvs heq hvalue⟩⟩
  · rintro ⟨t, us, rfl, ht, rfl | ⟨o, vs, rfl, ho, node, hvs⟩⟩
    · obtain ⟨node, hnode⟩ := (Additive.rightLinear (t :: us) us).2 ⟨t, us, rfl, ht, .inl rfl⟩
      exact ⟨node, .plain hnode⟩
    · rcases ho with ho | ho
      · cases hvs with
        | plain h =>
          obtain ⟨node, hnode⟩ := (Additive.rightLinear (t :: o :: vs) rest).2
            ⟨t, _, rfl, ht, .inr ⟨o, vs, rfl, ho, _, h⟩⟩
          exact ⟨node, .plain hnode⟩
        | @assign _ ws _ eq _ _ h heq hvalue =>
          obtain ⟨node, hnode⟩ := (Additive.rightLinear (t :: o :: vs) (eq :: ws)).2
            ⟨t, _, rfl, ht, .inr ⟨o, vs, rfl, ho, _, h⟩⟩
          exact ⟨_, .assign hnode heq hvalue⟩
      · obtain ⟨node, hnode⟩ :=
          (Additive.rightLinear (t :: o :: vs) (o :: vs)).2 ⟨t, _, rfl, ht, .inl rfl⟩
        exact ⟨_, .assign hnode ho hvs⟩

/-! ## Programs, one token at a time -/

namespace Position

/-- The moves at the start of a statement. -/
theorem first_eq_some_iff {k : Token.Kind} {p : Position} :
    first k = some p ↔
      (∃ isConst, Keyword k isConst ∧ p = .keyword isConst) ∨
        IsOperand k ∧ p = .operator false := by
  constructor
  · intro h
    cases k <;> simp only [first, Option.some.injEq, reduceCtorEq] at h <;> subst h
    · exact .inr ⟨.inl ⟨_, rfl⟩, rfl⟩
    · exact .inr ⟨.inr rfl, rfl⟩
    · exact .inl ⟨false, .letKeyword, rfl⟩
    · exact .inl ⟨true, .constKeyword, rfl⟩
  · rintro (⟨isConst, hkeyword, rfl⟩ | ⟨⟨x, rfl⟩ | rfl, rfl⟩)
    · cases hkeyword <;> rfl
    · rfl
    · rfl

theorem beforeExpression_cons_iff {declares : Bool} {t : Token} {us : List Token} :
    BeforeExpression declares (t :: us) ↔ IsOperand t.kind ∧ (operator declares).Completes us := by
  constructor
  · rintro ⟨rest, h, hafter⟩
    obtain ⟨_, _, hcons, ht, hrest⟩ := (Assignment.rightLinear _ _).1 h
    obtain ⟨rfl, rfl⟩ := List.cons.inj hcons
    refine ⟨ht, ?_⟩
    rcases hrest with rfl | ⟨o, vs, rfl, ho, hvs⟩
    · exact .inl hafter
    · exact .inr ⟨o, vs, rfl, ho, rest, hvs, hafter⟩
  · rintro ⟨ht, hafter | ⟨o, vs, rfl, ho, rest, hvs, hafter⟩⟩
    · exact ⟨us, (Assignment.rightLinear _ _).2 ⟨t, us, rfl, ht, .inl rfl⟩, hafter⟩
    · have h := (Assignment.rightLinear _ _).2 ⟨t, _, rfl, ht, .inr ⟨o, vs, rfl, ho, hvs⟩⟩
      exact ⟨rest, h, hafter⟩

/-- An expression at the start of a program is its first statement. -/
theorem isProgram_of_beforeExpression {ts : List Token} (h : BeforeExpression false ts) :
    IsProgram ts := by
  obtain ⟨rest, ⟨node, hnode⟩, ⟨semi, us, rfl, hsemi, program, hus⟩ | ⟨-, program, hrest⟩⟩ := h
  · exact ⟨_, .cons (.terminated hnode hsemi) hus⟩
  · exact ⟨_, .cons (.expression hnode) hrest⟩

/-- A declaration at the start of a program is its first statement. -/
theorem isProgram_of_keyword {t : Token} {ts : List Token} {isConst : Bool}
    (ht : Keyword t.kind isConst) (h : (keyword isConst).Completes ts) : IsProgram (t :: ts) := by
  obtain ⟨name, us, rfl, hname, semi, vs, rfl, h⟩ := h
  rcases h with ⟨hsemi, rfl, program, hvs⟩ | ⟨heq, rest, ⟨node, hnode⟩, hafter⟩
  · exact ⟨_, .cons (.declaration (.empty ht.eq_letKeyword hname hsemi)) hvs⟩
  · rcases hafter with ⟨last, ws, rfl, hlast, program, hws⟩ | ⟨hfalse, -⟩
    · exact ⟨_, .cons (.declaration (.valued ht hname heq hnode hlast)) hws⟩
    · exact absurd hfalse (by simp)

/-- A program that is not empty starts with a declaration or an expression. -/
theorem keyword_or_beforeExpression {t : Token} {ts : List Token} (h : IsProgram (t :: ts)) :
    (∃ isConst, Keyword t.kind isConst ∧ (keyword isConst).Completes ts) ∨
      BeforeExpression false (t :: ts) := by
  obtain ⟨program, hprogram⟩ := h
  cases hprogram with
  | cons hstatement hrest =>
    cases hstatement with
    | declaration hdeclaration =>
      left
      cases hdeclaration with
      | empty hlet hname hsemi =>
        exact ⟨false, hlet ▸ .letKeyword, _, _, rfl, hname, _, _, rfl, .inl ⟨hsemi, rfl, _, hrest⟩⟩
      | valued hkeyword hname heq hvalue hsemi =>
        exact ⟨_, hkeyword, _, _, rfl, hname, _, _, rfl,
          .inr ⟨heq, _, ⟨_, hvalue⟩, .inl ⟨_, _, rfl, hsemi, _, hrest⟩⟩⟩
    | expression hnode => exact .inr ⟨_, ⟨_, hnode⟩, .inr ⟨rfl, _, hrest⟩⟩
    | terminated hnode hsemi => exact .inr ⟨_, ⟨_, hnode⟩, .inl ⟨_, _, rfl, hsemi, _, hrest⟩⟩

theorem isProgram_cons_iff {t : Token} {ts : List Token} :
    IsProgram (t :: ts) ↔ ∃ p, first t.kind = some p ∧ p.Completes ts := by
  constructor
  · intro h
    rcases keyword_or_beforeExpression h with ⟨isConst, hkeyword, hts⟩ | hexpression
    · exact ⟨_, first_eq_some_iff.2 (.inl ⟨isConst, hkeyword, rfl⟩), hts⟩
    · obtain ⟨hoperand, hts⟩ := beforeExpression_cons_iff.1 hexpression
      exact ⟨_, first_eq_some_iff.2 (.inr ⟨hoperand, rfl⟩), hts⟩
  · rintro ⟨p, hp, hts⟩
    rcases first_eq_some_iff.1 hp with ⟨isConst, hkeyword, rfl⟩ | ⟨hoperand, rfl⟩
    · exact isProgram_of_keyword hkeyword hts
    · exact isProgram_of_beforeExpression (beforeExpression_cons_iff.2 ⟨hoperand, hts⟩)

theorem afterExpression_cons_iff {declares : Bool} {t : Token} {ts : List Token} :
    AfterExpression declares (t :: ts) ↔
      t.kind = .semicolon ∧ IsProgram ts ∨
        declares = false ∧ ∃ p, first t.kind = some p ∧ p.Completes ts := by
  rw [AfterExpression, isProgram_cons_iff]
  constructor
  · rintro (⟨semi, us, hcons, hsemi, hus⟩ | h)
    · obtain ⟨rfl, rfl⟩ := List.cons.inj hcons
      exact .inl ⟨hsemi, hus⟩
    · exact .inr h
  · rintro (⟨hsemi, hts⟩ | h)
    · exact .inl ⟨t, ts, rfl, hsemi, hts⟩
    · exact .inr h

/-- A token sequence completes a program exactly if its first token is a move and the others
complete a program from there. -/
theorem completes_cons_iff (p : Position) (t : Token) (ts : List Token) :
    p.Completes (t :: ts) ↔ ∃ q, p.next t.kind = some q ∧ q.Completes ts := by
  cases p with
  | start => exact isProgram_cons_iff
  | keyword isConst =>
    constructor
    · rintro ⟨t', us, hcons, ht, hus⟩
      obtain ⟨rfl, rfl⟩ := List.cons.inj hcons
      exact ⟨_, next_keyword.2 ⟨ht, rfl⟩, hus⟩
    · rintro ⟨q, hq, hts⟩
      obtain ⟨ht, rfl⟩ := next_keyword.1 hq
      exact ⟨t, ts, rfl, ht, hts⟩
  | name isConst =>
    constructor
    · rintro ⟨t', us, hcons, hus⟩
      obtain ⟨rfl, rfl⟩ := List.cons.inj hcons
      rcases hus with ⟨ht, hvar, hus⟩ | ⟨ht, hus⟩
      · exact ⟨.start, next_name.2 (.inl ⟨ht, hvar, rfl⟩), hus⟩
      · exact ⟨.operand true, next_name.2 (.inr ⟨ht, rfl⟩), hus⟩
    · rintro ⟨q, hq, hts⟩
      rcases next_name.1 hq with ⟨ht, hvar, rfl⟩ | ⟨ht, rfl⟩
      · exact ⟨t, ts, rfl, .inl ⟨ht, hvar, hts⟩⟩
      · exact ⟨t, ts, rfl, .inr ⟨ht, hts⟩⟩
  | operand declares =>
    constructor
    · intro h
      obtain ⟨ht, hts⟩ := beforeExpression_cons_iff.1 h
      exact ⟨_, next_operand.2 ⟨ht, rfl⟩, hts⟩
    · rintro ⟨q, hq, hts⟩
      obtain ⟨ht, rfl⟩ := next_operand.1 hq
      exact beforeExpression_cons_iff.2 ⟨ht, hts⟩
  | operator declares =>
    constructor
    · rintro (h | ⟨t', us, hcons, ht, hus⟩)
      · rcases afterExpression_cons_iff.1 h with ⟨hsemi, hts⟩ | ⟨rfl, q, hq, hts⟩
        · exact ⟨.start, next_operator.2 (.inr (.inl ⟨hsemi, rfl⟩)), hts⟩
        · exact ⟨q, next_operator.2 (.inr (.inr ⟨rfl, hq⟩)), hts⟩
      · obtain ⟨rfl, rfl⟩ := List.cons.inj hcons
        exact ⟨_, next_operator.2 (.inl ⟨ht, rfl⟩), hus⟩
    · rintro ⟨q, hq, hts⟩
      rcases next_operator.1 hq with ⟨ht, rfl⟩ | ⟨hsemi, rfl⟩ | ⟨rfl, hfirst⟩
      · exact .inr ⟨t, ts, rfl, ht, hts⟩
      · exact .inl (afterExpression_cons_iff.2 (.inl ⟨hsemi, hts⟩))
      · exact .inl (afterExpression_cons_iff.2 (.inr ⟨rfl, q, hfirst, hts⟩))

/-- Nothing more is needed exactly in the final positions. -/
theorem completes_nil_iff (p : Position) : p.Completes [] ↔ p.isFinal := by
  have hprogram : IsProgram [] := ⟨[], .nil⟩
  have hexpression : ∀ declares, ¬ BeforeExpression declares [] := by
    rintro declares ⟨rest, ⟨node, h⟩, -⟩
    obtain ⟨t, us, -, hcons⟩ := h.eq_cons
    exact absurd hcons (List.cons_ne_nil t us).symm
  cases p with
  | start => simp [Completes, isFinal, hprogram]
  | keyword isConst => simp [Completes, isFinal]
  | name isConst => simp [Completes, AfterName, isFinal]
  | operand declares => simp [Completes, isFinal, hexpression]
  | operator declares => cases declares <;> simp [Completes, AfterExpression, isFinal, hprogram]

/-- A token of the given kind. -/
def sample (k : Token.Kind) : Token := ⟨k, "", .origin⟩

/-- Tokens that complete a program from a position. -/
def completion : Position → List Token
  | .start => []
  | .keyword _ => [.identifier, .equals, .identifier, .semicolon].map sample
  | .name _ => [.equals, .identifier, .semicolon].map sample
  | .operand _ => [.identifier, .semicolon].map sample
  | .operator _ => [.semicolon].map sample

/-- From every position a program can be completed. -/
theorem completes_completion (p : Position) : p.Completes p.completion := by
  cases p <;> simp [completion, sample, completes_cons_iff, completes_nil_iff, next, isFinal]

/-- Tokens complete a program after others exactly if these are moves to a position from which they
complete one. -/
theorem completes_append_iff (p : Position) (ts us : List Token) :
    p.Completes (ts ++ us) ↔ ∃ q, p.run ts = some q ∧ q.Completes us := by
  induction ts generalizing p with
  | nil => simp
  | cons t ts ih =>
    rw [List.cons_append, completes_cons_iff, run_cons]
    constructor
    · rintro ⟨q, hq, hts⟩
      simpa [hq] using (ih q).1 hts
    · rintro ⟨q, hq, hus⟩
      obtain ⟨r, hr, hrun⟩ := Option.bind_eq_some_iff.1 hq
      exact ⟨r, hr, (ih r).2 ⟨q, hrun, hus⟩⟩

end Position

/-- Tokens can be extended to a program exactly if every one of them is a move. -/
theorem viable_iff {ts : List Token} : Viable ts ↔ ∃ p, Position.start.run ts = some p := by
  constructor
  · rintro ⟨us, h⟩
    obtain ⟨p, hp, -⟩ := (Position.completes_append_iff .start ts us).1 h
    exact ⟨p, hp⟩
  · rintro ⟨p, hp⟩
    exact ⟨p.completion,
      (Position.completes_append_iff .start ts _).2 ⟨p, hp, p.completes_completion⟩⟩

/-- Tokens are a program exactly if they are moves to a final position. -/
theorem isProgram_iff {ts : List Token} :
    IsProgram ts ↔ ∃ p, Position.start.run ts = some p ∧ p.isFinal := by
  have h := Position.completes_append_iff .start ts []
  simp only [List.append_nil, Position.completes_nil_iff] at h
  exact h

/-- The start of a sequence that can be extended to a program can be extended to one too. -/
theorem Viable.of_append {ts us : List Token} (h : Viable (ts ++ us)) : Viable ts := by
  obtain ⟨vs, h⟩ := h
  exact ⟨us ++ vs, by rwa [← List.append_assoc]⟩

/-- After a token that is no move, nothing completes a program. -/
theorem not_viable_of_next_eq_none {ts : List Token} {t : Token} {p : Position}
    (hp : Position.start.run ts = some p) (ht : p.next t.kind = none) : ¬ Viable (ts ++ [t]) := by
  rw [viable_iff]
  rintro ⟨q, hq⟩
  simp [Position.run_append, hp, ht] at hq

end Grammar

end LetCalc
