import LetCalc.Parser
import LetCalc.Proofs.Token.Upcoming
import Mathlib.Logic.Relation

/-!
# What the errors of the rules are about

A rule of the parser takes tokens one by one. When it fails, its error is about what is then ahead
of the cursor, which is not taken; it may also mention a token that was taken before. All of this is
one property of computations (`Reading.Points`), with one lemma for each combinator and for each
rule. What other modules say about errors, their spans, their messages and the cursors they leave,
is read off it.

* `ParseError.HoldsAt`: what an error says about what is ahead of a cursor.
* `ParseError.RaisedFrom`: besides, what it mentions was read.
* `Reading.PointsFrom`: a result that is reached by taking tokens, with such an error if it is one.
* `Parser.Rule.points_reading`: every rule points at what is ahead.
-/

namespace LetCalc

open Relation (ReflTransGen)

namespace Cursor

/-- One cursor is the other after the token ahead. -/
def Step (c d : Cursor) : Prop := ∃ t, c.ahead = .token t ∧ d = c.next

/-- The token is taken on the way from one cursor to the other. -/
def Passes (c : Cursor) (t : Token) (d : Cursor) : Prop :=
  ∃ b, ReflTransGen Step c b ∧ b.ahead = .token t ∧ ReflTransGen Step b.next d

/-- There is a token ahead of none of the given kinds, or the end of the source. -/
structure Lacks (c : Cursor) (kinds : List Token.Kind) : Prop where
  readable : ∀ f, c.ahead ≠ .failed f
  kind_not_mem : ∀ t, c.ahead = .token t → t.kind ∉ kinds

variable {b c d : Cursor} {t : Token}

theorem step_of_token (h : c.ahead = .token t) : Step c c.next := ⟨t, h, rfl⟩

/-- A token stays taken when the cursor moves on. -/
theorem Passes.steps (h : c.Passes t d) (hsteps : ReflTransGen Step d b) : c.Passes t b := by
  obtain ⟨a, hbefore, ht, hafter⟩ := h
  exact ⟨a, hbefore, ht, hafter.trans hsteps⟩

/-- It is also taken on the way from any cursor before. -/
theorem Passes.of_steps (h : c.Passes t d) (hsteps : ReflTransGen Step b c) : b.Passes t d := by
  obtain ⟨a, hbefore, ht, hafter⟩ := h
  exact ⟨a, hsteps.trans hbefore, ht, hafter⟩

end Cursor

namespace ParseError

/-- The error is about what is ahead of the cursor, which is thus not taken: a token is ahead that
is out of place, or the source ends or cannot be read on where a token is needed. -/
inductive HoldsAt (c : Cursor) : ParseError → Prop
  | lexer {f : LexError} : c.ahead = .failed f → HoldsAt c (.lexer f)
  | unexpectedEnd : c.ahead = .finished → HoldsAt c (.unexpectedEnd c.span)
  | operandMissing : c.ahead = .finished → HoldsAt c (.operandMissing c.span)
  | keywordOperand {t : Token} : c.ahead = .token t →
      t.kind = .letKeyword ∨ t.kind = .constKeyword → HoldsAt c (.keywordOperand t)
  | unexpectedToken {t : Token} : c.ahead = .token t → (∀ x, t.kind ≠ .number x) →
      c.Lacks [.identifier, .letKeyword, .constKeyword] → HoldsAt c (.unexpectedToken t)
  | nameMissing (keyword : String) : c.Lacks [.identifier] →
      HoldsAt c (.nameMissing keyword c.span)
  | valueMissing (name : String) {t : Token} : c.ahead = .token t → t.kind = .semicolon →
      HoldsAt c (.valueMissing name c.span)
  | equalsMissing (name : String) : c.Lacks [.semicolon, .equals] →
      HoldsAt c (.equalsMissing name c.span)
  | semicolonMissing (name : String) : c.Lacks [.semicolon] →
      HoldsAt c (.semicolonMissing name c.span)

/-- An error has the span of what it is about. -/
theorem HoldsAt.span_eq {c : Cursor} {e : ParseError} (h : e.HoldsAt c) : e.span = c.span := by
  cases h with
  | lexer hfailed => exact (Cursor.span_of_failed hfailed).symm
  | keywordOperand htoken _ => exact (Cursor.span_of_token htoken).symm
  | unexpectedToken htoken _ _ => exact (Cursor.span_of_token htoken).symm
  | _ => rfl

/-- The text that an error mentions besides what it is about. -/
def mention? : ParseError → Option String
  | .nameMissing keyword _ => some keyword
  | .valueMissing name _ => some name
  | .equalsMissing name _ => some name
  | .semicolonMissing name _ => some name
  | _ => none

/-- The error holds at a cursor, and what it mentions was read on the way from another one. -/
structure RaisedFrom (c d : Cursor) (e : ParseError) : Prop where
  holds : e.HoldsAt d
  mention : ∀ text, e.mention? = some text → ∃ t, c.Passes t d ∧ t.text = text

/-- An error that mentions nothing can be raised wherever it holds. -/
theorem HoldsAt.raisedFrom {c d : Cursor} {e : ParseError} (h : e.HoldsAt d)
    (hnone : e.mention? = none) : e.RaisedFrom c d := by
  refine ⟨h, fun text htext => ?_⟩
  rw [hnone] at htext
  cases htext

end ParseError

namespace Reading

variable {α β : Type} {b c d : Cursor}

/-- A result that is reached from a cursor by taking tokens. An error is about what is ahead. -/
structure PointsFrom (c : Cursor) (result : Except ParseError α × Cursor) : Prop where
  steps : ReflTransGen Cursor.Step c result.2
  raised : ∀ e, result.1 = .error e → e.RaisedFrom c result.2

/-- The computation takes tokens, and its errors are about what is ahead then. -/
def Points (r : Reading α) : Prop := ∀ c, PointsFrom c (r c)

/-! ## Results -/

theorem pointsFrom_ok (a : α) (hsteps : ReflTransGen Cursor.Step c d) :
    PointsFrom c (.ok a, d) := ⟨hsteps, nofun⟩

theorem pointsFrom_error {e : ParseError} (hsteps : ReflTransGen Cursor.Step c d)
    (h : e.RaisedFrom c d) : PointsFrom c ((.error e, d) : Except ParseError α × Cursor) := by
  refine ⟨hsteps, fun e' he' => ?_⟩
  rw [← Except.error.inj he']
  exact h

/-- A failure of the lexer comes up. -/
theorem pointsFrom_lexer {f : LexError} (hsteps : ReflTransGen Cursor.Step c d)
    (h : d.ahead = .failed f) :
    PointsFrom c ((.error (.lexer f), d) : Except ParseError α × Cursor) :=
  pointsFrom_error hsteps (ParseError.HoldsAt.lexer h |>.raisedFrom rfl)

/-- Tokens taken before do not matter. -/
theorem PointsFrom.of_steps {result : Except ParseError α × Cursor} (h : PointsFrom d result)
    (hsteps : ReflTransGen Cursor.Step c d) : PointsFrom c result := by
  refine ⟨hsteps.trans h.steps, fun e he => ⟨(h.raised e he).holds, fun text htext => ?_⟩⟩
  obtain ⟨t, ht, rfl⟩ := (h.raised e he).mention text htext
  exact ⟨t, ht.of_steps hsteps, rfl⟩

theorem Points.of_eq {r : Reading α} (hr : r.Points) {result : Except ParseError α × Cursor}
    (h : r c = result) : PointsFrom c result := h ▸ hr c

/-- An error of one type of results is one of any other. -/
theorem PointsFrom.error {e : ParseError}
    (h : PointsFrom c ((.error e, d) : Except ParseError α × Cursor)) :
    PointsFrom c ((.error e, d) : Except ParseError β × Cursor) :=
  pointsFrom_error h.steps (h.raised e rfl)

/-! ## Looking and taking -/

theorem points_pure (a : α) : Points (pure a) := fun _ => pointsFrom_ok a .refl

theorem points_peek : Points peek := by
  intro c
  unfold peek
  split
  · exact pointsFrom_ok _ .refl
  · exact pointsFrom_lexer .refl ‹_›
  · exact pointsFrom_ok _ .refl

theorem points_sees (kinds : Token.Kind → Bool) : Points (sees kinds) := by
  intro c
  unfold sees
  split
  · exact pointsFrom_ok _ .refl
  · exact pointsFrom_lexer .refl ‹_›
  · exact pointsFrom_ok _ .refl

theorem points_advance : Points advance := by
  intro c
  unfold advance
  split
  · exact pointsFrom_ok _ (.single (Cursor.step_of_token ‹_›))
  · exact pointsFrom_lexer .refl ‹_›
  · exact pointsFrom_error .refl (ParseError.HoldsAt.unexpectedEnd ‹_› |>.raisedFrom rfl)

/-- Computations one after the other, seen from a cursor before both. -/
theorem Points.pointsFrom_bind {r : Reading α} {f : α → Reading β} (hr : r.Points)
    (hsteps : ReflTransGen Cursor.Step c d)
    (hf : ∀ a b, ReflTransGen Cursor.Step d b → PointsFrom c (f a b)) :
    PointsFrom c ((r >>= f) d) := by
  rw [bind_apply]
  rcases h : r d with ⟨e | a, b⟩
  · exact (hr.of_eq h).error.of_steps hsteps
  · exact hf a b (hr.of_eq h).steps

theorem Points.bind {r : Reading α} {f : α → Reading β} (hr : r.Points)
    (hf : ∀ a, (f a).Points) : (r >>= f).Points :=
  fun _ => hr.pointsFrom_bind .refl fun a b hsteps => (hf a b).of_steps hsteps

theorem Points.ite {p : Prop} [Decidable p] {r s : Reading α} (hr : r.Points) (hs : s.Points) :
    (if p then r else s).Points := by
  split <;> assumption

/-- A token that was taken can be mentioned later. -/
theorem pointsFrom_advance_bind {f : Token → Reading α} (hsteps : ReflTransGen Cursor.Step c d)
    (hf : ∀ t b, Cursor.Step d b → c.Passes t b → PointsFrom c (f t b)) :
    PointsFrom c ((advance >>= f) d) := by
  cases h : d.ahead with
  | token t =>
    rw [bind_apply, advance, h]
    exact hf t d.next (Cursor.step_of_token h) ⟨d, hsteps, h, .refl⟩
  | failed e =>
    rw [bind_apply, advance, h]
    exact pointsFrom_lexer hsteps h
  | finished =>
    rw [bind_apply, advance, h]
    exact pointsFrom_error hsteps (ParseError.HoldsAt.unexpectedEnd h |>.raisedFrom rfl)

/-- A look at what is ahead moves nothing, so that what was seen there is still ahead when the
reading goes on, and fails, after it. -/
theorem pointsFrom_ite_sees {kinds : Token.Kind → Bool} {r s : Reading α}
    (hsteps : ReflTransGen Cursor.Step c d)
    (hyes : ∀ t, d.ahead = .token t → kinds t.kind = true → PointsFrom c (r d))
    (hno : (∀ f, d.ahead ≠ .failed f) → (∀ t, d.ahead = .token t → kinds t.kind = false) →
      PointsFrom c (s d)) :
    PointsFrom c ((do if ← sees kinds then r else s : Reading α) d) := by
  rw [bind_apply, sees]
  cases h : d.ahead with
  | token t =>
    cases hk : kinds t.kind with
    | true => simpa [hk] using hyes t h hk
    | false => simpa [hk] using hno (by simp [h]) (by simp [h, hk])
  | failed f => exact pointsFrom_lexer hsteps h
  | finished => simpa using hno (by simp [h]) (by simp [h])

/-- A computation fails on purpose, and mentions a token that it took. -/
theorem pointsFrom_fail {error : Span → ParseError} {t : Token}
    (hsteps : ReflTransGen Cursor.Step c d) (hholds : (error d.span).HoldsAt d)
    (hmention : (error d.span).mention? = some t.text) (ht : c.Passes t d) :
    PointsFrom c ((fail error : Reading α) d) := by
  refine pointsFrom_error hsteps ⟨hholds, fun text htext => ⟨t, ht, ?_⟩⟩
  exact Option.some.inj (hmention.symm.trans htext)

/-! ## The rules -/

theorem points_primary : Points primary := by
  intro c
  unfold primary
  split
  · exact pointsFrom_lexer .refl ‹_›
  · exact pointsFrom_error .refl (ParseError.HoldsAt.operandMissing ‹_› |>.raisedFrom rfl)
  · rename_i t h
    -- An operand is taken; any other token is refused, and stays ahead.
    split
    · exact pointsFrom_ok _ (.single (Cursor.step_of_token h))
    · exact pointsFrom_ok _ (.single (Cursor.step_of_token h))
    · exact pointsFrom_error .refl
        (ParseError.HoldsAt.keywordOperand h (.inl ‹_›) |>.raisedFrom rfl)
    · exact pointsFrom_error .refl
        (ParseError.HoldsAt.keywordOperand h (.inr ‹_›) |>.raisedFrom rfl)
    · rename_i hnumber hname hlet hconst
      have hlacks : c.Lacks [.identifier, .letKeyword, .constKeyword] := by
        refine ⟨by simp [h], fun t' h' => ?_⟩
        obtain rfl : t = t' := Cursor.Ahead.token.inj (h.symm.trans h')
        simpa using ⟨hname, hlet, hconst⟩
      exact pointsFrom_error .refl
        (ParseError.HoldsAt.unexpectedToken h hnumber hlacks |>.raisedFrom rfl)

/-- A chain points at what is ahead if its operands do. -/
theorem points_chain {operator? : Token.Kind → Option Operator} {operand : Reading Node}
    (hoperand : operand.Points) (shrinks : operand.Shrinks) (left : Node) :
    Points (chain operator? operand shrinks left) := by
  intro c
  induction left, c using chain_induction operator? shrinks with
  | failed left c f h =>
    rw [chain_of_failed h]
    exact pointsFrom_lexer .refl h
  | finished left c h =>
    rw [chain_of_finished h]
    exact pointsFrom_ok left .refl
  | other left c t h hop =>
    rw [chain_of_other h hop]
    exact pointsFrom_ok left .refl
  | refused left c t h op hop e d hr =>
    rw [chain_of_refused h hop hr]
    exact (hoperand.of_eq hr).of_steps (.single (Cursor.step_of_token h))
  | operation left c t h op hop right d hr ih =>
    -- The operator and its operand are taken before the rest of the chain is read.
    rw [chain_of_operation h hop hr]
    exact ih.of_steps ((hoperand.of_eq hr).steps.head (Cursor.step_of_token h))

theorem points_multiplicative : Points multiplicative :=
  points_primary.bind fun first => points_chain points_primary _ first

theorem points_additive : Points additive :=
  points_multiplicative.bind fun first => points_chain points_multiplicative _ first

theorem points_assignment : Points assignment := by
  intro c
  induction c using assignment_induction with
  | refused c e d hl =>
    rw [assignment_of_refused hl]
    exact points_additive.of_eq hl
  | failed c left d hl f h =>
    rw [assignment_of_failed hl h]
    exact pointsFrom_lexer (points_additive.of_eq hl).steps h
  | finished c left d hl h =>
    rw [assignment_of_finished hl h]
    exact points_additive.of_eq hl
  | valueRefused c left d hl t h hk e f hv ih =>
    -- The error of the value is that of the assignment, seen from further back.
    rw [assignment_of_valueRefused hl h hk hv]
    rw [hv] at ih
    exact ih.of_steps ((points_additive.of_eq hl).steps.tail (Cursor.step_of_token h))
  | assigned c left d hl t h hk value f hv ih =>
    rw [assignment_of_assigned hl h hk hv]
    rw [hv] at ih
    have hsteps := (points_additive.of_eq hl).steps.tail (Cursor.step_of_token h)
    exact pointsFrom_ok _ (hsteps.trans ih.steps)
  | other c left d hl t h hk =>
    rw [assignment_of_other hl h hk]
    exact points_additive.of_eq hl

theorem points_declaration : Points declaration := by
  intro c
  -- Whatever is taken for the keyword, each later token is looked at before it is taken. A missing
  -- name is told with the keyword, and whatever is missing later with the name.
  refine pointsFrom_advance_bind .refl fun keyword d hd hkeyword => ?_
  have hsteps : ReflTransGen Cursor.Step c d := .single hd
  apply pointsFrom_ite_sees hsteps
  · intro _ _ _
    refine pointsFrom_advance_bind hsteps fun name d hd hname => ?_
    have hsteps := hsteps.tail hd
    apply pointsFrom_ite_sees hsteps
    · intro semi hsemi hk
      split
      · exact pointsFrom_fail hsteps (.valueMissing _ hsemi (of_decide_eq_true hk)) rfl hname
      · exact pointsFrom_advance_bind hsteps fun _ b hb _ => pointsFrom_ok _ (hsteps.tail hb)
    · intro hreadable hnosemi
      apply pointsFrom_ite_sees hsteps
      · intro _ _ _
        refine pointsFrom_advance_bind hsteps fun _ b hb _ => ?_
        refine points_assignment.pointsFrom_bind (hsteps.tail hb) fun initializer f hf => ?_
        have hsteps := (hsteps.tail hb).trans hf
        apply pointsFrom_ite_sees hsteps
        · exact fun _ _ _ =>
            pointsFrom_advance_bind hsteps fun _ b hb _ => pointsFrom_ok _ (hsteps.tail hb)
        · intro hreadable hnosemi
          refine pointsFrom_fail hsteps (.semicolonMissing _ ⟨hreadable, fun t ht => ?_⟩) rfl
            (hname.steps (hf.head hb))
          simpa using hnosemi t ht
      · intro _ hnoequals
        refine pointsFrom_fail hsteps (.equalsMissing _ ⟨hreadable, fun t ht => ?_⟩) rfl hname
        simpa using And.intro (hnosemi t ht) (hnoequals t ht)
  · intro hreadable hnoname
    refine pointsFrom_fail hsteps (.nameMissing _ ⟨hreadable, fun t ht => ?_⟩) rfl hkeyword
    simpa using hnoname t ht

theorem points_statement : Points statement := by
  refine (points_sees _).bind fun _ => .ite points_declaration ?_
  refine points_assignment.bind fun _ => (points_sees _).bind fun _ => .ite ?_ ?_
  · exact points_advance.bind fun _ => points_pure _
  · exact points_pure _

theorem points_program : Points program := by
  intro c
  induction c using program_induction with
  | failed c f h =>
    rw [program_of_failed h]
    exact pointsFrom_lexer .refl h
  | finished c h =>
    rw [program_of_finished h]
    exact pointsFrom_ok [] .refl
  | refused c t h e d hs =>
    rw [program_of_refused h hs]
    exact (points_statement.of_eq hs).error
  | restRefused c t h node d hs e f hrest ih =>
    rw [program_of_restRefused h hs hrest]
    rw [hrest] at ih
    exact ih.of_steps (points_statement.of_eq hs).steps
  | more c t h node d hs rest f hrest ih =>
    rw [program_of_more h hs hrest]
    rw [hrest] at ih
    exact pointsFrom_ok _ ((points_statement.of_eq hs).steps.trans ih.steps)

end Reading

/-- Every rule takes tokens one by one, and its error is about what is ahead then. -/
theorem Parser.Rule.points_reading (rule : Parser.Rule) : rule.reading.Points := by
  cases rule with
  | program => exact Reading.points_program.bind fun _ => Reading.points_pure _
  | statement => exact Reading.points_statement
  | declaration => exact Reading.points_declaration
  | expression => exact Reading.points_assignment
  | assignment => exact Reading.points_assignment
  | additive => exact Reading.points_additive
  | multiplicative => exact Reading.points_multiplicative
  | primary => exact Reading.points_primary

end LetCalc
