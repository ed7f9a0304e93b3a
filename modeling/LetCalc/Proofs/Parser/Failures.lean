import LetCalc.Proofs.Parser.Spans
import LetCalc.Proofs.Token.Listing

/-!
# Where a parser stands after a failure

A parser can be asked for any rule at any token, also after a rule has failed. A rule that fails
leaves its cursor before the offending token, so that the next rule meets that token again. In
particular it meets a failure of the lexer again, and so does every later one.

* `Reading.Surfaces`: a rule fails at once where the lexer has failed.
* `Parser.calls_fail_in_place`: both, for parsers after any rules that were asked for.
-/

namespace LetCalc

open Relation (ReflTransGen)

namespace Reading

variable {α β : Type}

/-! ## Failures of the lexer come up -/

/-- Where the lexer has failed, the computation fails with that and leaves the cursor. -/
def Surfaces (r : Reading α) : Prop :=
  ∀ (c : Cursor) (f : LexError), c.ahead = .failed f → r c = (.error (.lexer f), c)

/-- A computation whose first part brings a failure up does so. -/
theorem Surfaces.bind {r : Reading α} (hr : r.Surfaces) (f : α → Reading β) :
    (r >>= f).Surfaces := by
  intro c e h
  rw [bind_apply, hr c e h]

/-- To look for a token is to ask for it. -/
theorem surfaces_sees (kinds : Token.Kind → Bool) : Surfaces (sees kinds) := by
  intro c f h
  rw [sees, h]

theorem surfaces_advance : Surfaces advance := by
  intro c f h
  rw [advance, h]

theorem surfaces_primary : Surfaces primary := by
  intro c f h
  rw [primary, h]

theorem surfaces_additive : Surfaces additive := (surfaces_primary.bind _).bind _

/-- An expression starts with an operand. -/
theorem surfaces_assignment : Surfaces assignment := by
  intro c f h
  have hadditive := surfaces_additive c f h
  -- The first operand fails, so that no other branch is taken.
  unfold assignment
  split
  · rename_i hl
    exact hl.symm.trans hadditive
  · rename_i hl
    cases hl.symm.trans hadditive

theorem surfaces_program : Surfaces program := by
  intro c f h
  rw [program, h]

end Reading

namespace Parser

/-- Every rule asks for a token before anything else. -/
theorem Rule.surfaces_reading (rule : Rule) : rule.reading.Surfaces := by
  cases rule with
  | program => exact Reading.surfaces_program.bind _
  | statement => exact (Reading.surfaces_sees _).bind _
  | declaration => exact Reading.surfaces_advance.bind _
  | expression => exact Reading.surfaces_assignment
  | assignment => exact Reading.surfaces_assignment
  | additive => exact Reading.surfaces_additive
  | multiplicative => exact Reading.surfaces_primary.bind _
  | primary => exact Reading.surfaces_primary

/-! ## Any rules in any order -/

/-- The parser after some rules that were asked for, whether they failed or not. -/
def after (p : Parser) (rules : List Rule) : Parser := rules.foldl (fun p rule => (p.call rule).2) p

/-- Rules are asked for one after the other. -/
theorem after_append (p : Parser) (rules more : List Rule) :
    p.after (rules ++ more) = (p.after rules).after more :=
  List.foldl_append

@[simp]
theorem after_cons (p : Parser) (rule : Rule) (rules : List Rule) :
    p.after (rule :: rules) = (p.call rule).2.after rules := rfl

/-- The whole program is refused if it was asked for before, and any other rule is read. -/
theorem call_eq_ite (p : Parser) (rule : Rule) :
    p.call rule = if rule = .program ∧ p.hasProduced then (.error .alreadyProduced, p)
      else ((rule.reading p.cursor).1.mapError .parse,
        ⟨(rule.reading p.cursor).2, p.hasProduced || rule = .program⟩) := rfl

/-- A program that was asked for before is refused, and nothing moves. -/
theorem call_program {p : Parser} (h : p.hasProduced) :
    p.call .program = (.error .alreadyProduced, p) := by
  rw [call_eq_ite, if_pos ⟨rfl, h⟩]

/-- Nothing else is refused for that reason. -/
theorem call_fst_eq_alreadyProduced_iff {p : Parser} {rule : Rule} :
    (p.call rule).1 = .error .alreadyProduced ↔ rule = .program ∧ p.hasProduced := by
  rw [call_eq_ite]
  split
  · simpa
  · rename_i hrule
    refine iff_of_false ?_ hrule
    -- A rule that is read fails with a parse error, if it fails.
    show (rule.reading p.cursor).1.mapError Refusal.parse ≠ _
    cases (rule.reading p.cursor).1 <;> simp [Except.mapError]

/-- The program counts as asked for even if it could not be read. -/
theorem hasProduced_call (p : Parser) (rule : Rule) :
    (p.call rule).2.hasProduced = (p.hasProduced || rule = .program) := by
  rw [call_eq_ite]
  split
  · simp [*]
  · rfl

/-- After some rules the program was asked for if it is one of them, or was before. -/
theorem hasProduced_after {p : Parser} {rules : List Rule} :
    (p.after rules).hasProduced ↔ p.hasProduced ∨ .program ∈ rules := by
  induction rules generalizing p with
  | nil => simp [after]
  | cons rule rules ih =>
    rw [after_cons, ih, hasProduced_call, Bool.or_eq_true, decide_eq_true_iff, or_assoc,
      List.mem_cons, eq_comm (a := rule)]

theorem hasProduced_after_ofSource {source : String} {rules : List Rule} :
    ((ofSource source).after rules).hasProduced ↔ .program ∈ rules :=
  hasProduced_after.trans (or_iff_right Bool.false_ne_true)

/-- A call takes tokens one by one, whether it fails or not. -/
theorem steps_call (p : Parser) (rule : Rule) :
    ReflTransGen Cursor.Step p.cursor (p.call rule).2.cursor := by
  rw [call_eq_ite]
  split
  · exact .refl
  · exact (rule.points_reading p.cursor).steps

/-- So do any number of calls. -/
theorem steps_after (p : Parser) (rules : List Rule) :
    ReflTransGen Cursor.Step p.cursor (p.after rules).cursor := by
  induction rules generalizing p with
  | nil => exact .refl
  | cons rule rules ih => exact (steps_call p rule).trans (ih _)

/-- A parse error of a call is one of the rule, at the cursor where the rule stopped. -/
theorem reading_of_call {p p' : Parser} {rule : Rule} {e : ParseError}
    (h : p.call rule = (.error (.parse e), p')) :
    rule.reading p.cursor = (.error e, p'.cursor) := by
  rw [call_eq_ite] at h
  split at h
  · simp at h
  · obtain ⟨hresult, rfl⟩ := Prod.mk.inj h
    rcases hread : rule.reading p.cursor with ⟨e' | node, d⟩
    · rw [hread] at hresult
      obtain rfl : e' = e := by simpa [Except.mapError] using hresult
      rfl
    · simp [hread, Except.mapError] at hresult

/-- The parse error of a call holds where the parser stands after it. -/
theorem holdsAt_of_call {p p' : Parser} {rule : Rule} {e : ParseError}
    (h : p.call rule = (.error (.parse e), p')) : e.HoldsAt p'.cursor := by
  have hpoints := rule.points_reading p.cursor
  rw [reading_of_call h] at hpoints
  exact (hpoints.raised e rfl).holds

/-- Where the lexer has failed, every rule that is read fails with that, and nothing moves. -/
theorem call_of_failed {p : Parser} {rule : Rule} {f : LexError} (h : p.cursor.ahead = .failed f)
    (hrule : ¬ (rule = .program ∧ p.hasProduced)) :
    (p.call rule).1 = .error (.parse (.lexer f)) := by
  rw [call_eq_ite, if_neg hrule, rule.surfaces_reading p.cursor f h]
  rfl

theorem cursor_call_of_failed {p : Parser} {f : LexError} (h : p.cursor.ahead = .failed f)
    (rule : Rule) : (p.call rule).2.cursor = p.cursor := by
  rw [call_eq_ite]
  split
  · rfl
  · rw [rule.surfaces_reading p.cursor f h]

/-- No rule gets past a failure of the lexer. -/
theorem cursor_after_of_failed {p : Parser} {f : LexError} (h : p.cursor.ahead = .failed f)
    (rules : List Rule) : (p.after rules).cursor = p.cursor := by
  induction rules generalizing p with
  | nil => rfl
  | cons rule rules ih =>
    have hcursor := cursor_call_of_failed h rule
    rw [after_cons, ih (hcursor ▸ h), hcursor]

end Parser

/-- Cursors move along the tokens of the source, and never back. -/
theorem Cursor.StandsAt.steps {source : String} {i : Nat} {c d : Cursor}
    (h : c.StandsAt source i) (hsteps : ReflTransGen Cursor.Step c d) :
    ∃ j, i ≤ j ∧ d.StandsAt source j := by
  induction hsteps with
  | refl => exact ⟨i, Nat.le_refl i, h⟩
  | tail _ hstep ih =>
    obtain ⟨j, hij, hj⟩ := ih
    obtain ⟨t, ht, rfl⟩ := hstep
    exact ⟨j + 1, Nat.le_succ_of_le hij, hj.next ht⟩

/-- Whatever a parser was asked for before, a rule that fails leaves it before the offending token:
the error has the span of the cursor and is about what is ahead of it, and only tokens before that
are taken. Once the lexer has failed under a rule, every rule after it fails with the same, and the
cursor stays. The whole program is read only once; asked for again, it is refused, and the parser
stays as it is. -/
theorem Parser.calls_fail_in_place (source : String) (before : List Rule) (rule : Rule) :
    let p := (ofSource source).after before
    (∀ e p', p.call rule = (.error (.parse e), p') →
        p'.cursor.span = e.span ∧ e.HoldsAt p'.cursor ∧
          ∃ i j, i ≤ j ∧ p.cursor.StandsAt source i ∧ p'.cursor.StandsAt source j) ∧
      (∀ f p', p.call rule = (.error (.parse (.lexer f)), p') → ∀ later next,
        next ≠ .program ∨ .program ∉ before ++ rule :: later →
          ((p'.after later).call next).1 = .error (.parse (.lexer f)) ∧
            ((p'.after later).call next).2.cursor = p'.cursor) ∧
      ((p.call rule).1 = .error .alreadyProduced ↔ rule = .program ∧ .program ∈ before) ∧
      (.program ∈ before → p.call .program = (.error .alreadyProduced, p)) := by
  intro p
  refine ⟨fun e p' hcall => ?_, fun f p' hcall later next hnext => ?_, ?_, fun hbefore => ?_⟩
  · have hsteps : ReflTransGen Cursor.Step p.cursor p'.cursor := by
      have hsteps := steps_call p rule
      rwa [hcall] at hsteps
    obtain ⟨i, -, hi⟩ :=
      (Cursor.standsAt_ofSource source).steps (steps_after (ofSource source) before)
    obtain ⟨j, hij, hj⟩ := hi.steps hsteps
    have hholds := holdsAt_of_call hcall
    exact ⟨hholds.span_eq.symm, hholds, i, j, hij, hi, hj⟩
  · -- The lexer has failed at the cursor, where every later rule starts.
    have hfailed : p'.cursor.ahead = .failed f := by
      cases holdsAt_of_call hcall with
      | lexer h => exact h
    have hcursor := cursor_after_of_failed hfailed later
    rw [← hcursor] at hfailed
    refine ⟨call_of_failed hfailed ?_, (cursor_call_of_failed hfailed next).trans hcursor⟩
    have hlater : (ofSource source).after (before ++ rule :: later) = p'.after later := by
      rw [after_append, after_cons]
      exact congrArg (fun answer => answer.2.after later) hcall
    rw [← hlater, hasProduced_after_ofSource]
    rintro ⟨hprogram, hmem⟩
    exact hnext.elim (absurd hprogram) (absurd hmem)
  · rw [call_fst_eq_alreadyProduced_iff, hasProduced_after_ofSource]
  · exact call_program (hasProduced_after_ofSource.2 hbefore)

/-- A declaration is asked for at a sign, which is taken for its keyword, and fails before the next
token. Then the program is asked for, and fails where no token can be read. An operand fails with
the same after it, and the program is refused. -/
theorem Parser.calls_fail_in_place_sign :
    (∃ p', (ofSource "= let €").call .declaration =
        (.error (.parse (.nameMissing "=" ⟨2, 5⟩)), p') ∧ p'.cursor.span = ⟨2, 5⟩) ∧
      ∃ f p', ((ofSource "= let €").after [.declaration]).call .program =
          (.error (.parse (.lexer f)), p') ∧ p'.cursor.span = ⟨6, 9⟩ ∧
        ((p'.after [.statement, .program]).call .primary).1 = .error (.parse (.lexer f)) ∧
        p'.call .program = (.error .alreadyProduced, p') := by
  have hfails : ∀ (p : Parser) (rule : Rule) (refusal : Refusal),
      (match (p.call rule).1 with
        | .ok _ => none
        | .error found => some found) = some refusal →
          ∃ p', p.call rule = (.error refusal, p') := by
    intro p rule refusal h
    rcases hcall : p.call rule with ⟨found | node, p'⟩
    · obtain rfl : found = refusal := by simpa [hcall] using h
      exact ⟨p', rfl⟩
    · simp [hcall] at h
  obtain ⟨p₁, h₁⟩ := hfails (ofSource "= let €") .declaration
    (.parse (.nameMissing "=" ⟨2, 5⟩)) (by decide +kernel)
  obtain ⟨p₂, h₂⟩ := hfails ((ofSource "= let €").after [.declaration]) .program
    (.parse (.lexer (.unexpectedCharacter '€' ⟨6, 1, 7⟩))) (by decide +kernel)
  obtain ⟨hfirst, -⟩ := calls_fail_in_place "= let €" [] .declaration
  obtain ⟨hsecond, hlater, -⟩ := calls_fail_in_place "= let €" [.declaration] .program
  obtain ⟨-, -, -, hagain⟩ := calls_fail_in_place "= let €" [.declaration, .program] .program
  have hp₂ : (ofSource "= let €").after [.declaration, .program] = p₂ := congrArg Prod.snd h₂
  refine ⟨⟨p₁, h₁, (hfirst _ p₁ h₁).1⟩, _, p₂, h₂, (hsecond _ p₂ h₂).1, ?_, ?_⟩
  · exact (hlater _ p₂ h₂ [.statement, .program] .primary (.inl (by decide))).1
  · rw [← hp₂]
    exact hagain (by simp)

end LetCalc
