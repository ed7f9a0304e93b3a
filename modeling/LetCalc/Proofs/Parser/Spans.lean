import LetCalc.Proofs.Parser.Errors
import LetCalc.Proofs.Token.Bytes

/-!
# Where errors point

When a rule of the parser fails, its error points at what is ahead of the cursor. Since a cursor
stays within its source, every error of a parser points at the bytes of a token, at those of the
character or numeral that no token can be read from, or at the end of the source.

* `Cursor.Within`: what is ahead of a cursor is what is left of the source.
* `Cursor.Within.offends`: what is ahead of a cursor, in bytes.
* `spans_are_byteRanges`: all spans that are reported for a source.
-/

namespace LetCalc

open Relation (ReflTransGen)

/-! ## Within a source -/

/-- The span is the range of the bytes of what is ahead of a cursor in the source: of a token, of
what ends the tokens, or of the end of the source. -/
inductive Offends (source : String) (span : Span) : Cursor.Ahead → Prop
  | token {t : Token} : t ∈ (Lexer.ofSource source).tokens.1 →
      span.IsByteRange source t.place.offset t.text → Offends source span (.token t)
  | failed {f : LexError} : (Lexer.ofSource source).tokens.2 = some f →
      span.IsByteRange source f.place.offset f.offender → Offends source span (.failed f)
  | finished : (Lexer.ofSource source).tokens.2 = none →
      span = ⟨(Text.Utf8.encode source).length, (Text.Utf8.encode source).length⟩ →
        Offends source span .finished

theorem Offends.le {source : String} {span : Span} {ahead : Cursor.Ahead}
    (h : Offends source span ahead) :
    span.start ≤ span.stop ∧ span.stop ≤ (Text.Utf8.encode source).length := by
  cases h with
  | token _ hrange => exact hrange.le
  | failed _ hrange => exact hrange.le
  | finished _ hspan =>
    rw [hspan]
    exact ⟨Nat.le_refl _, Nat.le_refl _⟩

namespace Cursor

/-- The tokens ahead of the cursor are the last ones of the source. -/
structure Within (source : String) (c : Cursor) : Prop where
  upcoming : c.upcoming <:+ (Lexer.ofSource source).tokens.1
  failure : c.failure = (Lexer.ofSource source).tokens.2
  size : c.size = source.length

variable {source : String} {c d : Cursor}

theorem within_ofSource (source : String) : (ofSource source).Within source where
  upcoming := upcoming_ofSource source ▸ List.suffix_refl _
  failure := failure_ofSource source
  size := size_ofSource source

/-- Taking a token leaves the others. -/
theorem Within.step (h : c.Within source) (hstep : Step c d) : d.Within source := by
  obtain ⟨t, ht, rfl⟩ := hstep
  refine ⟨?_, (failure_of_token ht).symm.trans h.failure, c.size_next.trans h.size⟩
  have hupcoming := h.upcoming
  rw [upcoming_of_token ht] at hupcoming
  exact (List.suffix_cons t _).trans hupcoming

theorem Within.steps (h : c.Within source) (hsteps : ReflTransGen Step c d) : d.Within source := by
  induction hsteps with
  | refl => exact h
  | tail _ hstep ih => exact ih.step hstep

/-- A token that is ahead is one of the source. -/
theorem Within.mem_tokens (h : c.Within source) {t : Token} (ht : c.ahead = .token t) :
    t ∈ (Lexer.ofSource source).tokens.1 := by
  apply h.upcoming.subset
  rw [upcoming_of_token ht]
  exact List.mem_cons_self

/-- What is ahead of a cursor has the span of the cursor. -/
theorem Within.offends (h : c.Within source) : Offends source c.span c.ahead := by
  cases hahead : c.ahead with
  | token t =>
    have ht := h.mem_tokens hahead
    rw [span_of_token hahead]
    exact .token ht (Lexer.isByteRange_token ht)
  | failed f =>
    have hf := h.failure.symm.trans (failure_of_failed hahead)
    rw [span_of_failed hahead]
    exact .failed hf (Lexer.isByteRange_failure hf)
  | finished =>
    have hnone := h.failure.symm.trans (failure_of_finished hahead)
    obtain ⟨before, after, hsource, hlength, hstart, -⟩ := Lexer.isByteRange_end hnone
    -- All of the source comes before its end.
    have hall : before = source := by
      have hlengths := congrArg String.length hsource
      rw [String.length_append, String.length_append, hlength] at hlengths
      have hafter : after = "" := String.length_eq_zero_iff.1 (by omega)
      rw [hsource, hafter, String.append_empty, String.append_empty]
    rw [span_of_finished hahead, h.size]
    refine .finished hnone ?_
    rw [← hall] at hstart ⊢
    exact congrArg (fun n => (⟨n, n⟩ : Span)) hstart

end Cursor

/-- The error of a computation on a cursor within a source. -/
theorem Reading.Points.offends {α : Type} {r : Reading α} (hr : r.Points) {source : String}
    {c : Cursor} (hc : c.Within source) {e : ParseError} (he : (r c).1 = .error e) :
    Offends source e.span (r c).2.ahead := by
  rw [((hr c).raised e he).holds.span_eq]
  exact (hc.steps (hr c).steps).offends

namespace Parser

/-- The parsers that a source text is read with, after any rules that were asked for. -/
inductive Reached (source : String) : Parser → Prop
  | start : Reached source (.ofSource source)
  | call {p : Parser} (rule : Rule) : Reached source p → Reached source (p.call rule).2

theorem call_eq (p : Parser) (rule : Rule) :
    p.call rule = (.error .alreadyProduced, p) ∨
      p.call rule = ((rule.reading p.cursor).1.mapError .parse,
        ⟨(rule.reading p.cursor).2, p.hasProduced || rule = .program⟩) := by
  unfold call
  split
  · exact .inl rfl
  · exact .inr rfl

theorem Reached.within {source : String} {p : Parser} (h : Reached source p) :
    p.cursor.Within source := by
  induction h with
  | start => exact Cursor.within_ofSource source
  | @call p rule _ ih =>
    rcases call_eq p rule with hcall | hcall
    · rw [hcall]
      exact ih
    · rw [hcall]
      exact ih.steps (rule.points_reading p.cursor).steps

/-- Errors of a parser point at what is ahead of it. -/
theorem Reached.offends {source : String} {p p' : Parser} (h : Reached source p) {rule : Rule}
    {e : ParseError} (hcall : p.call rule = (.error (.parse e), p')) :
    Offends source e.span p'.cursor.ahead := by
  rcases call_eq p rule with heq | heq
  · exact nomatch heq.symm.trans hcall
  · obtain ⟨hresult, rfl⟩ := Prod.mk.inj (heq.symm.trans hcall)
    have herror : (rule.reading p.cursor).1 = .error e := by
      cases hread : (rule.reading p.cursor).1 with
      | ok node =>
        rw [hread] at hresult
        exact nomatch hresult
      | error e' =>
        rw [hread] at hresult
        injection hresult with hresult
        injection hresult with hresult
        rw [hresult]
    exact (rule.points_reading).offends h.within herror

end Parser

/-- The spans that are reported for a source are ranges of its bytes. -/
structure SpansAreByteRanges (source : String) : Prop where
  /-- The span of a token cuts its text out of the bytes of the source. -/
  token : ∀ t ∈ (Lexer.ofSource source).tokens.1,
    t.span.IsByteRange source t.place.offset t.text ∧
      (Text.Utf8.encode source).extract t.span.start t.span.stop = Text.Utf8.encode t.text
  /-- The span of a failure is that of one character or of a numeral. -/
  failure : ∀ f, (Lexer.ofSource source).tokens.2 = some f →
    f.span.IsByteRange source f.place.offset f.offender
  /-- An error of a cursor, wherever it stands, is about what is ahead of it. -/
  cursor : ∀ c, ReflTransGen Cursor.Step (.ofSource source) c → ∀ e,
    ((Reading.peek c).1 = .error e → Offends source e.span (Reading.peek c).2.ahead) ∧
      ((Reading.advance c).1 = .error e → Offends source e.span (Reading.advance c).2.ahead) ∧
      ∀ kinds, (Reading.sees kinds c).1 = .error e →
        Offends source e.span (Reading.sees kinds c).2.ahead
  /-- So is an error of a parser, whatever it was asked for before. -/
  call : ∀ p, Parser.Reached source p → ∀ rule e p', p.call rule = (.error (.parse e), p') →
    Offends source e.span p'.cursor.ahead ∧
      e.span.start ≤ e.span.stop ∧ e.span.stop ≤ (Text.Utf8.encode source).length
  /-- The error of a source that is no program is one of these. -/
  parse : ∀ e, Program.parse source = .error e →
    ∃ p', (Parser.ofSource source).call .program = (.error (.parse e), p')

/-- All spans are exact ranges of bytes, although only one character is ever measured in bytes. -/
theorem spans_are_byteRanges (source : String) : SpansAreByteRanges source where
  token t ht := ⟨Lexer.isByteRange_token ht, (Lexer.isByteRange_token ht).extract_eq⟩
  failure _ hf := Lexer.isByteRange_failure hf
  cursor c hc e := by
    have hwithin := (Cursor.within_ofSource source).steps hc
    exact ⟨Reading.points_peek.offends hwithin, Reading.points_advance.offends hwithin,
      fun kinds => (Reading.points_sees kinds).offends hwithin⟩
  call p hp rule e p' hcall := ⟨hp.offends hcall, (hp.offends hcall).le⟩
  parse e he := by
    rw [Program.parse] at he
    rcases hr : Reading.program (.ofSource source) with ⟨e' | program, d⟩
    · rw [hr] at he
      obtain rfl := Except.error.inj he
      have hread : Parser.Rule.program.reading (.ofSource source) = (.error e', d) := by
        rw [Parser.Rule.reading, Reading.bind_apply, hr]
      refine ⟨⟨d, true⟩, ?_⟩
      simp [Parser.call, Parser.ofSource, hread, Except.mapError]
    · rw [hr] at he
      exact nomatch he

example : (match Program.parse "1 + €" with
    | .ok _ => none
    | .error e => some e.span) = some ⟨4, 7⟩ := by decide +kernel

end LetCalc
