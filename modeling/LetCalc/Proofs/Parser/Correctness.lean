import LetCalc.Proofs.Parser.Conformance
import Mathlib.Order.Bounds.Basic

/-!
# Parsing follows the grammar

Two facts about `Program.parse` and the grammar, for every source text:

* `parse_eq_ok_iff_statements`: a program is returned exactly if the whole text has tokens and the
  grammar derives the program from them, which it does for at most one program.
* `parse_error_at_first_unviable`: an error is at the first token after which no program can follow
  any more; a failure of the lexer is reported only if all tokens before it can be continued.

Both come from `conforms_program`: a success is a derivation, and a failure is at a token that is no
move. That derivable tokens are not refused needs no run of the parser on them, since on the tokens
of a program all moves exist.
-/

namespace LetCalc

open Grammar

/-- A program that is returned is derived from the tokens of the text. -/
theorem exists_statements_of_parse {source : String} {program : Program}
    (h : Program.parse source = .ok program) :
    ∃ ts, Lexer.tokenize source = .ok ts ∧ Statements ts program := by
  have hc := conforms_program (resumes_start (.ofSource source))
  rw [Program.parse] at h
  rcases hr : Reading.program (.ofSource source) with ⟨e | found, d⟩
  · simp [hr] at h
  · obtain rfl : found = program := by simpa [hr] using h
    rw [hr] at hc
    obtain ⟨q, hw, hstatements, hfinished⟩ := hc
    refine ⟨_, ?_, hstatements⟩
    rw [Lexer.tokenize_eq_ok_iff, Cursor.upcoming_ofSource, ← Cursor.failure_of_finished hfinished,
      hw.failure_eq, Cursor.failure_ofSource]

theorem exists_of_isOk_parse {source : String} (h : (Program.parse source).isOk = true) :
    ∃ program, Program.parse source = .ok program := by
  cases hparse : Program.parse source with
  | error e => simp [hparse, Except.isOk, Except.toBool] at h
  | ok program => exact ⟨program, rfl⟩

/-- An error is blamed on what follows some tokens of the text that are moves. -/
theorem exists_blames_of_parse {source : String} {e : ParseError}
    (h : Program.parse source = .error e) :
    ∃ p d, Walk .start (.ofSource source) p d ∧ Blames p d e := by
  have hc := conforms_program (resumes_start (.ofSource source))
  rw [Program.parse] at h
  rcases hr : Reading.program (.ofSource source) with ⟨e' | found, d⟩
  · obtain rfl : e' = e := by simpa [hr] using h
    rw [hr] at hc
    obtain ⟨p, hw, hblames⟩ := hc
    exact ⟨p, d, hw, hblames⟩
  · simp [hr] at h

/-- A text with the tokens of a program is not refused. -/
theorem parse_ne_error {source : String} {ts : List Token} {e : ParseError}
    (hts : Lexer.tokenize source = .ok ts) (hprogram : IsProgram ts) :
    Program.parse source ≠ .error e := by
  intro h
  obtain ⟨p, d, hw, hblames⟩ := exists_blames_of_parse h
  obtain ⟨us, hus, hrun⟩ := hw.run_eq
  have htokens := Lexer.tokenize_eq_ok_iff.1 hts
  have hts' : ts = us ++ d.upcoming := by rw [← hus, Cursor.upcoming_ofSource, htokens]
  -- The blamed token would be no move, the failure is excluded, and the end would not be final.
  cases hahead : d.ahead with
  | token t =>
    rw [Cursor.upcoming_of_token hahead, List.append_cons] at hts'
    have hviable : Viable (us ++ [t] ++ d.next.upcoming) := ⟨[], by rwa [List.append_nil, ← hts']⟩
    exact not_viable_of_next_eq_none hrun (hblames.of_token t hahead) hviable.of_append
  | failed f =>
    have hfailure := hw.failure_eq
    rw [Cursor.failure_of_failed hahead, Cursor.failure_ofSource, htokens] at hfailure
    simp at hfailure
  | finished =>
    rw [Cursor.upcoming_of_finished hahead, List.append_nil] at hts'
    obtain ⟨q, hq, hfinal⟩ := isProgram_iff.1 (hts' ▸ hprogram)
    obtain rfl : p = q := by simpa [hrun] using hq
    simp [hblames.of_finished hahead] at hfinal

/-- A source text parses to a program exactly if its tokens derive it, and no token sequence
derives two programs. -/
theorem parse_eq_ok_iff_statements :
    (∀ (source : String) (program : Program), Program.parse source = .ok program ↔
      ∃ ts, Lexer.tokenize source = .ok ts ∧ Statements ts program) ∧
    ∀ (ts : List Token) (p q : Program), Statements ts p → Statements ts q → p = q := by
  refine ⟨fun source program => ⟨exists_statements_of_parse, ?_⟩, fun ts p q hp hq => hp.unique hq⟩
  rintro ⟨ts, hts, hprogram⟩
  cases h : Program.parse source with
  | error e => exact absurd h (parse_ne_error hts ⟨program, hprogram⟩)
  | ok found =>
    obtain ⟨us, hus, hfound⟩ := exists_statements_of_parse h
    obtain rfl : ts = us := by simpa [hts] using hus
    rw [hfound.unique hprogram]

/-- Moves up to a token that is none are the longest part of the tokens that can be extended to a
program. -/
theorem isGreatest_viable_take {ts us : List Token} {p : Position}
    (hrun : Position.start.run ts = some p) (hus : ∀ t, us.head? = some t → p.next t.kind = none) :
    IsGreatest {n | n ≤ (ts ++ us).length ∧ Viable ((ts ++ us).take n)} ts.length := by
  constructor
  · refine ⟨by simp, ?_⟩
    rw [List.take_left, viable_iff]
    exact ⟨p, hrun⟩
  · rintro n ⟨hn, hviable⟩
    by_contra hlt
    cases us with
    | nil =>
      rw [List.append_nil] at hn
      exact hlt hn
    | cons t us =>
      obtain ⟨m, rfl⟩ : ∃ m, n = ts.length + (m + 1) := ⟨n - ts.length - 1, by omega⟩
      rw [List.take_length_add_append, List.take_succ_cons, List.append_cons] at hviable
      exact not_viable_of_next_eq_none hrun (hus t rfl) hviable.of_append

/-- A parse error is where the tokens can no longer be extended to a program: at the token after
the longest start of the text that can, at the failure of the lexer if all tokens can, and at the
end of the text if the lexer does not fail either. -/
theorem parse_error_at_first_unviable {source : String} {e : ParseError}
    (h : Program.parse source = .error e) :
    let toks := (Lexer.ofSource source).tokens.1
    let failure := (Lexer.ofSource source).tokens.2
    ∃ k, IsGreatest {n | n ≤ toks.length ∧ Viable (toks.take n)} k ∧
      (∀ t, toks[k]? = some t → e.span = t.span) ∧
      (k = toks.length → ∀ f, failure = some f → e.span = f.span) ∧
      (k = toks.length → failure = none → e.span = ⟨source.length, source.length⟩) ∧
      (∀ f, e = .lexer f ↔ k = toks.length ∧ failure = some f) := by
  intro toks failure
  obtain ⟨p, d, hw, hblames⟩ := exists_blames_of_parse h
  obtain ⟨ts, hts, hrun⟩ := hw.run_eq
  have htoks : toks = ts ++ d.upcoming := (Cursor.upcoming_ofSource source).symm.trans hts
  have hfailure : d.failure = failure := hw.failure_eq.trans (Cursor.failure_ofSource source)
  have hsize : d.size = source.length := hw.size_eq.trans (Cursor.size_ofSource source)
  -- No token is left exactly if all tokens can be extended to a program.
  have hall : ts.length = toks.length ↔ d.upcoming = [] := by
    rw [htoks, List.length_append, ← List.length_eq_zero_iff]
    omega
  refine ⟨ts.length, ?_, ?_, ?_, ?_, ?_⟩
  · rw [htoks]
    refine isGreatest_viable_take hrun fun t ht => ?_
    exact hblames.of_token t (Cursor.ahead_eq_token_iff.2 ht)
  · intro t ht
    have hahead : d.ahead = .token t := by
      rw [Cursor.ahead_eq_token_iff, ← ht, htoks, List.head?_eq_getElem?,
        List.getElem?_append_right (Nat.le_refl _), Nat.sub_self]
    rw [hblames.span_eq, Cursor.span_of_token hahead]
  · intro hk f hf
    have hahead := Cursor.ahead_eq_failed_iff.2 ⟨hall.1 hk, hfailure.trans hf⟩
    rw [hblames.span_eq, Cursor.span_of_failed hahead]
  · intro hk hnone
    have hahead := Cursor.ahead_eq_finished_iff.2 ⟨hall.1 hk, hfailure.trans hnone⟩
    rw [hblames.span_eq, Cursor.span_of_finished hahead, hsize]
  · intro f
    rw [hblames.lexer_iff, Cursor.ahead_eq_failed_iff, hall, hfailure]

/-- A declaration cannot go on with a second operand: four tokens can be extended to a program, and
the fifth is to blame. -/
theorem parse_error_at_second_operand :
    ∃ e, Program.parse "let x = y z;" = .error e ∧ e.span = ⟨10, 11⟩ ∧
      IsGreatest {n | n ≤ 6 ∧ Viable ((Lexer.ofSource "let x = y z;").tokens.1.take n)} 4 := by
  have hspans : (Lexer.ofSource "let x = y z;").tokens.1.map Token.span =
      [⟨0, 3⟩, ⟨4, 5⟩, ⟨6, 7⟩, ⟨8, 9⟩, ⟨10, 11⟩, ⟨11, 12⟩] := by decide +kernel
  have herror : (match Program.parse "let x = y z;" with
      | .ok _ => none
      | .error e => some e.span) = some ⟨10, 11⟩ := by decide +kernel
  cases h : Program.parse "let x = y z;" with
  | ok program => simp [h] at herror
  | error e =>
    have hspan : e.span = ⟨10, 11⟩ := by simpa [h] using herror
    have hlength : (Lexer.ofSource "let x = y z;").tokens.1.length = 6 := by
      simpa using congrArg List.length hspans
    obtain ⟨k, hk, htoken, -, hend, -⟩ := parse_error_at_first_unviable h
    rw [hlength] at hk hend
    -- The end of the text is not where the error is.
    have hk6 : k ≠ 6 := by
      intro hk6
      have hspan' := hend hk6 (by decide +kernel)
      rw [hspan] at hspan'
      exact absurd hspan' (by decide +kernel)
    have hlt : k < (Lexer.ofSource "let x = y z;").tokens.1.length := by
      have hle : k ≤ 6 := hk.1.1
      omega
    have hat : ((Lexer.ofSource "let x = y z;").tokens.1.map Token.span)[k]? = some ⟨10, 11⟩ := by
      have ht := List.getElem?_eq_getElem hlt
      rw [List.getElem?_map, ht, Option.map_some, ← htoken _ ht, hspan]
    rw [hspans] at hat
    obtain rfl : k = 4 := by
      have honly : ∀ i < 6, ([⟨0, 3⟩, ⟨4, 5⟩, ⟨6, 7⟩, ⟨8, 9⟩, ⟨10, 11⟩, ⟨11, 12⟩] : List Span)[i]? =
          some ⟨10, 11⟩ → i = 4 := by decide
      exact honly k (hlength ▸ hlt) hat
    exact ⟨e, rfl, hspan, hk⟩

end LetCalc
