import LetCalc.Proofs.Node.Shape
import LetCalc.Proofs.Parser.Spans
import LetCalc.Proofs.Text.SingleLine

/-!
# What parse errors mention

A message quotes the token it is about or a token that was taken before, or passes on what the lexer
failed on. Since no token has a blank in it, and a character that no token starts with is quoted,
every message is a single line.

* `Lexer.isLine_of_failure`: what a lexer fails on is told in a line.
* `ParseError.RaisedFrom.isLine`: so is an error within a source.
* `Program.isLine_of_parse`: what is told about a source that is no program is a line.
-/

namespace LetCalc

open Text

namespace Lexer

/-- No word has a line feed in it. -/
theorem IsWord.isLine {word : Token.Kind × String} (h : IsWord word) : IsLine word.2 := by
  obtain ⟨T, hmem, -⟩ := h
  exact Terminal.lineFeed_not_mem hmem

/-- What a lexer fails on is told in a line. -/
theorem isLine_of_failure {lexer : Lexer} {e : LexError} (h : lexer.tokens.2 = some e) :
    IsLine e.message := by
  induction lexer using run_induction with
  | done lexer left hnext =>
    rw [tokens_of_done hnext] at h
    exact nomatch h
  | failure lexer found left hnext =>
    rw [tokens_of_failure hnext] at h
    obtain rfl := Option.some.inj h
    have htakes := takes_next lexer
    rw [hnext] at htakes
    unfold LexError.message
    cases htakes with
    -- A numeral is told as it is, and any other character is quoted.
    | outOfRange hlongest _ => simp [IsLine, Terminal.lineFeed_not_mem hlongest.mem]
    | unexpected _ _ => simp [IsLine, isLine_quoted]
  | token lexer t left hnext ih =>
    rw [tokens_of_token hnext] at h
    exact ih h

end Lexer

/-- A token that is ahead of a cursor within a source is a line. -/
theorem Cursor.Within.isLine_text {source : String} {c : Cursor} (hc : c.Within source) {t : Token}
    (ht : c.ahead = .token t) : IsLine t.text :=
  (Lexer.isWord_of_mem_tokens (hc.mem_tokens ht)).isLine

namespace ParseError

variable {source : String} {c d : Cursor} {e : ParseError}

/-- What is read within a source and mentioned in an error is a line. -/
theorem RaisedFrom.isLine_mention (h : e.RaisedFrom c d) (hc : c.Within source) {text : String}
    (htext : e.mention? = some text) : IsLine text := by
  obtain ⟨t, ⟨b, hsteps, ht, -⟩, rfl⟩ := h.mention text htext
  exact (hc.steps hsteps).isLine_text ht

/-- The message of an error within a source is a line. -/
theorem RaisedFrom.isLine (h : e.RaisedFrom c d) (hc : c.Within source) (hd : d.Within source) :
    IsLine e.message := by
  have hmention : ∀ text, e.mention? = some text → IsLine text := fun _ => h.isLine_mention hc
  unfold message
  cases h.holds with
  | lexer hfailed =>
    have hfailure := hd.failure.symm.trans (Cursor.failure_of_failed hfailed)
    simp [IsLine, Lexer.isLine_of_failure hfailure]
  | unexpectedEnd => simp [IsLine]
  | operandMissing => simp [IsLine]
  | keywordOperand htoken _ => simp [IsLine, hd.isLine_text htoken]
  | unexpectedToken _ _ _ => simp [IsLine, isLine_quoted]
  -- The other errors mention the keyword or the name of a declaration.
  | nameMissing keyword _ => simp [IsLine, hmention keyword rfl]
  | valueMissing name _ _ => simp [IsLine, hmention name rfl]
  | equalsMissing name _ => simp [IsLine, hmention name rfl]
  | semicolonMissing name _ => simp [IsLine, hmention name rfl]

end ParseError

/-- What is wrong with a source that is no program is told in a line. -/
theorem Program.isLine_of_parse {source : String} {e : ParseError}
    (h : Program.parse source = .error e) : IsLine (e.span.locate e.message) := by
  have hpoints := Reading.points_program (.ofSource source)
  have hsource := Cursor.within_ofSource source
  have hline := (hpoints.raised e h).isLine hsource (hsource.steps hpoints.steps)
  unfold Span.locate
  simp [IsLine, hline]

end LetCalc
