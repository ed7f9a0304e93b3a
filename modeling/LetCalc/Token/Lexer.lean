import LetCalc.Token
import LetCalc.Decimal.Numeral

/-!
# Reading tokens

A `Lexer` is what is left of a source text. `Lexer.next` takes the next token off it: the longest
one at the start, after spaces, tabs, line feeds and form feeds are skipped. A character that
starts no token, or a numeral too large for a number, ends the tokens for good.

* `Lexer.next`: one step.
* `Lexer.tokens`: all tokens up to the end or the first failure.
-/

namespace LetCalc

/-- Why a text has no next token. -/
inductive LexError where
  /-- No token starts with this character. -/
  | unexpectedCharacter (char : Char) (place : Place)
  /-- The number that the numeral denotes is too large. -/
  | outOfRange (numeral : String) (place : Place)
deriving DecidableEq, Repr

namespace LexError

/-- The place of the failure. -/
def place : LexError → Place
  | .unexpectedCharacter _ p => p
  | .outOfRange _ p => p

/-- The bytes of the offending character or numeral. -/
def span : LexError → Span
  | .unexpectedCharacter c p => ⟨p.offset, p.offset + c.utf8Size⟩
  | .outOfRange numeral p => ⟨p.offset, p.offset + numeral.length⟩

/-- What is wrong. -/
def message (e : LexError) : String :=
  let position := s!"{e.place.line}:{e.place.column}"
  match e with
  | .unexpectedCharacter c _ =>
    s!"unexpected character {Text.quoted (String.singleton c)} at {position}"
  | .outOfRange numeral _ => s!"numeric literal {numeral} is out of range at {position}"

end LexError

/-- What is left of a source text, and where that starts. -/
structure Lexer where
  /-- The characters that are left. -/
  rest : List Char
  /-- The place of the first of them. -/
  place : Place

namespace Lexer

/-- The answer to a request for the next token. -/
inductive Step where
  /-- There is no further token. -/
  | done
  /-- The next token. -/
  | token (t : Token)
  /-- The text has no next token. -/
  | failure (e : LexError)
deriving DecidableEq, Repr

/-- A whole source text. -/
def ofSource (source : String) : Lexer := ⟨source.toList, .origin⟩

/-- The characters skipped between tokens. -/
def isSkipped (c : Char) : Bool := c = ' ' || c = '\t' || c = '\n' || c = '\x0c'

/-- The characters that start an identifier. -/
def isNameStart (c : Char) : Bool := c.isAlpha || c = '_'

/-- The characters that continue an identifier. -/
def isNamePart (c : Char) : Bool := c.isAlphanum || c = '_'

/-- The token with the given kind and text at a place, and what is left of the characters `rest`
after its first one. -/
def take (kind : Token.Kind) (text : List Char) (place : Place) (rest : List Char) :
    Step × Lexer :=
  (.token ⟨kind, String.ofList text, place⟩, ⟨rest.drop (text.length - 1), place.advance text⟩)

/-- The token that starts with the character `c`, followed by `rest`. After a failure nothing is
left. -/
def scan (c : Char) (rest : List Char) (place : Place) : Step × Lexer :=
  match Token.Kind.ofPunctuation? c, Numeral.scan? (c :: rest) with
  | some kind, _ => take kind [c] place rest
  | none, some numeral =>
    let value := numeral.decimal.toBinary64 false
    -- A numeral is nonnegative, so that it is either finite or too large.
    if value.isFinite then take (.number value) numeral.text place rest
    else (.failure (.outOfRange (String.ofList numeral.text) place), ⟨[], place⟩)
  | none, none =>
    if isNameStart c then
      let word := c :: rest.takeWhile isNamePart
      take (.ofWord word) word place rest
    else (.failure (.unexpectedCharacter c place), ⟨[], place⟩)

/-- The next token, and what is left after it. -/
def next (lexer : Lexer) : Step × Lexer :=
  let place := lexer.place.advance (lexer.rest.takeWhile isSkipped)
  match lexer.rest.dropWhile isSkipped with
  | [] => (.done, ⟨[], place⟩)
  | c :: rest => scan c rest place

theorem scan_rest_length_le (c : Char) (rest : List Char) (place : Place) :
    (scan c rest place).2.rest.length ≤ rest.length := by
  unfold scan take
  dsimp only
  repeat' split
  all_goals simp

/-- Every token takes at least one character. -/
theorem next_rest_length_lt {lexer left : Lexer} {t : Token}
    (h : lexer.next = (.token t, left)) : left.rest.length < lexer.rest.length := by
  have hle : (lexer.rest.dropWhile isSkipped).length ≤ lexer.rest.length :=
    (List.dropWhile_suffix isSkipped).length_le
  unfold next at h
  split at h
  · simp at h
  · rename_i c rest hrest
    rw [hrest, List.length_cons] at hle
    have := scan_rest_length_le c rest (lexer.place.advance (lexer.rest.takeWhile isSkipped))
    simp only [h] at this
    omega

/-- All tokens up to the end or the first failure, and that failure. -/
def tokens (lexer : Lexer) : List Token × Option LexError :=
  match _h : lexer.next with
  | (.done, _) => ([], none)
  | (.failure e, _) => ([], some e)
  | (.token t, left) =>
    let (more, failure) := left.tokens
    (t :: more, failure)
termination_by lexer.rest.length
decreasing_by exact next_rest_length_lt _h

/-- The tokens of a source text, or its first failure. -/
def tokenize (source : String) : Except LexError (List Token) :=
  match (ofSource source).tokens with
  | (found, none) => .ok found
  | (_, some e) => .error e

end Lexer

end LetCalc
