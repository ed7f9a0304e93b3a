import LetCalc.Binary64
import LetCalc.Text.Quoted

/-!
# Tokens

The words of a program, each with its place in the source text. Everything a program may hold
before a failure is ASCII, so that an offset counts characters and bytes alike.

Here and everywhere else, a source text is a sequence of Unicode scalar values. Texts with unpaired
halves of surrogate pairs are left out as sources; only documents can hold them (`LooseText`).
-/

namespace LetCalc

/-- A half-open range of offsets into a source text. -/
structure Span where
  /-- The offset of the first byte. -/
  start : Nat
  /-- The offset after the last byte. -/
  stop : Nat
deriving DecidableEq, Repr

/-- A place in a source text. -/
structure Place where
  /-- The number of characters before it. -/
  offset : Nat
  /-- The line, counted from one. -/
  line : Nat
  /-- The column in that line, counted from one. -/
  column : Nat
deriving DecidableEq, Repr

namespace Place

/-- The start of a text. -/
def origin : Place := ⟨0, 1, 1⟩

/-- The place after one more character. Only a line feed starts a new line. -/
def step (p : Place) (c : Char) : Place :=
  if c = '\n' then ⟨p.offset + 1, p.line + 1, 1⟩ else ⟨p.offset + 1, p.line, p.column + 1⟩

/-- The place after some more characters. -/
def advance (p : Place) (cs : List Char) : Place := cs.foldl step p

end Place

/-- What a token is. -/
inductive Token.Kind where
  | leftParen
  | rightParen
  | plus
  | minus
  | star
  | slash
  | equals
  | semicolon
  /-- A numeral, with the number it denotes. -/
  | number (value : Binary64)
  | identifier
  | letKeyword
  | constKeyword
deriving DecidableEq, Repr

/-- A word of a program. -/
structure Token where
  /-- What the token is. -/
  kind : Token.Kind
  /-- The characters of the token. -/
  text : String
  /-- Where it starts. -/
  place : Place
deriving DecidableEq, Repr

namespace Token

/-- The name of a kind of token. -/
def Kind.name : Kind → String
  | .leftParen => "LPAREN"
  | .rightParen => "RPAREN"
  | .plus => "PLUS"
  | .minus => "MINUS"
  | .star => "STAR"
  | .slash => "SLASH"
  | .equals => "EQUALS"
  | .semicolon => "SEMICOLON"
  | .number _ => "NUMBER"
  | .identifier => "IDENTIFIER"
  | .letKeyword => "LET"
  | .constKeyword => "CONST"

/-- The kind of a punctuation character. -/
def Kind.ofPunctuation? : Char → Option Kind
  | '(' => some .leftParen
  | ')' => some .rightParen
  | '+' => some .plus
  | '-' => some .minus
  | '*' => some .star
  | '/' => some .slash
  | '=' => some .equals
  | ';' => some .semicolon
  | _ => none

/-- The kind of a word: a keyword exactly if the whole word is one. -/
def Kind.ofWord (word : List Char) : Kind :=
  if word = ['l', 'e', 't'] then .letKeyword
  else if word = ['c', 'o', 'n', 's', 't'] then .constKeyword
  else .identifier

/-- The range of the source text that a token covers. -/
def span (t : Token) : Span := ⟨t.place.offset, t.place.offset + t.text.length⟩

/-- A token as messages describe it. -/
def describe (t : Token) : String :=
  s!"Token({t.kind.name}, {Text.quoted t.text}, {t.span.start}..{t.span.stop})"

end Token

end LetCalc
