import LetCalc.Token.Lexer

/-!
# Parse errors

What can be wrong with the tokens of a program. Every error has a span: the offending token, what
the lexer failed on, or the empty range at the end of the source.
-/

namespace LetCalc

/-- Why tokens do not form a program. -/
inductive ParseError where
  /-- The next token could not be read. -/
  | lexer (e : LexError)
  /-- A token is needed at the end of the source. -/
  | unexpectedEnd (span : Span)
  /-- An operand is needed at the end of the source. -/
  | operandMissing (span : Span)
  /-- A keyword stands in the place of an operand. -/
  | keywordOperand (token : Token)
  /-- Another token stands in the place of an operand. -/
  | unexpectedToken (token : Token)
  /-- No name follows the start of a declaration. -/
  | nameMissing (keyword : String) (span : Span)
  /-- A constant is declared without a value. -/
  | valueMissing (name : String) (span : Span)
  /-- Neither a value nor an end follows the name in a declaration. -/
  | equalsMissing (name : String) (span : Span)
  /-- A declaration does not end. -/
  | semicolonMissing (name : String) (span : Span)
deriving DecidableEq, Repr

namespace ParseError

/-- Where the error is. -/
def span : ParseError → Span
  | .lexer e => e.span
  | .unexpectedEnd s => s
  | .operandMissing s => s
  | .keywordOperand t => t.span
  | .unexpectedToken t => t.span
  | .nameMissing _ s => s
  | .valueMissing _ s => s
  | .equalsMissing _ s => s
  | .semicolonMissing _ s => s

/-- What is wrong. -/
def message : ParseError → String
  | .lexer e => s!"lexer error: {e.message}"
  | .unexpectedEnd _ => "unexpected end of input"
  | .operandMissing _ => "unexpected end of input (context: primary expression)"
  | .keywordOperand t => s!"keyword '{t.text}' cannot be used in an expression"
  | .unexpectedToken t =>
    s!"unexpected token {Text.quoted t.text} (context: primary expression)"
  | .nameMissing keyword _ => s!"expected identifier name following '{keyword}'"
  | .valueMissing name _ => s!"must assign value to const declaration '{name}'"
  | .equalsMissing name _ => s!"expected '=' after identifier name '{name}'"
  | .semicolonMissing name _ => s!"expected ';' after declaration of '{name}'"

end ParseError

/-- A message with the range it is about. -/
def Span.locate (span : Span) (message : String) : String :=
  s!"{message} at {span.start}..{span.stop}"

end LetCalc
