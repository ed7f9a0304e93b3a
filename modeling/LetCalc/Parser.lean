import LetCalc.Node.Parser

/-!
# Parsers

A parser reads one source text, rule by rule as it is asked to. A rule that fails leaves the
parser where it stands, and the next rule goes on from there. The whole program can be asked for
only once.
-/

namespace LetCalc

/-- A rule of the grammar that a parser can be asked for. -/
inductive Parser.Rule where
  | program
  | statement
  | declaration
  | expression
  | assignment
  | additive
  | multiplicative
  | primary
deriving DecidableEq, Repr

/-- A source text that is being read. -/
structure Parser where
  /-- Where reading goes on. -/
  cursor : Cursor
  /-- Whether the whole program was asked for. -/
  hasProduced : Bool

namespace Parser

/-- Why a rule gives no node. -/
inductive Refusal where
  /-- The tokens ahead do not match the rule. -/
  | parse (e : ParseError)
  /-- The whole program was asked for before. -/
  | alreadyProduced
deriving DecidableEq, Repr

/-- What is wrong. -/
def Refusal.message : Refusal → String
  | .parse e => e.message
  | .alreadyProduced => "parser has already produced its AST"

/-- A parser at the start of a source text. -/
def ofSource (source : String) : Parser := ⟨.ofSource source, false⟩

/-- The computation for a rule. -/
def Rule.reading : Rule → Reading Node
  | .program => return .program (← (Reading.program : Reading Program))
  | .statement => Reading.statement
  | .declaration => Reading.declaration
  | .expression => Reading.expression
  | .assignment => Reading.assignment
  | .additive => Reading.additive
  | .multiplicative => Reading.multiplicative
  | .primary => Reading.primary

/-- Asks for a rule. -/
def call (p : Parser) (rule : Rule) : Except Refusal Node × Parser :=
  if rule = .program ∧ p.hasProduced then (.error .alreadyProduced, p)
  else
    let (result, cursor) := rule.reading p.cursor
    (result.mapError .parse, ⟨cursor, p.hasProduced || rule = .program⟩)

end Parser

end LetCalc
