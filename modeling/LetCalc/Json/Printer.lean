import LetCalc.Json

/-!
# Writing JSON documents

A document over several lines: every item and field on a line of its own, indented by two spaces
for each collection around it. Characters outside ASCII stand for themselves. A half of a surrogate
pair, which no program that was parsed holds, is written as its escape.
-/

namespace LetCalc.Json

namespace Printer

/-- One character inside double quotation marks. -/
def escape (c : Char) : List Char :=
  if c = '\x22' ∨ c = '\\' then ['\\', c]
  else if c = '\n' then ['\\', 'n']
  else if c = '\r' then ['\\', 'r']
  else if c = '\t' then ['\\', 't']
  else if c = '\x0c' then ['\\', 'f']
  else if c = '\x08' then ['\\', 'b']
  else if c.toNat < 0x20 then '\\' :: 'u' :: Text.hexadecimal 4 c.toNat
  else [c]

/-- One code point inside double quotation marks. -/
def escapePoint : CodePoint → List Char
  | .char c => escape c
  | .half offset => CodePoint.escapeHalf offset

/-- A text in double quotation marks. -/
def text (s : LooseText) : List Char := '\x22' :: (s.points.flatMap escapePoint ++ ['\x22'])

/-- A floating point number. -/
def float : Binary64 → List Char
  | .nan => "NaN".toList
  | .infinite negative => (if negative then "-Infinity" else "Infinity").toList
  | x => x.text.toList

/-- A value without parts. -/
def scalar : Scalar → List Char
  | .null => "null".toList
  | .bool b => (if b then "true" else "false").toList
  | .int i => (toString i).toList
  | .float x => float x
  | .text s => text s

/-- The start of a line with the given indentation. -/
def newline (indent : Nat) : List Char := '\n' :: List.replicate indent ' '

mutual

/-- A value in a line with the given indentation. -/
def value (indent : Nat) : Json → List Char
  | .scalar s => scalar s
  | .array [] => ['[', ']']
  | .array (first :: rest) =>
    '[' :: (newline (indent + 2) ++ value (indent + 2) first ++ items (indent + 2) rest ++
      newline indent ++ [']'])
  | .object [] => ['\x7b', '\x7d']
  | .object ((key, first) :: rest) =>
    '\x7b' :: (newline (indent + 2) ++ text key ++ [':', ' '] ++ value (indent + 2) first ++
      members (indent + 2) rest ++ newline indent ++ ['\x7d'])

/-- The items of an array after the first. -/
def items (indent : Nat) : List Json → List Char
  | [] => []
  | item :: rest => ',' :: (newline indent ++ value indent item ++ items indent rest)

/-- The fields of an object after the first. -/
def members (indent : Nat) : List (LooseText × Json) → List Char
  | [] => []
  | (key, item) :: rest =>
    ',' :: (newline indent ++ text key ++ [':', ' '] ++ value indent item ++ members indent rest)

end

end Printer

/-- The text of a document. It does not end in a line feed. -/
def write (j : Json) : String := String.ofList (Printer.value 0 j)

end LetCalc.Json
