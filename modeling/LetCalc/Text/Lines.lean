/-!
# Lines

A line of a text ends at a line feed. A file that is opened as text may also end its lines with a
carriage return, alone or before a line feed; reading it turns each ending into one line feed.
Standard input is not read that way: what it holds is split as it is, and a carriage return stays
in its line.
-/

namespace LetCalc.Text

/-- The characters with every kind of line ending turned into a line feed. -/
def unifyNewlines : List Char → List Char
  | [] => []
  | '\r' :: '\n' :: rest => '\n' :: unifyNewlines rest
  | '\r' :: rest => '\n' :: unifyNewlines rest
  | c :: rest => c :: unifyNewlines rest

/-- The lines of a text, each without its line feed. A text that does not end in a line feed has
a last line of its own; the empty text has none. -/
def lines : List Char → List (List Char)
  | [] => []
  | '\n' :: rest => [] :: lines rest
  | c :: rest =>
    match lines rest with
    | [] => [[c]]
    | line :: more => (c :: line) :: more

end LetCalc.Text
