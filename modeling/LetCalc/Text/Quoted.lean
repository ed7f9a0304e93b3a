import LetCalc.Text.Hexadecimal
import LetCalc.Text.Printable

/-!
# Quoted text

A text in quotation marks, as messages show it. Single marks are used unless the text holds a
single mark and no double one. The backslash, the mark in use and every character without a
printed form are escaped.
-/

namespace LetCalc.Text

/-- The single quotation mark. -/
def singleMark : Char := '\x27'

/-- The double quotation mark. -/
def doubleMark : Char := '\x22'

/-- One character inside quotation marks `mark`. -/
def escape (mark c : Char) : List Char :=
  if c = mark ∨ c = '\\' then ['\\', c]
  else if c = '\n' then ['\\', 'n']
  else if c = '\r' then ['\\', 'r']
  else if c = '\t' then ['\\', 't']
  else if isPrintable c then [c]
  -- The shortest of three forms that has room for the code point.
  else if c.toNat < 0x100 then '\\' :: 'x' :: hexadecimal 2 c.toNat
  else if c.toNat < 0x10000 then '\\' :: 'u' :: hexadecimal 4 c.toNat
  else '\\' :: 'U' :: hexadecimal 8 c.toNat

/-- The quotation mark for a text. -/
def quoteMark (cs : List Char) : Char :=
  if cs.contains singleMark && !cs.contains doubleMark then doubleMark else singleMark

/-- The text in quotation marks. -/
def quoted (s : String) : String :=
  let mark := quoteMark s.toList
  String.ofList (mark :: (s.toList.flatMap (escape mark) ++ [mark]))

end LetCalc.Text
