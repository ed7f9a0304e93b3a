import LetCalc.Text.Quoted

/-!
# Loose text

A `String` is a sequence of Unicode scalar values. A document can also escape one half of a
surrogate pair without the other half, and then holds a sequence of code points that no `String`
is. `LooseText` has both: a text is `whole` if it is a `String` and `torn` if a half stands alone
in it. A text has one form only, so that two texts are equal if their code points are.

A half has no bytes in UTF-8, so that no file holds one. Messages show it by its escape.
-/

namespace LetCalc

/-- A Unicode code point. -/
inductive CodePoint where
  | char (c : Char)
  /-- One half of a surrogate pair, by its distance from the first of them. -/
  | half (offset : Fin 0x800)
deriving DecidableEq, Repr

namespace CodePoint

/-- The code point with a given number. -/
def ofNat (n : Nat) : CodePoint :=
  if h : 0xd800 ≤ n ∧ n < 0xe000 then .half ⟨n - 0xd800, by omega⟩ else .char (Char.ofNat n)

/-- Whether a code point is one half of a surrogate pair. -/
def isHalf : CodePoint → Bool
  | .char _ => false
  | .half _ => true

/-- The character that a code point is, unless it is one half of a pair. -/
def char? : CodePoint → Option Char
  | .char c => some c
  | .half _ => none

/-- One half of a surrogate pair as its escape. -/
def escapeHalf (offset : Fin 0x800) : List Char :=
  '\\' :: 'u' :: Text.hexadecimal 4 (0xd800 + offset.val)

/-- A code point as standard error shows it. -/
def shown : CodePoint → List Char
  | .char c => [c]
  | .half offset => escapeHalf offset

end CodePoint

/-- A sequence of code points. -/
inductive LooseText where
  /-- Every code point is a character. -/
  | whole (text : String)
  /-- Some code point is one half of a surrogate pair. -/
  | torn (points : List CodePoint) (h : points.any CodePoint.isHalf = true)
deriving DecidableEq, Repr

instance : Coe String LooseText := ⟨.whole⟩

namespace LooseText

/-- The text with given code points. -/
def ofPoints (points : List CodePoint) : LooseText :=
  if h : points.any CodePoint.isHalf then .torn points h
  else .whole (String.ofList (points.filterMap CodePoint.char?))

/-- The code points of a text. -/
def points : LooseText → List CodePoint
  | .whole s => s.toList.map .char
  | .torn points _ => points

/-- A text as standard error shows it. -/
def shown : LooseText → String
  | .whole s => s
  | .torn points _ => String.ofList (points.flatMap CodePoint.shown)

/-- A text in quotation marks, as messages show it. -/
def quoted : LooseText → String
  | .whole s => Text.quoted s
  | .torn points _ =>
    let mark := Text.quoteMark (points.filterMap CodePoint.char?)
    let escape : CodePoint → List Char
      | .char c => Text.escape mark c
      | .half offset => CodePoint.escapeHalf offset
    String.ofList (mark :: (points.flatMap escape ++ [mark]))

end LooseText

end LetCalc
