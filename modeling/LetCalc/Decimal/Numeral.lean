import LetCalc.Decimal

/-!
# Numerals

An unsigned numeral as programs and documents write it: a whole part without superfluous zeros, an
optional fraction and an optional power of ten. `Numeral.scan?` finds the longest numeral at the
start of a text.
-/

namespace LetCalc

/-- The power of ten that ends a numeral. -/
structure Numeral.Power where
  /-- The letter that introduces it. -/
  mark : Char
  /-- Its sign, if it is written. -/
  sign : Option Char
  /-- Its digits. -/
  digits : List Char
deriving DecidableEq, Repr

/-- An unsigned numeral. -/
structure Numeral where
  /-- The digits before the point. -/
  whole : List Char
  /-- The digits after the point, if there is one. -/
  fraction : Option (List Char)
  /-- The power of ten, if there is one. -/
  power : Option Numeral.Power
deriving DecidableEq, Repr

namespace Numeral

/-- The text of a power of ten. -/
def Power.text (p : Power) : List Char := p.mark :: (p.sign.toList ++ p.digits)

/-- The exponent that a power of ten denotes. -/
def Power.exponent (p : Power) : Int :=
  let size := Nat.ofDigitChars 10 p.digits 0
  if p.sign = some '-' then -size else size

/-- The text of a numeral. -/
def text (n : Numeral) : List Char :=
  n.whole ++ (n.fraction.map ('.' :: ·)).getD [] ++ (n.power.map Power.text).getD []

/-- The number that a numeral denotes. -/
def decimal (n : Numeral) : Decimal :=
  .ofParts n.whole (n.fraction.getD []) ((n.power.map Power.exponent).getD 0)

/-- Whether the numeral is written as a whole number. -/
def isWhole (n : Numeral) : Bool := n.fraction.isNone && n.power.isNone

/-- The whole part at the start of a text: a single zero, or digits that do not start with one. -/
def scanWhole? : List Char → Option (List Char)
  | [] => none
  | c :: rest =>
    if c = '0' then some ['0']
    else if c.isDigit then some (c :: rest.takeWhile Char.isDigit)
    else none

/-- The digits of a fraction at the start of a text. A point without a digit after it is none. -/
def scanFraction? : List Char → Option (List Char)
  | '.' :: rest =>
    let digits := rest.takeWhile Char.isDigit
    if digits.isEmpty then none else some digits
  | _ => none

/-- The sign of an exponent at the start of a text. -/
def scanSign? : List Char → Option Char
  | c :: _ => if c = '+' ∨ c = '-' then some c else none
  | [] => none

/-- The power of ten at the start of a text. A mark without a digit after it is none. -/
def scanPower? : List Char → Option Power
  | mark :: rest =>
    if mark = 'e' ∨ mark = 'E' then
      let sign := scanSign? rest
      let digits := (rest.drop sign.toList.length).takeWhile Char.isDigit
      if digits.isEmpty then none else some ⟨mark, sign, digits⟩
    else none
  | [] => none

/-- The longest numeral at the start of a text. -/
def scan? (cs : List Char) : Option Numeral := do
  let whole ← scanWhole? cs
  let rest := cs.drop whole.length
  let fraction := scanFraction? rest
  let rest := rest.drop ((fraction.map ('.' :: ·)).getD []).length
  return ⟨whole, fraction, scanPower? rest⟩

end Numeral

end LetCalc
