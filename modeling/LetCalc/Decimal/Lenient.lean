import LetCalc.Decimal
import LetCalc.Text.Blank
import LetCalc.Text.DecimalDigit

/-!
# Numbers in free text

The lenient way to read a number: blanks around it, a sign, digits of any script, single
underscores between digits, a part before or after the point left out, and the words for infinity
and not-a-number in either case. The result is correctly rounded, and infinite when it is too
large.
-/

namespace LetCalc.Lenient

/-- A character in the basic alphabet of numbers: digits of any script become the usual ones and
further blanks a space. Nothing else outside that alphabet is part of a number. -/
def basic (c : Char) : Char :=
  if c.toNat < 0x7f then c
  else if Text.isBlank c then ' '
  else match Text.digitValue? c with
    | some d => d.digitChar
    | none => '?'

/-- The blanks of the basic alphabet. -/
def isBasicBlank (c : Char) : Bool := (0x9 ≤ c.toNat && c.toNat ≤ 0xd) || c = ' '

/-- The characters without their underscores, each of which must stand between two digits. The
first argument is the character before. -/
def withoutUnderscores? : Char → List Char → Option (List Char)
  | _, [] => some []
  | before, '_' :: rest =>
    match rest with
    | c :: _ => if before.isDigit && c.isDigit then withoutUnderscores? '_' rest else none
    | [] => none
  | _, c :: rest => (withoutUnderscores? c rest).map (c :: ·)

/-- The exponent written by an optional power of ten that ends the text. -/
def exponent? : List Char → Option Int
  | [] => some 0
  | mark :: rest =>
    if mark = 'e' ∨ mark = 'E' then
      let (sign, digits) := match rest with
        | '-' :: digits => (-1, digits)
        | '+' :: digits => (1, digits)
        | digits => ((1 : Int), digits)
      if !digits.isEmpty && digits.all Char.isDigit then
        some (sign * Nat.ofDigitChars 10 digits 0)
      else none
    else none

/-- The unsigned decimal that a text writes. -/
def decimal? (cs : List Char) : Option Decimal :=
  let whole := cs.takeWhile Char.isDigit
  let (fraction, rest) := match cs.dropWhile Char.isDigit with
    | '.' :: rest => (rest.takeWhile Char.isDigit, rest.dropWhile Char.isDigit)
    | rest => ([], rest)
  if whole.isEmpty && fraction.isEmpty then none
  else (exponent? rest).map (Decimal.ofParts whole fraction)

/-- The unsigned number that a text writes, given a sign. -/
def magnitude? (negative : Bool) (cs : List Char) : Option Binary64 :=
  let word := String.ofList (cs.map Char.toLower)
  if word = "inf" ∨ word = "infinity" then some (.infinite negative)
  else if word = "nan" then some .nan
  else (decimal? cs).map (·.toBinary64 negative)

/-- The number that a text writes. -/
def number? (s : String) : Option Binary64 := do
  let cs ← withoutUnderscores? ' ' (Text.trimBy isBasicBlank (s.toList.map basic))
  match cs with
  | '-' :: rest => magnitude? true rest
  | '+' :: rest => magnitude? false rest
  | _ => magnitude? false cs

end LetCalc.Lenient
