import LetCalc.Decimal

/-!
# The text of a number

How the digits of a number are laid out: positionally while the leading digit is not too far from
the point, and with a power of ten otherwise. The choices are collected in one `Layout` record.
-/

namespace LetCalc

/-- The choices in writing a number as text. -/
structure Layout where
  /-- The least exponent of the leading digit that is written positionally. -/
  leastPositional : Int
  /-- The first exponent of the leading digit that is written as a power of ten again. -/
  pastPositional : Int
  /-- What a positional text without a fraction ends in. -/
  wholeEnding : List Char
  /-- The mark before a power of ten. -/
  powerMark : Char
  /-- The least number of digits of a power of ten. -/
  powerWidth : Nat

namespace Layout

/-- The layout of all numbers: positional from `0.0001` up to sixteen digits before the point,
always with a fraction; otherwise a signed power of ten of at least two digits. -/
def standard : Layout where
  leastPositional := -4
  pastPositional := 16
  wholeEnding := ['.', '0']
  powerMark := 'e'
  powerWidth := 2

/-- Digits with the point after the first `point` of them, filled up with zeros on either side. -/
def positional (layout : Layout) (digits : List Char) (point : Int) : List Char :=
  if point ≤ 0 then
    '0' :: '.' :: (List.replicate (-point).toNat '0' ++ digits)
  else if (digits.length : Int) ≤ point then
    digits ++ List.replicate (point.toNat - digits.length) '0' ++ layout.wholeEnding
  else
    digits.take point.toNat ++ '.' :: digits.drop point.toNat

/-- A power of ten: mark, sign, and at least `powerWidth` digits. -/
def power (layout : Layout) (exponent : Int) : List Char :=
  let digits := Nat.toDigits 10 exponent.natAbs
  layout.powerMark :: (if exponent < 0 then '-' else '+') ::
    (List.replicate (layout.powerWidth - digits.length) '0' ++ digits)

/-- Digits with the point after the first one, and a power of ten. A single digit has no point. -/
def scientific (layout : Layout) (digits : List Char) (exponent : Int) : List Char :=
  match digits with
  | [] => layout.power exponent
  | [c] => c :: layout.power exponent
  | c :: rest => c :: '.' :: (rest ++ layout.power exponent)

/-- The text of a positive decimal. -/
def decimal (layout : Layout) (d : Decimal) : List Char :=
  let digits := Nat.toDigits 10 d.digits
  let leading := d.exponent + digits.length - 1
  if layout.leastPositional ≤ leading ∧ leading < layout.pastPositional then
    layout.positional digits (leading + 1)
  else layout.scientific digits leading

end Layout

namespace Binary64

/-- The text of a number: the fewest digits that read back, in the standard layout. -/
def text : Binary64 → String
  | .nan => "nan"
  | .infinite negative => if negative then "-inf" else "inf"
  | .finite negative rank =>
    let magnitude :=
      if rank.val = 0 then Layout.standard.positional ['0'] 1
      else Layout.standard.decimal (.shortest rank)
    String.ofList (if negative then '-' :: magnitude else magnitude)

end Binary64

end LetCalc
