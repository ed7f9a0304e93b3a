import LetCalc.Binary64

/-!
# Decimal numbers

A decimal is a whole number of some power of ten. This module reads one as the nearest
`Binary64`, and finds the decimal that stands for a given `Binary64`: the one with the fewest
digits that reads back as it.

* `Decimal.toBinary64`: correctly rounded, for any number of digits and any exponent.
* `Decimal.shortest`: the shortest decimal that reads back, and the nearest among the shortest.
-/

namespace LetCalc

/-- The number `digits * 10 ^ exponent`. -/
structure Decimal where
  /-- All digits, read as one whole number. -/
  digits : Nat
  /-- The power of ten that the last digit counts. -/
  exponent : Int
deriving DecidableEq, Repr

namespace Decimal

/-- The decimal with the given digit characters before and after the point, times a further power
of ten. -/
def ofParts (whole fraction : List Char) (exponent : Int) : Decimal where
  digits := Nat.ofDigitChars 10 (whole ++ fraction) 0
  exponent := exponent - fraction.length

/-- The nearest `Binary64`, a tie going to the even rank. Exponents far out of range are settled
by size alone: `10 ^ 310` exceeds every finite number, and `2 ^ (-1076)` is less than half of the
least positive one. -/
def toBinary64 (negative : Bool) (d : Decimal) : Binary64 :=
  if d.digits = 0 then .zero negative
  -- The two shortcuts keep the powers below from growing with the exponent.
  else if 310 ≤ d.exponent then .infinite negative
  else if (d.digits.log2 : Int) + 1 + 3 * d.exponent < -1076 then .zero negative
  else
    .ofUnits negative (d.digits * Nat.pow 10 d.exponent.toNat * Binary64.unitsPerOne)
      (Nat.pow 10 (-d.exponent).toNat)

/-- Of the two multiples of `10 ^ exponent` around the magnitude at `rank`, the one that reads
back as it. If both do, the nearer one is taken, and of two equally near ones the even one. -/
def neighbour? (rank : Fin Binary64.rankBound) (exponent : Int) : Option Decimal :=
  let num := Binary64.unitsAt rank * Nat.pow 10 (-exponent).toNat
  let den := Binary64.unitsPerOne * Nat.pow 10 exponent.toNat
  let below : Decimal := ⟨num / den, exponent⟩
  let above : Decimal := ⟨num / den + 1, exponent⟩
  -- Rounding the quotient tells which neighbour is nearer.
  let nearestFirst :=
    if Binary64.divideToEven num den = num / den then [below, above] else [above, below]
  nearestFirst.find? fun d => d.toBinary64 false = .finite false rank

/-- The first multiple of a power of ten that reads back, trying `steps` powers from `exponent`
downwards; the exact value if there is none. -/
def shortestFrom (rank : Fin Binary64.rankBound) : Nat → Int → Decimal
  | 0, _ => ⟨Binary64.unitsAt rank * Nat.pow 5 1074, -1074⟩
  | steps + 1, exponent =>
    (neighbour? rank exponent).getD (shortestFrom rank steps (exponent - 1))

/-- The decimal with the fewest digits that reads back as the magnitude at `rank`. The search
starts above the leading digit, whose place is estimated from the number of binary digits
(`30103 / 100000` is the logarithm of two), and seventeen digits always suffice. -/
def shortest (rank : Fin Binary64.rankBound) : Decimal :=
  let bits := ((Binary64.unitsAt rank).log2 : Int) - 1073
  shortestFrom rank 22 (bits * 30103 / 100000 + 2)

end Decimal

end LetCalc
