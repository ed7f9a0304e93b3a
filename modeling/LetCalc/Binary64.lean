/-!
# Binary64 numbers

The numbers of the language: 64-bit binary floating point with a sign, infinities and one
not-a-number. A finite magnitude is stored as its *rank*, its place in the increasing list of all
finite magnitudes, so that every rank below the bound is a number and no side condition is needed.

Every finite magnitude is a whole multiple of the least positive one, `2 ^ (-1074)`, called the
*unit* here. Arithmetic is therefore exact arithmetic on whole numbers of units, followed by one
rounding to the nearest rank, where a tie goes to the even rank.

* `Binary64.nearestRank`: the rank nearest to a quotient counted in units.
* `Binary64.add`, `Binary64.sub`, `Binary64.mul`, `Binary64.div`: exact result, rounded once.
* `Binary64.integer?`: the whole number a value equals, if it is one.
-/

namespace LetCalc

/-- The number of finite magnitudes: 2047 blocks of `2 ^ 52` ranks each. -/
def Binary64.rankBound : Nat := 2047 * Nat.pow 2 52

/-- A 64-bit floating point number. Zero is the finite number of rank 0, with either sign. -/
inductive Binary64 where
  /-- The result of an operation without a value. -/
  | nan
  /-- A magnitude above all finite ones. -/
  | infinite (negative : Bool)
  /-- The finite magnitude at place `rank` among all finite magnitudes, with a sign. -/
  | finite (negative : Bool) (rank : Fin Binary64.rankBound)
deriving DecidableEq, Repr

namespace Binary64

/-- Units in one: the least positive magnitude is `2 ^ (-1074)`. -/
def unitsPerOne : Nat := Nat.pow 2 1074

/-- The magnitude at a rank, as a number of units. The first two blocks of ranks count units one
by one, and the step between neighbours doubles from each block to the next. -/
def unitsAt (rank : Nat) : Nat :=
  let shift := rank / Nat.pow 2 52 - 1
  (rank - shift * Nat.pow 2 52) * Nat.pow 2 shift

/-- The quotient of `n` by `d` rounded to the nearest whole number, a half to the even one. -/
def divideToEven (n d : Nat) : Nat :=
  if d < 2 * (n % d) ∨ (d = 2 * (n % d) ∧ n / d % 2 = 1) then n / d + 1 else n / d

/-- The rank nearest to `num / den` units, a tie going to the even rank. Rounding up past the end
of a block lands on the first rank of the next one, so no case is special. -/
def nearestRank (num den : Nat) : Nat :=
  let shift := (num / den).log2 - 52
  shift * Nat.pow 2 52 + divideToEven num (den * Nat.pow 2 shift)

/-- The number nearest to `num / den` units; infinite when that rounds past the last rank. -/
def ofUnits (negative : Bool) (num den : Nat) : Binary64 :=
  if h : nearestRank num den < rankBound then .finite negative ⟨nearestRank num den, h⟩
  else .infinite negative

/-- Zero with a sign. -/
def zero (negative : Bool) : Binary64 := .finite negative ⟨0, by decide⟩

/-- The exact value of a finite number in units. -/
def signedUnits (negative : Bool) (rank : Fin rankBound) : Int :=
  if negative then -(unitsAt rank : Int) else unitsAt rank

/-- The number with its sign turned. -/
def neg : Binary64 → Binary64
  | .nan => .nan
  | .infinite s => .infinite !s
  | .finite s a => .finite (!s) a

/-- The sum. Opposite infinities have none, and an exact zero is negative only if both summands
are. -/
def add : Binary64 → Binary64 → Binary64
  | .nan, _ => .nan
  | _, .nan => .nan
  | .infinite s, .infinite t => if s = t then .infinite s else .nan
  | .infinite s, .finite _ _ => .infinite s
  | .finite _ _, .infinite t => .infinite t
  | .finite s a, .finite t b =>
    let sum := signedUnits s a + signedUnits t b
    if sum = 0 then zero (s && t) else ofUnits (sum < 0) sum.natAbs 1

/-- The difference. -/
def sub (x y : Binary64) : Binary64 := x.add y.neg

/-- The product. An infinity times zero has none. -/
def mul : Binary64 → Binary64 → Binary64
  | .nan, _ => .nan
  | _, .nan => .nan
  | .infinite s, .infinite t => .infinite (s != t)
  | .infinite s, .finite t b => if b.val = 0 then .nan else .infinite (s != t)
  | .finite s a, .infinite t => if a.val = 0 then .nan else .infinite (s != t)
  | .finite s a, .finite t b => ofUnits (s != t) (unitsAt a * unitsAt b) unitsPerOne

/-- The quotient. A zero divisor gives an infinity with the sign of the quotient, and nothing
sensible when the dividend is zero too. -/
def div : Binary64 → Binary64 → Binary64
  | .nan, _ => .nan
  | _, .nan => .nan
  | .infinite _, .infinite _ => .nan
  | .infinite s, .finite t _ => .infinite (s != t)
  | .finite s _, .infinite t => zero (s != t)
  | .finite s a, .finite t b =>
    if b.val = 0 then
      if a.val = 0 then .nan else .infinite (s != t)
    else ofUnits (s != t) (unitsAt a * unitsPerOne) (unitsAt b)

instance : Add Binary64 := ⟨add⟩
instance : Sub Binary64 := ⟨sub⟩
instance : Mul Binary64 := ⟨mul⟩
instance : Div Binary64 := ⟨div⟩

/-- Whether the number is neither infinite nor undefined. -/
def isFinite : Binary64 → Bool
  | .finite _ _ => true
  | _ => false

/-- The whole number nearest to the value in exact arithmetic, or nothing if that number rounds
past the largest finite one. -/
def ofInt? (i : Int) : Option Binary64 :=
  let x := ofUnits (i < 0) (i.natAbs * unitsPerOne) 1
  if x.isFinite then some x else none

/-- The whole number that a finite number equals. Both zeros equal `0`. -/
def integer? : Binary64 → Option Int
  | .finite s a =>
    if unitsAt a % unitsPerOne = 0 then some (signedUnits s a / unitsPerOne) else none
  | _ => none

end Binary64

end LetCalc
