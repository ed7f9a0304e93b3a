import LetCalc.Text.Loose

/-!
# UTF-8

Encoding of characters as bytes, with an account of the halves of surrogate pairs that have none,
and decoding with an exact account of where and why a sequence of bytes is not UTF-8. Overlong
forms, surrogates and code points past the last one are refused at their second byte.
-/

namespace LetCalc.Text.Utf8

/-- The bytes of a text. -/
def encode (s : String) : List UInt8 := s.toList.flatMap String.utf8EncodeChar

/-- The first place where code points have no bytes. -/
structure EncodeFailure where
  /-- The number of code points before it. -/
  position : Nat
  /-- The half of a surrogate pair that stands there. -/
  first : Fin 0x800
  /-- How many halves stand there in a row. -/
  count : Nat
deriving DecidableEq, Repr

/-- What is wrong, and where. -/
def EncodeFailure.message (e : EncodeFailure) : String :=
  let place :=
    if e.count = 1 then
      let first := String.ofList (CodePoint.escapeHalf e.first)
      s!"character '{first}' in position {e.position}"
    else s!"characters in position {e.position}-{e.position + e.count - 1}"
  s!"'utf-8' codec can't encode {place}: surrogates not allowed"

/-- The first place where code points have no bytes, if there is one. -/
def encodeFailure? (points : List CodePoint) : Option EncodeFailure :=
  match points.dropWhile (!·.isHalf) with
  | .half first :: rest =>
    some ⟨(points.takeWhile (!·.isHalf)).length, first,
      (rest.takeWhile CodePoint.isHalf).length + 1⟩
  | _ => none

/-- Why bytes are not UTF-8. -/
inductive Cause where
  /-- No character starts with this byte. -/
  | invalidStart
  /-- A byte does not continue the character begun before it. -/
  | invalidContinuation
  /-- The bytes end inside a character. -/
  | cutOff
deriving DecidableEq, Repr

/-- The first place where bytes are not UTF-8. -/
structure Failure where
  /-- What is wrong. -/
  cause : Cause
  /-- The number of bytes before the offending character. -/
  position : Nat
  /-- The first byte of the offending character. -/
  first : UInt8
  /-- How many bytes of it are reported. -/
  count : Nat
deriving DecidableEq, Repr

/-- What is wrong, and where. -/
def Failure.message (e : Failure) : String :=
  let place :=
    if e.count = 1 then
      let first := String.ofList (hexadecimal 2 e.first.toNat)
      s!"byte 0x{first} in position {e.position}"
    else s!"bytes in position {e.position}-{e.position + e.count - 1}"
  let cause := match e.cause with
    | .invalidStart => "invalid start byte"
    | .invalidContinuation => "invalid continuation byte"
    | .cutOff => "unexpected end of data"
  s!"'utf-8' codec can't decode {place}: {cause}"

/-- Whether a byte continues a character. -/
def isContinuation (b : UInt8) : Bool := 0x80 ≤ b && b ≤ 0xbf

/-- The number of bytes that a first byte announces. -/
def announced? (b : UInt8) : Option Nat :=
  if b ≤ 0x7f then some 1
  else if 0xc2 ≤ b && b ≤ 0xdf then some 2
  else if 0xe0 ≤ b && b ≤ 0xef then some 3
  else if 0xf0 ≤ b && b ≤ 0xf4 then some 4
  else none

/-- Whether `b` may follow the first byte of a character. After some first bytes the range is
narrower, to leave out overlong forms, surrogates and too large code points. -/
def isSecond (first b : UInt8) : Bool :=
  isContinuation b &&
    (first != 0xe0 || 0xa0 ≤ b) && (first != 0xed || b < 0xa0) &&
    (first != 0xf0 || 0x90 ≤ b) && (first != 0xf4 || b < 0x90)

/-- The bytes at the start of `rest` that continue a character with first byte `first`, at most
`wanted` of them. -/
def continuations (first : UInt8) (wanted : Nat) (rest : List UInt8) : List UInt8 :=
  match wanted, rest with
  | wanted + 1, b :: rest =>
    if isSecond first b then b :: (rest.take wanted).takeWhile isContinuation else []
  | _, _ => []

/-- The code point with the given first byte and continuation bytes. -/
def codePoint (first : UInt8) (more : List UInt8) : Nat :=
  let lead :=
    match more.length with
    | 0 => first.toNat
    | 1 => first.toNat % 0x20
    | 2 => first.toNat % 0x10
    | _ => first.toNat % 0x8
  more.foldl (fun acc b => acc * 0x40 + b.toNat % 0x40) lead

/-- Decoding of the bytes after the first `position` ones. -/
def decodeFrom (position : Nat) : List UInt8 → Except Failure (List Char)
  | [] => .ok []
  | first :: rest =>
    match announced? first with
    | none => .error ⟨.invalidStart, position, first, 1⟩
    | some size =>
      let more := continuations first (size - 1) rest
      if more.length + 1 = size then
        (decodeFrom (position + size) (rest.drop more.length)).map
          (Char.ofNat (codePoint first more) :: ·)
      else
        -- Everything that is left belongs to the character, or a byte stands in the way.
        let cause := if more.length = rest.length then .cutOff else .invalidContinuation
        .error ⟨cause, position, first, more.length + 1⟩
termination_by bytes => bytes.length
decreasing_by simp only [List.length_drop, List.length_cons]; omega

/-- The text of UTF-8 bytes. -/
def decode (bytes : List UInt8) : Except Failure String :=
  (decodeFrom 0 bytes).map String.ofList

end LetCalc.Text.Utf8
