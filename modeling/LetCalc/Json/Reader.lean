import LetCalc.Json
import LetCalc.Decimal.Numeral
import LetCalc.Text.Hexadecimal

/-!
# Reading JSON documents

A document is read from left to right and refused at the first place that cannot continue it. Next
to the standard values, `NaN`, `Infinity` and `-Infinity` are accepted. Of several fields with one
key the last value counts, at the place of the first. Whole numbers are exact and may have up to
`Reader.digitLimit` digits; a longer one is refused as soon as it is reached. An escape of one half
of a surrogate pair is kept as it is, so that the text is torn and differs from every other one.

Every reading function returns what is left of the text, together with the fact that this is
shorter, so that reading ends on every text.
-/

namespace LetCalc.Json

/-- What is wrong where a text stops being the start of a document. -/
inductive ReadError.Cause where
  | byteOrderMark
  | expectingValue
  | expectingKey
  | expectingColon
  | expectingComma
  | extraData
  | unterminatedText
  | controlCharacter
  | invalidEscape
  | invalidUnicodeEscape
deriving DecidableEq, Repr

/-- What is expected or wrong. -/
def ReadError.Cause.message : ReadError.Cause → String
  | .byteOrderMark => "Unexpected UTF-8 BOM (decode using utf-8-sig)"
  | .expectingValue => "Expecting value"
  | .expectingKey => "Expecting property name enclosed in double quotes"
  | .expectingColon => "Expecting ':' delimiter"
  | .expectingComma => "Expecting ',' delimiter"
  | .extraData => "Extra data"
  | .unterminatedText => "Unterminated string starting at"
  | .controlCharacter => "Invalid control character at"
  | .invalidEscape => "Invalid \\escape"
  | .invalidUnicodeEscape => "Invalid \\uXXXX escape"

/-- Why no document can be read from a text. -/
inductive ReadError where
  /-- The text is not a document. The place is given by the number of characters before it, and by
  its line and column, both counted from one. -/
  | malformed (cause : ReadError.Cause) (index line column : Nat)
  /-- A whole number has too many digits. -/
  | tooManyDigits (count : Nat)
deriving DecidableEq, Repr

/-- The most digits that a whole number may have. -/
def Reader.digitLimit : Nat := 4300

/-- What is wrong, and where. -/
def ReadError.message : ReadError → String
  | .malformed cause index line column =>
    s!"{cause.message}: line {line} column {column} (char {index})"
  | .tooManyDigits count =>
    s!"Exceeds the limit ({Reader.digitLimit} digits) for integer string conversion: " ++
      s!"value has {count} digits; use sys.set_int_max_str_digits() to increase the limit"

namespace Reader

/-- Why reading stops. -/
inductive Refusal where
  /-- The text is not a document, with the number of characters that are left there. -/
  | malformed (cause : ReadError.Cause) (left : Nat)
  /-- A whole number has too many digits. -/
  | tooManyDigits (count : Nat)

/-- The characters that may stand between the parts of a document. -/
def isBlank (c : Char) : Bool := c = ' ' || c = '\t' || c = '\n' || c = '\r'

/-- The text after the blanks at its start. -/
def skipBlanks (cs : List Char) : { rest : List Char // rest.length ≤ cs.length } :=
  ⟨cs.dropWhile isBlank, (List.dropWhile_suffix isBlank).length_le⟩

/-- The text after its first character and the blanks that follow. -/
def skipOne (cs : List Char) : { rest : List Char // rest.length ≤ cs.length - 1 } :=
  ⟨skipBlanks cs.tail, List.length_tail ▸ (skipBlanks cs.tail).property⟩

/-- The number that four hexadecimal digits write. Something has to follow them. -/
def hexQuad? : List Char → Option Nat
  | a :: b :: c :: d :: _ :: _ => do
    let a ← Text.hexDigit? a
    let b ← Text.hexDigit? b
    let c ← Text.hexDigit? c
    let d ← Text.hexDigit? d
    return ((a * 16 + b) * 16 + c) * 16 + d
  | _ => none

/-- The code point that an escape of four hexadecimal digits stands for, and the number of
characters used after its `u`. Two escapes in a row may form a surrogate pair; a half without its
other half stands for itself. On failure, the number of characters left from the offending `u`
on. -/
def unicodeEscape (cs : List Char) : Except Nat (CodePoint × Nat) :=
  match hexQuad? cs with
  | none => .error (cs.length + 1)
  | some high =>
    if 0xd800 ≤ high ∧ high < 0xdc00 then
      -- The first half of a pair; the second half has to follow at once.
      match cs.drop 4 with
      | '\\' :: 'u' :: more =>
        match hexQuad? more with
        | none => .error (more.length + 1)
        | some low =>
          if 0xdc00 ≤ low ∧ low < 0xe000 then
            .ok (.ofNat (0x10000 + (high - 0xd800) * 0x400 + (low - 0xdc00)), 10)
          else .ok (.ofNat high, 4)
      | _ => .ok (.ofNat high, 4)
    else .ok (.ofNat high, 4)

/-- The character that a backslash and one further character stand for. -/
def simpleEscape? : Char → Option Char
  | '\x22' => some '\x22'
  | '\\' => some '\\'
  | '/' => some '/'
  | 'b' => some '\x08'
  | 'f' => some '\x0c'
  | 'n' => some '\n'
  | 'r' => some '\r'
  | 't' => some '\t'
  | _ => none

/-- The rest of a text in double quotation marks, after the first mark. `opening` is the number of
characters left from that mark on. -/
def text (opening : Nat) (cs : List Char) :
    Except Refusal (List CodePoint × { rest : List Char // rest.length ≤ cs.length }) :=
  match cs with
  | [] => .error (.malformed .unterminatedText opening)
  | c :: rest =>
    if c = '\x22' then .ok ([], ⟨rest, Nat.le_succ _⟩)
    else if c = '\\' then
      match rest with
      | [] => .error (.malformed .unterminatedText opening)
      | 'u' :: more =>
        match unicodeEscape more with
        | .error left => .error (.malformed .invalidUnicodeEscape left)
        | .ok (d, used) => do
          let (ds, ⟨rest, h⟩) ← text opening (more.drop used)
          return (d :: ds,
            ⟨rest, Nat.le_trans h (Nat.le_trans (List.drop_sublist used more).length_le
              (Nat.le_add_right more.length 2))⟩)
      | e :: more =>
        match simpleEscape? e with
        | none => .error (.malformed .invalidEscape (more.length + 2))
        | some d => do
          let (ds, ⟨rest, h⟩) ← text opening more
          return (.char d :: ds, ⟨rest, Nat.le_trans h (Nat.le_add_right more.length 2)⟩)
    else if c.toNat < 0x20 then .error (.malformed .controlCharacter (rest.length + 1))
    else do
      let (ds, ⟨rest, h⟩) ← text opening rest
      return (.char c :: ds, ⟨rest, Nat.le_succ_of_le h⟩)
termination_by cs.length
decreasing_by all_goals simp only [List.length_drop, List.length_cons]; omega

/-- The words that stand for a scalar. -/
def constants : List (List Char × Scalar) :=
  [("null".toList, .null), ("true".toList, .bool true), ("false".toList, .bool false),
    ("NaN".toList, .float .nan), ("Infinity".toList, .float (.infinite false)),
    ("-Infinity".toList, .float (.infinite true))]

/-- A whole number from its sign and digits. -/
def whole (negative : Bool) (digits : List Char) : Except Refusal Scalar :=
  if digitLimit < digits.length then .error (.tooManyDigits digits.length)
  else
    let size := Nat.ofDigitChars 10 digits 0
    .ok (.int (if negative then -size else size))

/-- The number at the start of a text, and the number of its characters. A number without fraction
and power of ten is a whole number. -/
def number (cs : List Char) : Except Refusal (Scalar × Nat) :=
  let negative := cs.head? = some '-'
  match Numeral.scan? (if negative then cs.tail else cs) with
  | none => .error (.malformed .expectingValue cs.length)
  | some n => do
    let value ← if n.isWhole then whole negative n.whole
      else .ok (.float (n.decimal.toBinary64 negative))
    return (value, n.text.length + if negative then 1 else 0)

/-- The constant or number at the start of a text, and the number of its characters. -/
def scalar (cs : List Char) : Except Refusal (Scalar × Nat) :=
  match constants.find? (·.1.isPrefixOf cs) with
  | some (word, value) => .ok (value, word.length)
  | none => number cs

mutual

/-- The value at the start of a text. -/
def value (cs : List Char) :
    Except Refusal (Json × { rest : List Char // rest.length < cs.length }) :=
  match cs with
  | [] => .error (.malformed .expectingValue 0)
  | c :: rest =>
    let ⟨start, _⟩ := skipBlanks rest
    if c = '\x22' then do
      let (s, ⟨left, _⟩) ← text (rest.length + 1) rest
      return (.scalar (.text (.ofPoints s)), ⟨left, by simp only [List.length_cons]; omega⟩)
    else if c = '[' then
      if start.head? = some ']' then
        .ok (.array [], ⟨start.tail, by simp only [List.length_tail, List.length_cons]; omega⟩)
      else do
        let (found, ⟨left, _⟩) ← items start
        return (.array found, ⟨left, by simp only [List.length_cons]; omega⟩)
    else if c = '\x7b' then
      if start.head? = some '\x7d' then
        .ok (.object [], ⟨start.tail, by simp only [List.length_tail, List.length_cons]; omega⟩)
      else do
        let (found, ⟨left, _⟩) ← members start
        -- Only here do fields with one key meet.
        return (.object (found.foldl addField []),
          ⟨left, by simp only [List.length_cons]; omega⟩)
    else do
      let (found, used) ← scalar (c :: rest)
      return (.scalar found,
        ⟨rest.drop (used - 1), by simp only [List.length_drop, List.length_cons]; omega⟩)
termination_by 2 * cs.length
decreasing_by all_goals simp only [List.length_cons]; omega

/-- The items of an array that is not empty, up to and with its closing bracket. -/
def items (cs : List Char) :
    Except Refusal (List Json × { rest : List Char // rest.length < cs.length }) := do
  let (first, ⟨rest, _⟩) ← value cs
  let ⟨after, _⟩ := skipBlanks rest
  if after.head? = some ']' then
    return ([first], ⟨after.tail, by simp only [List.length_tail]; omega⟩)
  else if after.head? = some ',' then
    let ⟨start, _⟩ := skipOne after
    let (found, ⟨left, _⟩) ← items start
    return (first :: found, ⟨left, by omega⟩)
  else .error (.malformed .expectingComma after.length)
termination_by 2 * cs.length + 1
decreasing_by all_goals omega

/-- The fields of an object that is not empty, up to and with its closing brace. -/
def members (cs : List Char) :
    Except Refusal (List (LooseText × Json) × { rest : List Char // rest.length < cs.length }) :=
  match cs with
  | [] => .error (.malformed .expectingKey 0)
  | c :: rest =>
    if c = '\x22' then do
      let (key, ⟨rest, _⟩) ← text (rest.length + 1) rest
      let ⟨after, _⟩ := skipBlanks rest
      if after.head? = some ':' then
        let ⟨start, _⟩ := skipOne after
        let (found, ⟨rest, _⟩) ← value start
        let ⟨after, _⟩ := skipBlanks rest
        if after.head? = some '\x7d' then
          return ([(.ofPoints key, found)],
            ⟨after.tail, by simp only [List.length_tail, List.length_cons]; omega⟩)
        else if after.head? = some ',' then
          let ⟨start, _⟩ := skipOne after
          let (others, ⟨left, _⟩) ← members start
          return ((.ofPoints key, found) :: others,
            ⟨left, by simp only [List.length_cons]; omega⟩)
        else .error (.malformed .expectingComma after.length)
      else .error (.malformed .expectingColon after.length)
    else .error (.malformed .expectingKey (rest.length + 1))
termination_by 2 * cs.length
decreasing_by all_goals simp only [List.length_cons]; omega

end

end Reader

/-- A refusal as an error in the whole text. -/
def ReadError.ofRefusal (cs : List Char) : Reader.Refusal → ReadError
  | .malformed cause left =>
    let before := cs.take (cs.length - left)
    .malformed cause before.length (before.count '\n' + 1)
      ((before.reverse.takeWhile (· ≠ '\n')).length + 1)
  | .tooManyDigits count => .tooManyDigits count

/-- The one value that a whole text writes, with blanks around it. -/
def readAll (cs : List Char) : Except Reader.Refusal Json := do
  if cs.head? = some '\ufeff' then throw (.malformed .byteOrderMark cs.length)
  let (found, rest) ← Reader.value (Reader.skipBlanks cs).val
  match (Reader.skipBlanks rest).val with
  | [] => return found
  | left => throw (.malformed .extraData left.length)

/-- The document that a text writes. -/
def read (s : String) : Except ReadError Json :=
  (readAll s.toList).mapError (.ofRefusal s.toList)

end LetCalc.Json
