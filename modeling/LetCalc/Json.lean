import LetCalc.Binary64
import LetCalc.Decimal.Layout
import LetCalc.Text.Loose

/-!
# JSON documents

The values of a JSON document, where whole numbers and floating point numbers are kept apart and
an object keeps its fields in order. Scalars are a type of their own, because only they can name a
variable. Texts and keys are loose: the escapes of a document can write halves of surrogate pairs.
-/

namespace LetCalc

/-- A JSON value without parts. -/
inductive Scalar where
  | null
  | bool (value : Bool)
  | int (value : Int)
  | float (value : Binary64)
  | text (value : LooseText)
deriving DecidableEq, Repr

/-- A JSON value. -/
inductive Json where
  | scalar (value : Scalar)
  | array (items : List Json)
  | object (fields : List (LooseText × Json))
deriving Repr

instance : Inhabited Json := ⟨.scalar .null⟩

namespace Scalar

/-- The type of a scalar, as messages call it. -/
def typeName : Scalar → String
  | .null => "NoneType"
  | .bool _ => "bool"
  | .int _ => "int"
  | .float _ => "float"
  | .text _ => "str"

/-- A scalar as messages write it inside other values. -/
def literal : Scalar → String
  | .null => "None"
  | .bool b => if b then "True" else "False"
  | .int i => toString i
  | .float x => x.text
  | .text s => s.quoted

/-- A scalar as it is written on its own: like `literal`, but a text stands for itself. -/
def spelling : Scalar → LooseText
  | .text s => s
  | s => s.literal

/-- A scalar as messages show it on its own. -/
def display (s : Scalar) : String := s.spelling.shown

/-- Whether a scalar counts as true: neither null, false, a zero nor the empty text. -/
def isTrue : Scalar → Bool
  | .null => false
  | .bool b => b
  | .int i => i != 0
  | .float (.finite _ rank) => rank.val != 0
  | .float _ => true
  | .text s => s != .whole ""

end Scalar

namespace Json

/-- A text as a document. -/
def text (s : String) : Json := .scalar (.text s)

/-- The type of a document, as messages call it. -/
def typeName : Json → String
  | .scalar s => s.typeName
  | .array _ => "list"
  | .object _ => "dict"

mutual

/-- A document as messages write it. -/
def literal : Json → String
  | .scalar s => s.literal
  | .array items => "[" ++ ", ".intercalate (itemLiterals items) ++ "]"
  | .object fields => "\x7b" ++ ", ".intercalate (fieldLiterals fields) ++ "\x7d"

/-- The items of an array as messages write them. -/
def itemLiterals : List Json → List String
  | [] => []
  | item :: rest => item.literal :: itemLiterals rest

/-- The fields of an object as messages write them. -/
def fieldLiterals : List (LooseText × Json) → List String
  | [] => []
  | (key, value) :: rest => (key.quoted ++ ": " ++ value.literal) :: fieldLiterals rest

end

/-- A document as messages show it on its own: like `literal`, but a text stands for itself. -/
def display : Json → String
  | .scalar s => s.display
  | j => j.literal

/-- Whether a document counts as true: a true scalar, or a collection that is not empty. -/
def isTrue : Json → Bool
  | .scalar s => s.isTrue
  | .array items => !items.isEmpty
  | .object fields => !fields.isEmpty

/-- The value of the field with a given key. -/
def field? (fields : List (LooseText × Json)) (key : String) : Option Json :=
  (fields.find? (·.1 = .whole key)).map (·.2)

/-- The fields with one more. A key that is there already keeps its place and takes the new
value. -/
def addField (fields : List (LooseText × Json)) (entry : LooseText × Json) :
    List (LooseText × Json) :=
  if fields.any (·.1 = entry.1) then
    fields.map fun f => if f.1 = entry.1 then (f.1, entry.2) else f
  else fields ++ [entry]

/-- A field's value is smaller than the fields. -/
theorem sizeOf_lt_of_field? {fields : List (LooseText × Json)} {key : String} {value : Json}
    (h : field? fields key = some value) : sizeOf value < sizeOf fields := by
  obtain ⟨⟨k, v⟩, hfound, rfl⟩ := Option.map_eq_some_iff.1 h
  have hmem := List.sizeOf_lt_of_mem (List.mem_of_find?_eq_some hfound)
  simp only [Prod.mk.sizeOf_spec] at hmem ⊢
  omega

end Json

end LetCalc
