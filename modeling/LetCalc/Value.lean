import LetCalc.Decimal.Layout
import LetCalc.Node

/-!
# Values

The values a program computes with: null, numbers and booleans. Arithmetic works on numbers; a
null operand makes the result null, whatever the other operand and the operation are.
-/

namespace LetCalc

/-- A value. -/
inductive Value where
  | null
  | number (value : Binary64)
  | boolean (value : Bool)
deriving DecidableEq, Repr

instance : Inhabited Value := ⟨.null⟩

namespace Value

/-- The name of the type of a value. -/
def typeName : Value → String
  | .null => "Null"
  | .number _ => "Number"
  | .boolean _ => "Boolean"

/-- A value as results show it. A whole number is written out with all its digits and without a
fraction. -/
def text : Value → String
  | .null => "null"
  | .number x =>
    match x.integer? with
    | some i => toString i
    | none => x.text
  | .boolean b => if b then "true" else "false"

/-- A value with its type, as diagnostics show it. -/
def describe : Value → String
  | .null => "NullVal"
  | .number x => s!"NumberVal({x.text})"
  | .boolean b => s!"BooleanVal({(Scalar.bool b).literal})"

end Value

/-- The result of an operation on numbers. -/
def Operator.compute : Operator → Binary64 → Binary64 → Binary64
  | .add, x, y => x + y
  | .sub, x, y => x - y
  | .mul, x, y => x * y
  | .div, x, y => x / y

end LetCalc
