import LetCalc.Json

/-!
# Programs as trees

The nodes of a program. Expressions and statements share one type; a program is a list of nodes.
A node may itself be a program, which documents can express although programs cannot be written
that way. A name is any document for the same reason.

An operation has one of four operators. Source texts have no others, and a document with another
symbol is refused when it is loaded. Trees that are put together by hand with any text for an
operator are left out: `Value.combine` has the answer to an unknown symbol, but no evaluation of a
node comes to it.
-/

namespace LetCalc

/-- The arithmetic operations. -/
inductive Operator where
  | add
  | sub
  | mul
  | div
deriving DecidableEq, Repr

namespace Operator

/-- The symbol of an operation. -/
def symbol : Operator → String
  | .add => "+"
  | .sub => "-"
  | .mul => "*"
  | .div => "/"

/-- The operation with a given symbol. -/
def ofSymbol? (s : String) : Option Operator :=
  if s = "+" then some .add
  else if s = "-" then some .sub
  else if s = "*" then some .mul
  else if s = "/" then some .div
  else none

@[simp]
theorem ofSymbol?_symbol (op : Operator) : ofSymbol? op.symbol = some op := by
  cases op <;> decide

end Operator

/-- A node of a program. -/
inductive Node where
  /-- A number. -/
  | number (value : Binary64)
  /-- No value. -/
  | null
  /-- A variable. -/
  | identifier (name : Json)
  /-- An arithmetic operation. -/
  | binary (operator : Operator) (left right : Node)
  /-- An assignment; only an identifier can be assigned to. -/
  | assignment (target value : Node)
  /-- A declaration of a variable or a constant. -/
  | declaration (name : Json) (isConst : Bool) (initializer : Node)
  /-- A program inside a program. -/
  | program (body : List Node)
deriving Repr

/-- The statements of a program, in order. -/
abbrev Program := List Node

namespace Node

instance : Inhabited Node := ⟨.null⟩

/-- The name of a type of node. -/
def typeName : Node → String
  | .number _ => "Number"
  | .null => "Null"
  | .identifier _ => "Identifier"
  | .binary .. => "BinaryExpr"
  | .assignment .. => "AssignmentExpr"
  | .declaration .. => "VarDeclaration"
  | .program _ => "Program"

end Node

end LetCalc
