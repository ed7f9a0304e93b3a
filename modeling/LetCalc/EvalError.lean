import LetCalc.Value

/-!
# Evaluation errors

What can go wrong while a program is evaluated. An `EvalError` is the program's own mistake and is
reported as such. A `Fault` is any reason to stop, which also covers trees that no source text
writes: a program inside a program, and a name that is a collection.
-/

namespace LetCalc

/-- A mistake of the program. -/
inductive EvalError where
  /-- The scope has this name already. -/
  | redeclared (name : Scalar)
  /-- No scope around has the name that is assigned to. -/
  | undefined (name : Scalar)
  /-- The name that is assigned to is a constant. -/
  | constantAssigned (name : Scalar)
  /-- The target of an assignment is not an identifier. -/
  | invalidTarget (nodeType : String)
  /-- The operation does not apply to operands of these types. -/
  | unsupportedOperands (symbol left right : String)
  /-- No operation has this symbol. -/
  | unknownOperator (symbol : String)
deriving DecidableEq, Repr

namespace EvalError

/-- What is wrong. -/
def message : EvalError → String
  | .redeclared name => s!"variable {name.display} already declared in this scope"
  | .undefined name => s!"cannot assign to undefined variable {name.display}"
  | .constantAssigned name => s!"cannot reassign constant {name.display}"
  | .invalidTarget nodeType => s!"invalid assignment target {nodeType}"
  | .unsupportedOperands symbol left right => s!"unsupported {symbol} for {left} and {right}"
  | .unknownOperator symbol => s!"unknown operator {symbol}"

/-- The variable that the error is about. -/
def name? : EvalError → Option Scalar
  | .redeclared name => some name
  | .undefined name => some name
  | .constantAssigned name => some name
  | _ => none

end EvalError

/-- A reason to stop evaluating. -/
inductive Fault where
  /-- A mistake of the program. -/
  | error (e : EvalError)
  /-- A program stands inside the program. -/
  | nestedProgram
  /-- A collection stands in the place of a name. -/
  | compoundName (type : String)
deriving DecidableEq, Repr

/-- What is wrong. -/
def Fault.message : Fault → String
  | .error e => e.message
  | .nestedProgram => "eval: unexpected node type Program"
  | .compoundName type => s!"unhashable type: '{type}'"

/-- The value of an operation, given by its symbol. The types of the operands are looked at before
the symbol is. -/
def Value.combine (symbol : String) : Value → Value → Except EvalError Value
  | .null, _ => .ok .null
  | _, .null => .ok .null
  | .number x, .number y =>
    match Operator.ofSymbol? symbol with
    | some op => .ok (.number (op.compute x y))
    | none => .error (.unknownOperator symbol)
  | a, b => .error (.unsupportedOperands symbol a.typeName b.typeName)

end LetCalc
