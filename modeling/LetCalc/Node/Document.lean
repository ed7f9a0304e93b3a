import LetCalc.Node
import LetCalc.Decimal.Lenient

/-!
# Programs as documents

Every node is written as an object whose field `type` tells what it is. `Node.toJson` writes a
node, and `Node.ofJson` reads one back from any document, naming the first thing that is wrong
with it. Fields that a type does not have are ignored.
-/

namespace LetCalc

/-- Why a document is not a node. -/
inductive LoadError where
  /-- A node is not an object. -/
  | notAnObject
  /-- No type of node has this name. -/
  | unknownType (type : Json)
  /-- No operation has this symbol. -/
  | unknownOperator (symbol : Json)
  /-- A collection stands for the symbol of an operation. -/
  | compoundOperator (type : String)
  /-- A field is missing. -/
  | missingField (key : String)
  /-- The body of a program is not a collection. -/
  | bodyNotACollection (type : String)
  /-- The value of a number is of a type that holds no number. -/
  | notANumber (type : String)
  /-- The value of a number is a text that writes no number. -/
  | unreadableNumber (text : LooseText)
  /-- The value of a number is a whole number past the largest finite one. -/
  | numberTooLarge
deriving Repr

/-- What is wrong. -/
def LoadError.message : LoadError → String
  | .notAnObject => "Invalid AST object"
  | .unknownType type => "Unknown AST node type: " ++ type.display
  | .unknownOperator symbol => "Unknown binary operator: " ++ symbol.literal
  | .compoundOperator type => s!"unhashable type: '{type}'"
  | .missingField key => Text.quoted key
  | .bodyNotACollection type => s!"'{type}' object is not iterable"
  | .notANumber type => s!"float() argument must be a string or a real number, not '{type}'"
  | .unreadableNumber text => "could not convert string to float: " ++ text.quoted
  | .numberTooLarge => "int too large to convert to float"

namespace Node

mutual

/-- A node as a document. -/
def toJson : Node → Json
  | .number x => .object [("type", .text "Number"), ("value", .scalar (.float x))]
  | .null => .object [("type", .text "Null")]
  | .identifier name => .object [("type", .text "Identifier"), ("name", name)]
  | .binary op left right =>
    .object [("type", .text "BinaryExpr"), ("operator", .text op.symbol), ("left", left.toJson),
      ("right", right.toJson)]
  | .assignment target value =>
    .object [("type", .text "AssignmentExpr"), ("target", target.toJson), ("value", value.toJson)]
  | .declaration name isConst initializer =>
    .object [("type", .text "VarDeclaration"), ("name", name),
      ("is_const", .scalar (.bool isConst)), ("initializer", initializer.toJson)]
  | .program body => .object [("type", .text "Program"), ("body", .array (listToJson body))]

/-- Nodes as documents. -/
def listToJson : List Node → List Json
  | [] => []
  | node :: rest => node.toJson :: listToJson rest

end

/-- The number that a document stands for. -/
def numberOfJson : Json → Except LoadError Binary64
  | .scalar (.bool b) => .ok (if b then .ofUnits false Binary64.unitsPerOne 1 else .zero false)
  | .scalar (.int i) => (Binary64.ofInt? i).elim (.error .numberTooLarge) .ok
  | .scalar (.float x) => .ok x
  | .scalar (.text (.whole s)) => (Lenient.number? s).elim (.error (.unreadableNumber s)) .ok
  | .scalar (.text s) => .error (.unreadableNumber s)
  | j => .error (.notANumber j.typeName)

/-- The operation that the field `operator` names. A missing field is taken for null. -/
def operatorOfJson (fields : List (LooseText × Json)) : Except LoadError Operator :=
  match (Json.field? fields "operator").getD default with
  | .scalar (.text (.whole s)) =>
    (Operator.ofSymbol? s).elim (.error (.unknownOperator (.text s))) .ok
  | .scalar s => .error (.unknownOperator (.scalar s))
  | j => .error (.compoundOperator j.typeName)

/-- The value of a field that must be there. -/
def requiredField (fields : List (LooseText × Json)) (key : String) :
    Except LoadError { value : Json // sizeOf value < sizeOf fields } :=
  match h : Json.field? fields key with
  | some value => .ok ⟨value, Json.sizeOf_lt_of_field? h⟩
  | none => .error (.missingField key)

mutual

/-- The node that a document stands for. -/
def ofJson : Json → Except LoadError Node
  | .object fields =>
    match Json.field? fields "type" with
    | some (.scalar (.text (.whole "Program"))) => do
      let ⟨body, _h⟩ ← requiredField fields "body"
      return .program (← bodyOfJson body)
    | some (.scalar (.text (.whole "Number"))) => do
      let ⟨value, _h⟩ ← requiredField fields "value"
      return .number (← numberOfJson value)
    | some (.scalar (.text (.whole "Identifier"))) => do
      let ⟨name, _h⟩ ← requiredField fields "name"
      return .identifier name
    | some (.scalar (.text (.whole "BinaryExpr"))) => do
      -- The operation is looked at before either operand.
      let op ← operatorOfJson fields
      let ⟨left, _h⟩ ← requiredField fields "left"
      let left ← ofJson left
      let ⟨right, _h⟩ ← requiredField fields "right"
      return .binary op left (← ofJson right)
    | some (.scalar (.text (.whole "AssignmentExpr"))) => do
      let ⟨target, _h⟩ ← requiredField fields "target"
      let target ← ofJson target
      let ⟨value, _h⟩ ← requiredField fields "value"
      return .assignment target (← ofJson value)
    | some (.scalar (.text (.whole "VarDeclaration"))) => do
      let ⟨name, _h⟩ ← requiredField fields "name"
      let isConst := ((Json.field? fields "is_const").map Json.isTrue).getD false
      let initializer ← match requiredField fields "initializer" with
        | .ok ⟨initializer, _h⟩ => ofJson initializer
        | .error _ => .ok .null
      return .declaration name isConst initializer
    | some (.scalar (.text (.whole "Null"))) => .ok .null
    | type => .error (.unknownType (type.getD default))
  | _ => .error .notAnObject
termination_by j => 2 * sizeOf j
decreasing_by all_goals simp only [Json.object.sizeOf_spec] at *; omega

/-- The statements that the body of a program stands for. A text or an object is the collection of
its characters or keys, none of which is a node. -/
def bodyOfJson : Json → Except LoadError (List Node)
  | .array items => listOfJson items
  | .object fields => if fields.isEmpty then .ok [] else .error .notAnObject
  | .scalar (.text s) => if s = .whole "" then .ok [] else .error .notAnObject
  | .scalar s => .error (.bodyNotACollection s.typeName)
termination_by j => 2 * sizeOf j + 1
decreasing_by simp only [Json.array.sizeOf_spec]; omega

/-- The nodes that documents stand for. -/
def listOfJson : List Json → Except LoadError (List Node)
  | [] => .ok []
  | item :: rest => do
    let node ← ofJson item
    return node :: (← listOfJson rest)
termination_by items => 2 * sizeOf items
decreasing_by all_goals simp only [List.cons.sizeOf_spec]; omega

end

end Node

end LetCalc
