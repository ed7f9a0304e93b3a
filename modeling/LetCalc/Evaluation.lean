import LetCalc.Event
import LetCalc.Node.Parser
import LetCalc.Scope

/-!
# Evaluation

Programs are evaluated statement by statement in a scope of a forest. Declarations and assignments
change the forest, and changes made before a failure stay. Names without a binding read as null.

A long sum is a tree that is deep on the left. It is evaluated with a list of pending operations:
going down on the left only adds to that list, and each right operand is evaluated when the value
on its left is known, so that no depth of recursion is spent on the length of a sum.

* `Node.eval`: the value of a node.
* `Program.evaluate`: the value of a program, the forest after it and the events reported.
-/

namespace LetCalc

/-- What an evaluation changes. -/
structure Machine where
  /-- The scopes. -/
  forest : Forest
  /-- The events reported so far, in order. -/
  trace : Array Event

/-- A computation on a machine that may stop, keeping the machine as it is then. -/
abbrev Run := ExceptT Fault (StateM Machine)

namespace Run

/-- Reports an event, if events of its level are asked for. -/
def report (level : Int) (event : Event) : Run Unit := fun m =>
  (.ok (), if event.level ≤ level then { m with trace := m.trace.push event } else m)

/-- The name that a document is: only scalars are names. -/
def name : Json → Run Scalar
  | .scalar s => pure s
  | j => throw (.compoundName j.typeName)

/-- The value of a name; null if it has none. -/
def read (scope : Nat) (name : Scalar) : Run Value := fun m =>
  (.ok ((m.forest.lookup scope name).getD .null), m)

/-- Changes the forest, unless that is a mistake of the program. -/
def change (f : Forest → Except EvalError Forest) : Run Unit := fun m =>
  match f m.forest with
  | .ok forest => (.ok (), { m with forest })
  | .error e => (.error (.error e), m)

/-- Carries out an operation. -/
def operate (level : Int) (op : Operator) (left right : Value) : Run Value := fun m =>
  match Value.combine op.symbol left right with
  | .ok result => (do report level (.computed left op right result); return result : Run Value) m
  | .error e => (.error (.error e), m)

/-- Passes a value through pending operations. -/
def resume (value : Value) : List (Value → Run Value) → Run Value
  | [] => pure value
  | operation :: pending => do resume (← operation value) pending

end Run

namespace Node

/-- Evaluates a node and passes its value through pending operations. -/
def evalThen (level : Int) (scope : Nat) : Node → List (Value → Run Value) → Run Value
  | .number x, pending => Run.resume (.number x) pending
  | .null, pending => Run.resume .null pending
  | .identifier name, pending => do
    let name ← Run.name name
    Run.resume (← Run.read scope name) pending
  | .binary op left right, pending =>
    -- The right operand waits for the left one.
    let operation := fun value => do
      Run.operate level op value (← right.evalThen level scope [])
    left.evalThen level scope (operation :: pending)
  | .declaration name isConst initializer, pending => do
    -- The name is looked at only after the initializer is evaluated.
    let value ← initializer.evalThen level scope []
    let name ← Run.name name
    Run.change (·.declare scope name value isConst)
    Run.report level (.declared isConst name value)
    Run.resume value pending
  | .assignment (.identifier name) value, pending => do
    let value ← value.evalThen level scope []
    let name ← Run.name name
    Run.change (·.assign scope name value)
    Run.report level (.assigned name value)
    Run.resume value pending
  | .assignment target _, _ => throw (.error (.invalidTarget target.typeName))
  | .program _, _ => throw .nestedProgram

/-- The value of a node. -/
def eval (level : Int) (scope : Nat) (node : Node) : Run Value := node.evalThen level scope []

end Node

/-- What an evaluation leaves behind. -/
structure Outcome where
  /-- The value, or why there is none. -/
  result : Except Fault Value
  /-- The scopes afterwards. -/
  forest : Forest
  /-- The events reported, in order. -/
  trace : List Event

/-- Runs a computation on a forest. -/
def Run.outcome (r : Run Value) (forest : Forest) : Outcome :=
  let (result, machine) := r ⟨forest, #[]⟩
  ⟨result, machine.forest, machine.trace.toList⟩

namespace Program

/-- Evaluates statements, the first of which has the given index; without any, `last` is the
value. -/
def evalFrom (level : Int) (scope : Nat) (index : Nat) (last : Value) : Program → Run Value
  | [] => pure last
  | statement :: rest => do
    let value ← statement.eval level scope
    Run.report level (.statement index value)
    evalFrom level scope (index + 1) value rest

/-- The value of a program is that of its last statement, or null if it has none. -/
def eval (level : Int) (scope : Nat) (program : Program) : Run Value :=
  program.evalFrom level scope 0 .null

/-- Evaluates a program in a scope of a forest. -/
def evaluate (level : Int) (scope : Nat) (program : Program) (forest : Forest) : Outcome :=
  (program.eval level scope).outcome forest

end Program

end LetCalc
