import LetCalc.Evaluation

/-!
# Evaluation by plain recursion

`Node.eval` works through a list of pending operations. Here is the plain evaluator it has to agree
with: an operation evaluates its left operand, then its right one, then combines the two values and
reports it. Both are computations on a machine, so that equality of the computations covers the
value or the fault, all scopes and all events, from every machine.

* `Node.evalDirect`: plain recursion, and `Node.eval_induction`: induction along it.
* `Node.evalSpine`: the same as a loop. The left operands are followed down to the innermost one,
  and the operations met on the way are carried out in reverse.
* `Node.evalThen_eq`: pending operations are applied to the value of plain recursion, in order.
* `eval_eq_evalDirect`: all three agree on every node, and on every program.
* `Node.eval_binary` and its like: evaluation, one equation for each case of the induction.
-/

namespace LetCalc

namespace Node

/-- The value of a node by plain recursion. -/
def evalDirect (level : Int) (scope : Nat) : Node → Run Value
  | .number x => pure (.number x)
  | .null => pure .null
  | .identifier name => do Run.read scope (← Run.name name)
  | .binary op left right => do
    let a ← left.evalDirect level scope
    let b ← right.evalDirect level scope
    match Value.combine op.symbol a b with
    | .ok result =>
      Run.report level (.computed a op b result)
      return result
    | .error e => throw (.error e)
  | .declaration name isConst initializer => do
    let value ← initializer.evalDirect level scope
    let name ← Run.name name
    Run.change (·.declare scope name value isConst)
    Run.report level (.declared isConst name value)
    return value
  | .assignment (.identifier name) value => do
    let value ← value.evalDirect level scope
    let name ← Run.name name
    Run.change (·.assign scope name value)
    Run.report level (.assigned name value)
    return value
  | .assignment target _ => throw (.error (.invalidTarget target.typeName))
  | .program _ => throw .nestedProgram

/-- Induction on a node, with one case for each way in which it is evaluated. The target of an
assignment and the body of a program inside a program are not evaluated. -/
theorem eval_induction {motive : Node → Prop} (number : ∀ x, motive (.number x))
    (null : motive .null) (identifier : ∀ document, motive (.identifier document))
    (binary : ∀ op left right, motive left → motive right → motive (.binary op left right))
    (declaration : ∀ document isConst initializer, motive initializer →
      motive (.declaration document isConst initializer))
    (assignment : ∀ document value, motive value →
      motive (.assignment (.identifier document) value))
    (invalidTarget : ∀ target value, (∀ document, target ≠ .identifier document) →
      motive value → motive (.assignment target value))
    (program : ∀ body, motive (.program body)) : ∀ node, motive node
  | .number x => number x
  | .null => null
  | .identifier document => identifier document
  | .binary op left right => binary op left right
      (eval_induction number null identifier binary declaration assignment invalidTarget program
        left)
      (eval_induction number null identifier binary declaration assignment invalidTarget program
        right)
  | .declaration document isConst initializer => declaration document isConst initializer
      (eval_induction number null identifier binary declaration assignment invalidTarget program
        initializer)
  | .assignment target value => by
    have ih := eval_induction number null identifier binary declaration assignment invalidTarget
      program value
    by_cases h : ∃ document, target = .identifier document
    · obtain ⟨document, rfl⟩ := h
      exact assignment document value ih
    · exact invalidTarget target value (not_exists.1 h) ih
  | .program body => program body

/-- The innermost left operand of a node, and the operations on the way down to it, the innermost
first, before those that are given. -/
def descend : Node → List (Operator × Node) → Node × List (Operator × Node)
  | .binary op left right, operations => left.descend ((op, right) :: operations)
  | node, operations => (node, operations)

/-- Carries out operations in turn; each right operand is evaluated when its turn comes. -/
def carryOut (level : Int) (scope : Nat) (value : Value) (operations : List (Operator × Node)) :
    Run Value :=
  operations.foldlM (fun left (op, right) => do
    Run.operate level op left (← right.eval level scope)) value

/-- The value of a node by a loop over the operations along its left operands. -/
def evalSpine (level : Int) (scope : Nat) (node : Node) : Run Value := do
  let (first, operations) := node.descend []
  carryOut level scope (← first.eval level scope) operations

end Node

namespace Program

/-- Evaluates statements by plain recursion, as `evalFrom` does. -/
def evalDirectFrom (level : Int) (scope : Nat) (index : Nat) (last : Value) : Program → Run Value
  | [] => pure last
  | statement :: rest => do
    let value ← statement.evalDirect level scope
    Run.report level (.statement index value)
    evalDirectFrom level scope (index + 1) value rest

/-- The value of a program by plain recursion. -/
def evalDirect (level : Int) (scope : Nat) (program : Program) : Run Value :=
  program.evalDirectFrom level scope 0 .null

end Program

namespace Run

/-- An operation combines two values and reports it. -/
theorem operate_eq (level : Int) (op : Operator) (a b : Value) :
    operate level op a b = (match Value.combine op.symbol a b with
      | .ok result => do
        report level (.computed a op b result)
        return result
      | .error e => throw (.error e)) := by
  funext m
  unfold operate
  cases Value.combine op.symbol a b <;> rfl

@[simp]
theorem resume_nil (value : Value) : resume value [] = pure value := rfl

@[simp]
theorem resume_cons (value : Value) (operation : Value → Run Value)
    (pending : List (Value → Run Value)) :
    resume value (operation :: pending) = operation value >>= fun v => resume v pending := rfl

/-- Makes a declaration and reports it. -/
def declare (level : Int) (scope : Nat) (name : Scalar) (value : Value) (isConst : Bool) :
    Run Value := do
  change (·.declare scope name value isConst)
  report level (.declared isConst name value)
  return value

/-- Makes an assignment and reports it. -/
def assign (level : Int) (scope : Nat) (name : Scalar) (value : Value) : Run Value := do
  change (·.assign scope name value)
  report level (.assigned name value)
  return value

theorem throw_bind {α β : Type} (fault : Fault) (f : α → Run β) :
    (throw fault : Run α) >>= f = throw fault := rfl

end Run

/-- Pending operations are applied, in order, to the value that plain recursion gives. -/
theorem Node.evalThen_eq (level : Int) (scope : Nat) (node : Node)
    (pending : List (Value → Run Value)) :
    node.evalThen level scope pending =
      node.evalDirect level scope >>= fun value => Run.resume value pending := by
  -- The left operand is evaluated with one more pending operation, so the list has to vary.
  induction node using eval_induction generalizing pending with
  | number x => rw [evalThen, evalDirect, pure_bind]
  | null => rw [evalThen, evalDirect, pure_bind]
  | identifier document => rw [evalThen, evalDirect, bind_assoc]
  | binary op left right ihl ihr =>
    rw [evalThen, evalDirect, ihl]
    simp only [Run.resume_cons, ihr, Run.resume_nil, bind_pure, bind_assoc, Run.operate_eq]
  | declaration document isConst initializer ih =>
    rw [evalThen, evalDirect, ih]
    simp only [Run.resume_nil, bind_pure, bind_assoc, pure_bind]
  | assignment document value ih =>
    rw [evalThen, evalDirect, ih]
    simp only [Run.resume_nil, bind_pure, bind_assoc, pure_bind]
  | invalidTarget target value h _ =>
    -- That the target is no variable is needed to choose the equations.
    rw [evalThen, evalDirect, Run.throw_bind]
    · exact h
    · exact h
  | program body => rw [evalThen, evalDirect, Run.throw_bind]

/-- Pending operations are nothing but plain recursion. -/
theorem Node.eval_eq (level : Int) (scope : Nat) (node : Node) :
    node.eval level scope = node.evalDirect level scope := by
  rw [Node.eval, Node.evalThen_eq]
  simp only [Run.resume_nil, bind_pure]

namespace Node

variable (level : Int) (scope : Nat)

theorem eval_identifier (document : Json) :
    (identifier document).eval level scope = (do Run.read scope (← Run.name document)) := by
  rw [eval_eq, evalDirect]

/-- An operation evaluates its left operand, then its right one. -/
theorem eval_binary (op : Operator) (left right : Node) :
    (binary op left right).eval level scope = (do
      let a ← left.eval level scope
      let b ← right.eval level scope
      Run.operate level op a b) := by
  simp only [eval_eq, Run.operate_eq]
  rw [evalDirect]

/-- A declaration is made, and then reported. -/
theorem eval_declaration (document : Json) (isConst : Bool) (initializer : Node) :
    (declaration document isConst initializer).eval level scope = (do
      let value ← initializer.eval level scope
      let name ← Run.name document
      Run.declare level scope name value isConst) := by
  rw [eval_eq, evalDirect, eval_eq]
  rfl

/-- An assignment is made, and then reported. -/
theorem eval_assignment (document : Json) (value : Node) :
    (assignment (.identifier document) value).eval level scope = (do
      let value ← value.eval level scope
      let name ← Run.name document
      Run.assign level scope name value) := by
  rw [eval_eq, evalDirect, eval_eq]
  rfl

/-- What is assigned to no variable is not evaluated. -/
theorem eval_invalidTarget {target : Node} (h : ∀ document, target ≠ .identifier document)
    (value : Node) :
    (assignment target value).eval level scope =
      throw (.error (.invalidTarget target.typeName)) := by
  rw [eval_eq, evalDirect]
  exact h

end Node

/-- The operations along the left operands lead from the innermost value to that of the node. -/
theorem Node.carryOut_descend (level : Int) (scope : Nat) (node : Node)
    (operations : List (Operator × Node)) :
    ((node.descend operations).1.eval level scope >>= fun value =>
        carryOut level scope value (node.descend operations).2) =
      node.eval level scope >>= fun value => carryOut level scope value operations := by
  induction node using eval_induction generalizing operations with
  | binary op left right ih _ =>
    rw [descend, ih, Node.eval_binary]
    simp only [carryOut, List.foldlM_cons, bind_assoc]
  | _ => rfl

/-- Following the left operands down is plain recursion too. -/
theorem Node.evalSpine_eq (level : Int) (scope : Nat) (node : Node) :
    node.evalSpine level scope = node.evalDirect level scope := by
  have h := Node.carryOut_descend level scope node []
  simp only [carryOut, List.foldlM_nil, bind_pure] at h
  rw [← Node.eval_eq, ← h]
  rfl

/-- Programs are evaluated by plain recursion on their statements. -/
theorem Program.evalFrom_eq (level : Int) (scope index : Nat) (last : Value) (program : Program) :
    program.evalFrom level scope index last = program.evalDirectFrom level scope index last := by
  induction program generalizing index last with
  | nil => rfl
  | cons statement rest ih =>
    rw [Program.evalFrom, Program.evalDirectFrom, Node.eval_eq]
    simp only [ih]

/-- Every node and every program evaluates as by plain recursion: from every machine, with the same
value or fault, the same scopes and the same events, at every level. So does the loop over the
operations along the left operands. -/
theorem eval_eq_evalDirect (level : Int) (scope : Nat) :
    (∀ node : Node, node.eval level scope = node.evalDirect level scope) ∧
    (∀ node : Node, node.evalSpine level scope = node.evalDirect level scope) ∧
      ∀ program : Program, program.eval level scope = program.evalDirect level scope :=
  ⟨Node.eval_eq level scope, Node.evalSpine_eq level scope,
    Program.evalFrom_eq level scope 0 .null⟩

end LetCalc
