import LetCalc.Node

/-!
# The nodes of a program

`Node.parts` lists a node and all nodes inside it, at any depth. The names of a program and the
names that it assigns to are read off this list, so that they include those in parts that are never
evaluated, such as the body of a program inside a program.
-/

namespace LetCalc

mutual

/-- A node and all nodes inside it. -/
def Node.parts : Node → List Node
  | .binary op left right => .binary op left right :: (left.parts ++ right.parts)
  | .assignment target value => .assignment target value :: (target.parts ++ value.parts)
  | .declaration name isConst initializer =>
    .declaration name isConst initializer :: initializer.parts
  | .program body => .program body :: Program.parts body
  | node => [node]

/-- All nodes of a program. -/
def Program.parts : List Node → List Node
  | [] => []
  | statement :: rest => statement.parts ++ Program.parts rest

end

namespace Node

/-- The name that a node reads or declares. -/
def name? : Node → Option Scalar
  | .identifier (.scalar name) => some name
  | .declaration (.scalar name) _ _ => some name
  | _ => none

/-- The name that a node assigns to. -/
def target? : Node → Option Scalar
  | .assignment (.identifier (.scalar name)) _ => some name
  | _ => none

/-- The names in a node. -/
def names (node : Node) : List Scalar := node.parts.filterMap name?

/-- The names that are assigned to in a node. -/
def targets (node : Node) : List Scalar := node.parts.filterMap target?

end Node

namespace Program

/-- The names in a program. -/
def names (program : Program) : List Scalar := (Program.parts program).filterMap Node.name?

/-- The names that are assigned to in a program. -/
def targets (program : Program) : List Scalar := (Program.parts program).filterMap Node.target?

/-- The names of a program are those of its statements, in order. -/
@[simp]
theorem names_cons (statement : Node) (rest : Program) :
    names (statement :: rest) = statement.names ++ names rest := by
  simp [names, Node.names, parts]

/-- So are the names that it assigns to. -/
@[simp]
theorem targets_cons (statement : Node) (rest : Program) :
    targets (statement :: rest) = statement.targets ++ targets rest := by
  simp [targets, Node.targets, parts]

end Program

namespace Node

variable (op : Operator) (left right target value initializer : Node) (isConst : Bool)
  (name : Scalar) (document : Json)

theorem parts_binary :
    (binary op left right).parts = binary op left right :: (left.parts ++ right.parts) := rfl

theorem parts_assignment :
    (assignment target value).parts = assignment target value :: (target.parts ++ value.parts) :=
  rfl

theorem parts_declaration :
    (declaration document isConst initializer).parts =
      declaration document isConst initializer :: initializer.parts := rfl

@[simp]
theorem names_identifier : (identifier (.scalar name)).names = [name] := rfl

/-- An operation has the names of its operands. -/
@[simp]
theorem names_binary : (binary op left right).names = left.names ++ right.names := by
  unfold names
  rw [parts_binary, List.filterMap_cons_none rfl, List.filterMap_append]

/-- An assignment has those of its target and of its value, whatever the target is. -/
@[simp]
theorem names_assignment : (assignment target value).names = target.names ++ value.names := by
  unfold names
  rw [parts_assignment, List.filterMap_cons_none rfl, List.filterMap_append]

/-- A declaration has its own name before those of its value. -/
@[simp]
theorem names_declaration :
    (declaration (.scalar name) isConst initializer).names = name :: initializer.names := rfl

/-- A declaration has the names of its value also if its own name is no scalar. -/
theorem names_initializer_subset :
    initializer.names ⊆ (declaration document isConst initializer).names := by
  unfold names
  rw [parts_declaration]
  exact List.filterMap_subset _ (List.subset_cons_self ..)

@[simp]
theorem targets_binary : (binary op left right).targets = left.targets ++ right.targets := by
  unfold targets
  rw [parts_binary, List.filterMap_cons_none rfl, List.filterMap_append]

@[simp]
theorem targets_declaration :
    (declaration document isConst initializer).targets = initializer.targets := by
  unfold targets
  rw [parts_declaration, List.filterMap_cons_none rfl]

/-- An assignment to a variable assigns to its name, and to what its value assigns to. -/
@[simp]
theorem targets_assignment_identifier :
    (assignment (identifier (.scalar name)) value).targets = name :: value.targets := rfl

end Node

end LetCalc
