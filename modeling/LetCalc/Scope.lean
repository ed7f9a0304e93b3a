import LetCalc.EvalError

/-!
# Scopes

A scope binds names to values, in order of declaration, and lies inside other scopes. A `Forest`
holds all scopes, numbered in order of creation; each lists the numbers of the scopes around it,
nearest first, so that the chain of scopes seen from a scope is given at once. Two names are the
same if their keys are.

* `Forest.resolve`, `Forest.lookup`, `Forest.isConst`: the nearest scope with a name.
* `Forest.declare`: a new name in one scope.
* `Forest.assign`: a new value in the nearest scope with the name.
-/

namespace LetCalc

/-- What a name is compared by. Numbers and truth values are compared by their exact value. -/
inductive Key where
  | text (value : LooseText)
  | null
  /-- An exact number, counted in the units of `Binary64`. -/
  | number (units : Int)
  | infinite (negative : Bool)
  | nan
deriving DecidableEq, Repr

/-- The key of a name. -/
def Scalar.key : Scalar → Key
  | .null => .null
  | .bool b => .number (if b then Binary64.unitsPerOne else 0)
  | .int i => .number (i * Binary64.unitsPerOne)
  | .float .nan => .nan
  | .float (.infinite negative) => .infinite negative
  | .float (.finite negative rank) => .number (Binary64.signedUnits negative rank)
  | .text s => .text s

/-- A name with its value. -/
structure Binding where
  /-- The name as it was written in the declaration. -/
  name : Scalar
  /-- The present value. -/
  value : Value
  /-- Whether the value is fixed. -/
  isConst : Bool
deriving DecidableEq, Repr

/-- A scope. -/
structure Scope where
  /-- The numbers of the scopes around it, nearest first. -/
  enclosing : List Nat
  /-- Its names, in order of declaration. -/
  bindings : List Binding
deriving DecidableEq, Repr

namespace Scope

/-- The binding of a key. -/
def find? (s : Scope) (key : Key) : Option Binding := s.bindings.find? (·.name.key = key)

/-- The scope with a further binding at the end. -/
def add (s : Scope) (b : Binding) : Scope := { s with bindings := s.bindings ++ [b] }

/-- The scope with a new value for a key. -/
def set (s : Scope) (key : Key) (value : Value) : Scope :=
  { s with bindings := s.bindings.map fun b => if b.name.key = key then { b with value } else b }

/-- The constants of an outermost scope. -/
def constants : List Binding :=
  [⟨.text "true", .boolean true, true⟩, ⟨.text "false", .boolean false, true⟩]

end Scope

/-- All scopes, in order of creation. -/
structure Forest where
  /-- The scopes, each at its number. -/
  scopes : List Scope
deriving DecidableEq, Repr

namespace Forest

/-- No scopes. -/
def empty : Forest := ⟨[]⟩

/-- The names of a scope with their values, in order of declaration. -/
def bindings (f : Forest) (scope : Nat) : List Binding :=
  (f.scopes[scope]?.map Scope.bindings).getD []

/-- The numbers of a scope and of the scopes around it, nearest first. -/
def chain (f : Forest) (scope : Nat) : List Nat :=
  (f.scopes[scope]?.map fun s => scope :: s.enclosing).getD []

/-- The binding of a key in one scope. -/
def bindingIn? (f : Forest) (scope : Nat) (key : Key) : Option Binding :=
  f.scopes[scope]?.bind (·.find? key)

/-- The nearest scope of the chain that has a name. -/
def resolve (f : Forest) (scope : Nat) (name : Scalar) : Option Nat :=
  (f.chain scope).find? fun i => (f.bindingIn? i name.key).isSome

/-- The binding of a name in the nearest scope that has it. -/
def binding? (f : Forest) (scope : Nat) (name : Scalar) : Option Binding :=
  (f.chain scope).findSome? fun i => f.bindingIn? i name.key

/-- The value of a name. -/
def lookup (f : Forest) (scope : Nat) (name : Scalar) : Option Value :=
  (f.binding? scope name).map Binding.value

/-- Whether a name is a constant. -/
def isConst (f : Forest) (scope : Nat) (name : Scalar) : Bool :=
  ((f.binding? scope name).map Binding.isConst).getD false

/-- The forest with one scope changed. -/
def modify (f : Forest) (scope : Nat) (change : Scope → Scope) : Forest :=
  ⟨f.scopes.modify scope change⟩

/-- Declares a name in a scope that does not have it yet. -/
def declare (f : Forest) (scope : Nat) (name : Scalar) (value : Value) (isConst : Bool) :
    Except EvalError Forest :=
  if (f.bindingIn? scope name.key).isSome then .error (.redeclared name)
  else .ok (f.modify scope (·.add ⟨name, value, isConst⟩))

/-- Gives a name a new value in the nearest scope that has it, unless it is a constant there. -/
def assign (f : Forest) (scope : Nat) (name : Scalar) (value : Value) :
    Except EvalError Forest :=
  match f.resolve scope name with
  | none => .error (.undefined name)
  | some owner =>
    if f.isConst scope name then .error (.constantAssigned name)
    else .ok (f.modify owner (·.set name.key value))

/-- The forest with a new outermost scope, which has the constants. -/
def addRoot (f : Forest) : Forest := ⟨f.scopes ++ [⟨[], Scope.constants⟩]⟩

/-- The forest with a new scope inside another one. -/
def addChild (f : Forest) (scope : Nat) : Forest := ⟨f.scopes ++ [⟨f.chain scope, []⟩]⟩

/-- Declares bindings one after the other, up to the first that fails. -/
def declareAll (f : Forest) (scope : Nat) : List Binding → Except EvalError Unit × Forest
  | [] => (.ok (), f)
  | b :: rest =>
    match f.declare scope b.name b.value b.isConst with
    | .error e => (.error e, f)
    | .ok f => f.declareAll scope rest

/-- A single outermost scope, at number 0. -/
def single : Forest := empty.addRoot

end Forest

end LetCalc
