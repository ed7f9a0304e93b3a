import LetCalc.Evaluation

/-!
# Sessions

A session is a sequence of requests on a growing forest of scopes and a growing list of programs.
Scopes and programs are numbered in order of creation. A request that fails keeps what it changed
before the failure.
-/

namespace LetCalc

/-- Why source text has no value. -/
inductive Failure where
  /-- It is not a program. -/
  | parse (e : ParseError)
  /-- Its evaluation stops. -/
  | fault (f : Fault)
deriving DecidableEq, Repr

/-- Parses source text and evaluates it in a scope of a forest. -/
def Program.run (level : Int) (scope : Nat) (source : String) (forest : Forest) :
    Except Failure Value × Forest × List Event :=
  match Program.parse source with
  | .error e => (.error (.parse e), forest, [])
  | .ok program =>
    let outcome := program.evaluate level scope forest
    (outcome.result.mapError .fault, outcome.forest, outcome.trace)

/-- The state of a session. -/
structure Session where
  /-- The scopes. -/
  forest : Forest
  /-- The parsed programs. -/
  programs : List Program

namespace Session

/-- A session at its start. -/
def start : Session := ⟨.empty, []⟩

/-- What can be asked of a session. -/
inductive Request where
  /-- A new outermost scope. -/
  | root
  /-- A new scope inside another one. -/
  | child (scope : Nat)
  /-- A new name. -/
  | declare (scope : Nat) (name : Scalar) (value : Value) (isConst : Bool)
  /-- A new value for a name. -/
  | assign (scope : Nat) (name : Scalar) (value : Value)
  /-- The value of a name. -/
  | lookup (scope : Nat) (name : Scalar)
  /-- The scope that has a name. -/
  | resolve (scope : Nat) (name : Scalar)
  /-- Whether a name is a constant. -/
  | isConst (scope : Nat) (name : Scalar)
  /-- The constants of an outermost scope, declared once more. -/
  | declareConstants (scope : Nat)
  /-- The names of a scope. -/
  | bindings (scope : Nat)
  /-- The value of a source text. -/
  | run (scope : Nat) (source : String) (level : Int)
  /-- A new program. -/
  | parse (source : String)
  /-- The value of a program. -/
  | evaluate (program : Nat) (scope : Nat) (level : Int)

/-- What a session answers. -/
inductive Reply where
  | nothing
  | number (n : Nat)
  | value (v : Value)
  | flag (b : Bool)
  | bindings (bs : List Binding)
deriving DecidableEq, Repr

/-- The answer to a request. -/
structure Answer where
  /-- What was asked for, or why there is none. -/
  reply : Except Failure Reply
  /-- The events reported, in order. -/
  trace : List Event
  /-- The session afterwards. -/
  session : Session

/-- An answer that leaves the session as it is. -/
def tell (s : Session) (reply : Reply) : Answer := ⟨.ok reply, [], s⟩

/-- The answer to a change of the forest that gives a name a value. -/
def bind (s : Session) (value : Value) : Except EvalError Forest → Answer
  | .ok forest => ⟨.ok (.value value), [], { s with forest }⟩
  | .error e => ⟨.error (.fault (.error e)), [], s⟩

/-- Answers a request. -/
def step (s : Session) : Request → Answer
  | .root => { s with forest := s.forest.addRoot }.tell (.number s.forest.scopes.length)
  | .child scope =>
    { s with forest := s.forest.addChild scope }.tell (.number s.forest.scopes.length)
  | .declare scope name value isConst => s.bind value (s.forest.declare scope name value isConst)
  | .assign scope name value => s.bind value (s.forest.assign scope name value)
  | .lookup scope name => s.tell ((s.forest.lookup scope name).elim .nothing .value)
  | .resolve scope name => s.tell ((s.forest.resolve scope name).elim .nothing .number)
  | .isConst scope name => s.tell (.flag (s.forest.isConst scope name))
  | .declareConstants scope =>
    let (result, forest) := s.forest.declareAll scope Scope.constants
    ⟨(result.map fun _ => .nothing).mapError fun e => .fault (.error e), [], { s with forest }⟩
  | .bindings scope => s.tell (.bindings (s.forest.bindings scope))
  | .run scope source level =>
    let (result, forest, trace) := Program.run level scope source s.forest
    ⟨result.map .value, trace, { s with forest }⟩
  | .parse source =>
    match Program.parse source with
    | .ok program =>
      { s with programs := s.programs ++ [program] }.tell (.number s.programs.length)
    | .error e => ⟨.error (.parse e), [], s⟩
  | .evaluate program scope level =>
    let outcome := ((s.programs[program]?).getD []).evaluate level scope s.forest
    let reply := (outcome.result.map .value).mapError .fault
    ⟨reply, outcome.trace, { s with forest := outcome.forest }⟩

/-- Answers requests in turn. -/
def steps (s : Session) : List Request → List Answer × Session
  | [] => ([], s)
  | request :: rest =>
    let answer := s.step request
    let (more, last) := answer.session.steps rest
    (answer :: more, last)

end Session

end LetCalc
