import LetCalc.Proofs.Evaluation.Relation
import Mathlib.Logic.Relation

/-!
# What happens in an evaluation

An evaluation is a sequence of events. Which kinds of events these are, and in which order, can be
read off the program; the evaluation may stop before the last of them. Each event does to the scopes
what it reports, and comes from a part of the program. If the evaluation stops, a part of the
program and the scopes as they are then tell why. All of this is proved here, in one induction along
the evaluation; how scopes change, which names are declared, what is reported and which faults there
are is then read off the events.

* `Node.reached`: the parts of a node that an evaluation can come to.
* `Node.script`: the kinds of events that make up the evaluation of a node.
* `Event.Happens`, `Forest.History`: what an event does, and what events do one after the other.
* `Fault.Arises`: why an evaluation stops.
* `Run.Performs`: a computation consists of events that follow a script, reports those up to its
  level, and stops for such a reason.
* `Node.performs_eval`, `Program.performs_evaluate`: evaluations do.
* `Forest.Step`, `Program.steps_evaluate`: the changes that an evaluation makes.
-/

namespace LetCalc

open Relation (ReflTransGen)

/-! ## Parts of a program -/

namespace Node

/-- A node and the nodes inside it that an evaluation can come to: neither the target of an
assignment nor the body of a program inside a program is evaluated, and nothing is where the target
is no variable. -/
def reached : Node → List Node
  | .binary op left right => .binary op left right :: (left.reached ++ right.reached)
  | .declaration document isConst initializer =>
    .declaration document isConst initializer :: initializer.reached
  | .assignment (.identifier document) value =>
    .assignment (.identifier document) value :: value.reached
  | node => [node]

/-- The document that a node has in the place of a name. -/
def document? : Node → Option Json
  | .identifier document => some document
  | .declaration document _ _ => some document
  | .assignment (.identifier document) _ => some document
  | _ => none

/-- An evaluation comes to the node itself. -/
theorem mem_reached_self (node : Node) : node ∈ node.reached := by
  unfold reached
  split <;> exact List.mem_cons_self

/-- What is reached is a part. -/
theorem reached_subset_parts (node : Node) : node.reached ⊆ node.parts := by
  induction node using eval_induction with
  | binary op left right ihl ihr =>
    rw [reached, parts]
    refine List.cons_subset_cons _ (List.append_subset.2 ⟨?_, ?_⟩)
    · exact List.subset_append_of_subset_left _ ihl
    · exact List.subset_append_of_subset_right _ ihr
  | declaration document isConst initializer ih =>
    rw [reached, parts]
    exact List.cons_subset_cons _ ih
  | assignment document value ih =>
    rw [reached, parts]
    exact List.cons_subset_cons _ (List.subset_append_of_subset_right _ ih)
  | invalidTarget target value h _ =>
    rw [reached, parts]
    · exact List.cons_subset_cons _ (List.nil_subset _)
    all_goals simp_all
  | program body =>
    rw [reached, parts]
    · exact List.cons_subset_cons _ (List.nil_subset _)
    all_goals simp
  | _ => exact List.Subset.refl _

/-- A name that an evaluation comes to is one of the names in the node. -/
theorem mem_names_of_reached {node part : Node} {name : Scalar} (hpart : part ∈ node.reached)
    (hname : part.document? = some (.scalar name)) : name ∈ node.names := by
  induction node using eval_induction with
  | identifier document =>
    obtain rfl := List.mem_singleton.1 hpart
    obtain rfl := Option.some.inj hname
    exact List.mem_singleton_self name
  | binary op left right ihl ihr =>
    rw [names_binary, List.mem_append]
    rcases List.mem_cons.1 hpart with rfl | hpart
    · cases hname
    · exact (List.mem_append.1 hpart).imp ihl ihr
  | declaration document isConst initializer ih =>
    rcases List.mem_cons.1 hpart with rfl | hpart
    · obtain rfl := Option.some.inj hname
      rw [names_declaration]
      exact List.mem_cons_self
    · exact names_initializer_subset initializer isConst document (ih hpart)
  | assignment document value ih =>
    rw [names_assignment, List.mem_append]
    rcases List.mem_cons.1 hpart with rfl | hpart
    · obtain rfl := Option.some.inj hname
      exact .inl (List.mem_singleton_self name)
    · exact .inr (ih hpart)
  | invalidTarget target value h _ =>
    -- Nothing but the assignment itself is reached, and it has no name.
    rw [reached] at hpart
    · obtain rfl := List.mem_singleton.1 hpart
      cases target with
      | identifier document => exact absurd rfl (h document)
      | _ => cases hname
    all_goals simp_all
  | _ =>
    obtain rfl := List.mem_singleton.1 hpart
    cases hname

end Node

namespace Program

/-- The nodes of a program that an evaluation can come to. -/
def reached (program : Program) : List Node := program.flatMap Node.reached

/-- What is reached is a part. -/
theorem reached_subset_parts (program : Program) : program.reached ⊆ Program.parts program := by
  induction program with
  | nil => exact List.Subset.refl _
  | cons statement rest ih =>
    rw [reached, List.flatMap_cons, Program.parts]
    refine List.append_subset.2 ⟨?_, List.subset_append_of_subset_right _ ih⟩
    exact List.subset_append_of_subset_left _ statement.reached_subset_parts

theorem mem_names_of_reached {program : Program} {part : Node} {name : Scalar}
    (hpart : part ∈ program.reached) (hname : part.document? = some (.scalar name)) :
    name ∈ program.names := by
  induction program with
  | nil => cases hpart
  | cons statement rest ih =>
    rw [reached, List.flatMap_cons, List.mem_append] at hpart
    rw [names_cons, List.mem_append]
    exact hpart.imp (Node.mem_names_of_reached · hname) ih

end Program

/-! ## Scripts -/

/-- What an event is about, without the values that only an evaluation gives. -/
inductive Event.Kind where
  | statement (index : Nat)
  | declared (isConst : Bool) (name : Scalar)
  | assigned (name : Scalar)
  | computed (operator : Operator)
deriving DecidableEq, Repr

/-- The kind of an event. -/
def Event.kind : Event → Event.Kind
  | .statement index _ => .statement index
  | .declared isConst name _ => .declared isConst name
  | .assigned name _ => .assigned name
  | .computed _ operator _ _ => .computed operator

/-- The kinds of events in the evaluation of a node: from left to right, and what is inside a node
before the node itself. A place where every evaluation stops adds no event of its own. -/
def Node.script : Node → List Event.Kind
  | .binary op left right => left.script ++ (right.script ++ [.computed op])
  | .declaration (.scalar name) isConst initializer =>
    initializer.script ++ [.declared isConst name]
  | .declaration _ _ initializer => initializer.script
  | .assignment (.identifier (.scalar name)) value => value.script ++ [.assigned name]
  | .assignment _ value => value.script
  | _ => []

/-- The kinds of events in the evaluation of statements, the first of which has the given index. -/
def Program.scriptFrom (index : Nat) : Program → List Event.Kind
  | [] => []
  | statement :: rest => statement.script ++ (.statement index :: scriptFrom (index + 1) rest)

/-- The kinds of events in the evaluation of a program. -/
def Program.script (program : Program) : List Event.Kind := program.scriptFrom 0

/-! ## Events and faults -/

variable {α β : Type} {level : Int} {scope : Nat} {parts : List Node} {f g h : Forest}

/-- An event takes place in a scope, for one of the given parts of a program, and leads from a
forest to another one. -/
inductive Event.Happens (scope : Nat) (parts : List Node) : Event → Forest → Forest → Prop
  | statement (index : Nat) (value : Value) (f : Forest) :
      Happens scope parts (.statement index value) f f
  | declared {f g : Forest} {name : Scalar} {value : Value} {isConst : Bool} {initializer : Node} :
      .declaration (.scalar name) isConst initializer ∈ parts →
        f.declare scope name value isConst = .ok g →
          Happens scope parts (.declared isConst name value) f g
  | assigned {f g : Forest} {name : Scalar} {value : Value} {node : Node} :
      .assignment (.identifier (.scalar name)) node ∈ parts →
        f.assign scope name value = .ok g → Happens scope parts (.assigned name value) f g
  | computed {a b result : Value} {op : Operator} {left right : Node} (f : Forest) :
      .binary op left right ∈ parts → Value.combine op.symbol a b = .ok result →
        Happens scope parts (.computed a op b result) f f

/-- Events take place one after the other. -/
inductive Forest.History (scope : Nat) (parts : List Node) : List Event → Forest → Forest → Prop
  | nil (f : Forest) : History scope parts [] f f
  | cons {e : Event} {events : List Event} {f g h : Forest} : e.Happens scope parts f g →
      History scope parts events g h → History scope parts (e :: events) f h

/-- An evaluation can come to one of the given parts of a program and then stop, in a scope of a
forest. -/
inductive Fault.Arises (scope : Nat) (parts : List Node) (f : Forest) : Fault → Prop
  | declared {name : Scalar} {value : Value} {isConst : Bool} {initializer : Node} {e : EvalError} :
      .declaration (.scalar name) isConst initializer ∈ parts →
        f.declare scope name value isConst = .error e → Arises scope parts f (.error e)
  | assigned {name : Scalar} {value : Value} {node : Node} {e : EvalError} :
      .assignment (.identifier (.scalar name)) node ∈ parts →
        f.assign scope name value = .error e → Arises scope parts f (.error e)
  | computed {a b : Value} {op : Operator} {left right : Node} {e : EvalError} :
      .binary op left right ∈ parts → Value.combine op.symbol a b = .error e →
        Arises scope parts f (.error e)
  | invalidTarget {target value : Node} :
      .assignment target value ∈ parts → (∀ document, target ≠ .identifier document) →
        Arises scope parts f (.error (.invalidTarget target.typeName))
  | compoundName {part : Node} {document : Json} :
      part ∈ parts → part.document? = some document → (∀ name, document ≠ .scalar name) →
        Arises scope parts f (.compoundName document.typeName)
  | nestedProgram {body : List Node} :
      .program body ∈ parts → Arises scope parts f .nestedProgram

theorem Forest.History.append {events more : List Event}
    (hfg : History scope parts events f g) (hgh : History scope parts more g h) :
    History scope parts (events ++ more) f h := by
  induction hfg with
  | nil _ => exact hgh
  | cons hfirst _ ih => exact .cons hfirst (ih hgh)

/-! ## Computations -/

namespace Run

variable {script more : List Event.Kind}

/-- Events make up a computation from a machine on, which ended with a result and a machine. -/
structure Performed (level : Int) (scope : Nat) (parts : List Node) (script : List Event.Kind)
    (m : Machine) (result : Except Fault α × Machine) (events : List Event) : Prop where
  /-- They lead from the first forest to the last one. -/
  history : Forest.History scope parts events m.forest result.2.forest
  /-- Those up to the level are reported. -/
  trace_eq : result.2.trace.toList = m.trace.toList ++ events.filter (·.level ≤ level)
  /-- They are what the script starts with. -/
  follows : events.map Event.kind <+: script
  /-- They are all of the script, unless the computation stopped. -/
  completes : ∀ a, result.1 = .ok a → events.map Event.kind = script
  /-- If it stopped, there was a reason. -/
  arises : ∀ fault, result.1 = .error fault → fault.Arises scope parts result.2.forest

/-- From every machine, a computation at a level of reports consists of events in a scope that
follow a script. -/
def Performs (level : Int) (scope : Nat) (parts : List Node) (script : List Event.Kind)
    (r : Run α) : Prop :=
  ∀ m : Machine, ∃ events, Performed level scope parts script m (r m) events

/-- A computation that neither changes the machine nor stops. -/
theorem performs_of_ok {r : Run α} (h : ∀ m, ∃ a, r m = (.ok a, m)) :
    Performs level scope parts [] r := by
  intro m
  obtain ⟨a, hm⟩ := h m
  rw [hm]
  exact ⟨[], .nil _, (List.append_nil _).symm, List.prefix_rfl, fun _ _ => rfl, nofun⟩

theorem performs_pure (a : α) : Performs level scope parts [] (pure a) :=
  performs_of_ok fun _ => ⟨a, rfl⟩

theorem performs_read (name : Scalar) : Performs level scope parts [] (read scope name) :=
  performs_of_ok fun _ => ⟨_, rfl⟩

/-- Where a computation stops at once, any script may be left. -/
theorem performed_error {fault : Fault} {m : Machine}
    (h : fault.Arises scope parts m.forest) (script : List Event.Kind) :
    Performed level scope parts script m ((.error fault, m) : Except Fault α × Machine) [] where
  history := .nil _
  trace_eq := (List.append_nil _).symm
  follows := List.nil_prefix
  completes := nofun
  arises := fun _ heq => Except.error.inj heq ▸ h

/-- A computation that stops at once follows every script. -/
theorem performs_throw {fault : Fault} (h : ∀ f, fault.Arises scope parts f)
    (script : List Event.Kind) : Performs level scope parts script (throw fault : Run α) :=
  fun m => ⟨[], performed_error (h m.forest) script⟩

/-- A single event, with its report. -/
theorem performed_report {e : Event} {m : Machine} (h : e.Happens scope parts m.forest f) (a : α) :
    Performed level scope parts [e.kind] m
      ((.ok a, (report level e { m with forest := f }).2) : Except Fault α × Machine) [e] := by
  refine ⟨?_, ?_, List.prefix_rfl, fun _ _ => rfl, nofun⟩
  · have hforest : (report level e { m with forest := f }).2.forest = f := by
      unfold report
      split <;> rfl
    rw [hforest]
    exact .cons h (.nil f)
  · unfold report
    by_cases hlevel : e.level ≤ level
    · simp [hlevel]
    · simp [hlevel]

/-- The events of a first part come before those of a second one, which there are unless the first
part stops. -/
theorem Performs.bind {r : Run α} {k : α → Run β} (hr : Performs level scope parts script r)
    (hk : ∀ a, Performs level scope parts more (k a)) :
    Performs level scope parts (script ++ more) (r >>= k) := by
  intro m
  obtain ⟨events, hevents⟩ := hr m
  rw [bind_apply]
  cases hresult : (r m).1 with
  | error fault =>
    -- The first part stopped, and the second one does not take place.
    refine ⟨events, hevents.history, hevents.trace_eq, ?_, nofun, ?_⟩
    · exact hevents.follows.trans (List.prefix_append _ _)
    · intro fault' heq
      obtain rfl : fault = fault' := Except.error.inj heq
      exact hevents.arises fault hresult
  | ok a =>
    -- The first part came to the end of its script, so that the second script starts there.
    obtain ⟨events', hevents'⟩ := hk a (r m).2
    have hall := hevents.completes a hresult
    refine ⟨events ++ events', hevents.history.append hevents'.history, ?_, ?_, ?_,
      hevents'.arises⟩
    · rw [hevents'.trace_eq, hevents.trace_eq, List.filter_append, List.append_assoc]
    · rw [List.map_append, hall]
      exact (List.prefix_append_right_inj _).2 hevents'.follows
    · intro b hb
      rw [List.map_append, hall, hevents'.completes b hb]

/-- A document is a name, or stops the computation. -/
theorem performs_name_bind {k : Scalar → Run α} {part : Node} {document : Json}
    (hpart : part ∈ parts) (hdocument : part.document? = some document)
    (h : ∀ name, document = .scalar name → Performs level scope parts script (k name)) :
    Performs level scope parts script (name document >>= k) := by
  cases document with
  | scalar s =>
    show Performs level scope parts script (pure s >>= k)
    rw [pure_bind]
    exact h s rfl
  | array items => exact performs_throw (fun _ => .compoundName hpart hdocument nofun) _
  | object fields => exact performs_throw (fun _ => .compoundName hpart hdocument nofun) _

/-! ## Single steps -/

theorem performs_statement (index : Nat) (value : Value) :
    Performs level scope parts [.statement index] (report level (.statement index value)) :=
  fun m => ⟨_, performed_report (f := m.forest) (.statement index value m.forest) ()⟩

/-- An operation is an event, unless the values cannot be combined. -/
theorem performs_operate {op : Operator} {left right : Node}
    (hpart : .binary op left right ∈ parts) (a b : Value) :
    Performs level scope parts [.computed op] (operate level op a b) := by
  intro m
  unfold operate
  cases hcombine : Value.combine op.symbol a b with
  | error e => exact ⟨_, performed_error (.computed hpart hcombine) _⟩
  | ok result => exact ⟨_, performed_report (f := m.forest) (.computed _ hpart hcombine) result⟩

/-- A declaration is an event, unless the name is taken. -/
theorem performs_declare {name : Scalar} {isConst : Bool} {initializer : Node}
    (hpart : .declaration (.scalar name) isConst initializer ∈ parts) (value : Value) :
    Performs level scope parts [.declared isConst name]
      (declare level scope name value isConst) := by
  intro m
  rw [declare, bind_apply, change]
  cases hdeclare : m.forest.declare scope name value isConst with
  | error e => exact ⟨_, performed_error (.declared hpart hdeclare) _⟩
  | ok f => exact ⟨_, performed_report (.declared hpart hdeclare) value⟩

/-- An assignment is an event, unless the name belongs to no scope or is a constant. -/
theorem performs_assign {name : Scalar} {node : Node}
    (hpart : .assignment (.identifier (.scalar name)) node ∈ parts) (value : Value) :
    Performs level scope parts [.assigned name] (assign level scope name value) := by
  intro m
  rw [assign, bind_apply, change]
  cases hassign : m.forest.assign scope name value with
  | error e => exact ⟨_, performed_error (.assigned hpart hassign) _⟩
  | ok f => exact ⟨_, performed_report (.assigned hpart hassign) value⟩

end Run

/-! ## Evaluations -/

/-- The evaluation of a node follows its script. -/
theorem Node.performs_eval (level : Int) (scope : Nat) {node : Node}
    (hparts : node.reached ⊆ parts) :
    Run.Performs level scope parts node.script (node.eval level scope) := by
  -- The node itself is among the parts, and so is every node inside it that is evaluated.
  have hself := hparts node.mem_reached_self
  induction node using Node.eval_induction with
  | number x => exact Run.performs_pure _
  | null => exact Run.performs_pure _
  | identifier document =>
    rw [eval_identifier]
    exact Run.performs_name_bind hself rfl fun name _ => Run.performs_read name
  | binary op left right ihl ihr =>
    obtain ⟨hleft, hright⟩ := List.append_subset.1 (List.cons_subset.1 hparts).2
    rw [eval_binary, script]
    refine (ihl hleft (hleft left.mem_reached_self)).bind fun a => ?_
    exact (ihr hright (hright right.mem_reached_self)).bind fun b => Run.performs_operate hself a b
  | declaration document isConst initializer ih =>
    have hinitializer := (List.cons_subset.1 hparts).2
    have hvalue := ih hinitializer (hinitializer initializer.mem_reached_self)
    rw [eval_declaration]
    cases document with
    | scalar name =>
      rw [script]
      refine hvalue.bind fun value => Run.performs_name_bind hself rfl fun name' hname => ?_
      obtain rfl : name = name' := Json.scalar.inj hname
      exact Run.performs_declare hself value
    | array items | object fields =>
      -- A collection is no name, and stops the evaluation.
      rw [script, ← List.append_nil initializer.script]
      · exact hvalue.bind fun value => Run.performs_name_bind hself rfl nofun
      · exact nofun
  | assignment document value ih =>
    have hvalue := (List.cons_subset.1 hparts).2
    have hvalue := ih hvalue (hvalue value.mem_reached_self)
    rw [eval_assignment]
    cases document with
    | scalar name =>
      rw [script]
      refine hvalue.bind fun value => Run.performs_name_bind hself rfl fun name' hname => ?_
      obtain rfl : name = name' := Json.scalar.inj hname
      exact Run.performs_assign hself value
    | array items | object fields =>
      rw [script, ← List.append_nil value.script]
      · exact hvalue.bind fun value => Run.performs_name_bind hself rfl nofun
      · simp
  | invalidTarget target value h _ =>
    rw [eval_invalidTarget _ _ h]
    exact Run.performs_throw (fun _ => .invalidTarget hself h) _
  | program body => exact Run.performs_throw (fun _ => .nestedProgram hself) _

namespace Program

/-- Statements follow their scripts one after the other, each with an event of its own at the end.
-/
theorem performs_evalFrom (level : Int) (scope index : Nat) (last : Value) {program : Program}
    (hparts : program.reached ⊆ parts) :
    Run.Performs level scope parts (program.scriptFrom index)
      (program.evalFrom level scope index last) := by
  induction program generalizing index last with
  | nil => exact Run.performs_pure last
  | cons statement rest ih =>
    rw [reached, List.flatMap_cons, List.append_subset] at hparts
    refine (statement.performs_eval level scope hparts.1).bind fun value => ?_
    exact (Run.performs_statement index value).bind fun _ => ih (index + 1) value hparts.2

/-- The events of an evaluation, of which those up to its level are its trace. -/
theorem performs_evaluate (level : Int) (scope : Nat) (program : Program) (forest : Forest) :
    ∃ events, Run.Performed level scope program.reached program.script ⟨forest, #[]⟩
      (program.eval level scope ⟨forest, #[]⟩) events :=
  performs_evalFrom level scope 0 .null (List.Subset.refl _) ⟨forest, #[]⟩

end Program

/-! ## Changes -/

/-- A declaration in a scope, or an assignment to a target that is made in that scope. -/
inductive Forest.Step (scope : Nat) (targets : List Scalar) : Forest → Forest → Prop
  | declare {f g : Forest} {name : Scalar} {value : Value} {isConst : Bool} :
      f.declare scope name value isConst = .ok g → Step scope targets f g
  | assign {f g : Forest} {name : Scalar} {value : Value} :
      name ∈ targets → f.assign scope name value = .ok g → Step scope targets f g

/-- The changes that events make are declarations and assignments, the latter to targets only. -/
theorem Forest.History.steps {events : List Event} {targets : List Scalar}
    (h : History scope parts events f g) (htargets : parts.filterMap Node.target? ⊆ targets) :
    ReflTransGen (Forest.Step scope targets) f g := by
  induction h with
  | nil f => exact .refl
  | cons hfirst _ ih =>
    cases hfirst with
    | statement => exact ih
    | declared _ hdeclare => exact .head (.declare hdeclare) ih
    | assigned hpart hassign =>
      exact .head (.assign (htargets (List.mem_filterMap.2 ⟨_, hpart, rfl⟩)) hassign) ih
    | computed => exact ih

/-- An evaluation changes the scopes one declaration or assignment at a time, up to its end or to
the fault that stops it. -/
theorem Program.steps_evaluate (level : Int) (scope : Nat) (program : Program) (forest : Forest) :
    ReflTransGen (Forest.Step scope program.targets) forest
      (program.evaluate level scope forest).forest := by
  obtain ⟨events, hevents⟩ := program.performs_evaluate level scope forest
  exact hevents.history.steps (List.filterMap_subset _ program.reached_subset_parts)

end LetCalc
