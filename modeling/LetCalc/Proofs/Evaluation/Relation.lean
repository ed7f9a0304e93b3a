import LetCalc.Proofs.Evaluation.Recursion
import LetCalc.Proofs.Node.Parts

/-!
# Two evaluations side by side

Many facts about evaluations compare two of them: at two levels of reports, or in two scopes. Such a
comparison is a relation of machines that both evaluations keep. It has to be checked for what an
evaluation does in single steps only, which are reports, reading a name, declarations and
assignments.

* `Run.Relates`: two computations end in the same way, and leave related machines.
* `Run.StepsRelate`: the single steps of two evaluations are so related.
* `Node.relates_eval`, `Program.relates_eval`: then the evaluations are.
-/

namespace LetCalc

namespace Run

variable {α β : Type} {R : Machine → Machine → Prop}

/-- From related machines, two computations end in the same way and leave related machines. -/
def Relates (R : Machine → Machine → Prop) (r s : Run α) : Prop :=
  ∀ m n : Machine, R m n → (r m).1 = (s n).1 ∧ R (r m).2 (s n).2

/-- A second part is run unless the first one ends with a fault. -/
theorem bind_apply (r : Run α) (f : α → Run β) (m : Machine) :
    (r >>= f) m = (match (r m).1 with
      | .error fault => (.error fault, (r m).2)
      | .ok a => f a (r m).2) := by
  show ExceptT.bindCont f (r m).1 (r m).2 = _
  cases (r m).1 <;> rfl

theorem relates_pure (a : α) : Relates R (pure a) (pure a) := fun _ _ h => ⟨rfl, h⟩

theorem relates_throw (fault : Fault) : Relates R (throw fault : Run α) (throw fault) :=
  fun _ _ h => ⟨rfl, h⟩

theorem Relates.bind {r s : Run α} {f g : α → Run β} (h : Relates R r s)
    (hfg : ∀ a, Relates R (f a) (g a)) : Relates R (r >>= f) (s >>= g) := by
  intro m n hmn
  obtain ⟨hresult, hmachine⟩ := h m n hmn
  rw [bind_apply, bind_apply, hresult]
  cases (s n).1 with
  | error fault => exact ⟨rfl, hmachine⟩
  | ok a => exact hfg a _ _ hmachine

/-- A document that is a name is the same name on both sides, and one that is none stops both. -/
theorem relates_name_bind {f g : Scalar → Run α} (document : Json)
    (h : ∀ name, document = .scalar name → Relates R (f name) (g name)) :
    Relates R (name document >>= f) (name document >>= g) := by
  cases document with
  | scalar s =>
    show Relates R (pure s >>= f) (pure s >>= g)
    rw [pure_bind, pure_bind]
    exact h s rfl
  | array items => exact relates_throw _
  | object fields => exact relates_throw _

/-- Two changes are related if both are refused for the same reason, or both lead to related
machines. -/
theorem relates_change {c d : Forest → Except EvalError Forest}
    (h : ∀ m n, R m n →
      (∃ e, c m.forest = .error e ∧ d n.forest = .error e) ∨
        ∃ f g, c m.forest = .ok f ∧ d n.forest = .ok g ∧
          R { m with forest := f } { n with forest := g }) :
    Relates R (change c) (change d) := by
  intro m n hmn
  unfold change
  obtain ⟨e, hc, hd⟩ | ⟨f, g, hc, hd, hfg⟩ := h m n hmn
  · rw [hc, hd]
    exact ⟨rfl, hmn⟩
  · rw [hc, hd]
    exact ⟨rfl, hfg⟩

/-- The single steps of two evaluations, at their levels and in their scopes, keep a relation of
machines. Names are those that occur in what is evaluated. -/
structure StepsRelate (R : Machine → Machine → Prop) (level level' : Int) (scope scope' : Nat)
    (names : List Scalar) : Prop where
  report : ∀ event, Relates R (Run.report level event) (Run.report level' event)
  read : ∀ name ∈ names, Relates R (Run.read scope name) (Run.read scope' name)
  declare : ∀ name ∈ names, ∀ value isConst,
    Relates R (change (·.declare scope name value isConst))
      (change (·.declare scope' name value isConst))
  assign : ∀ name ∈ names, ∀ value,
    Relates R (change (·.assign scope name value)) (change (·.assign scope' name value))

namespace StepsRelate

variable {level level' : Int} {scope scope' : Nat} {names : List Scalar}

/-- What is computed does not depend on the machine. -/
theorem operate (h : StepsRelate R level level' scope scope' names) (op : Operator)
    (a b : Value) : Relates R (Run.operate level op a b) (Run.operate level' op a b) := by
  rw [operate_eq, operate_eq]
  cases Value.combine op.symbol a b with
  | error e => exact relates_throw _
  | ok result => exact (h.report _).bind fun _ => relates_pure result

/-- A declaration with its report. -/
theorem declares (h : StepsRelate R level level' scope scope' names) {name : Scalar}
    (hname : name ∈ names) (value : Value) (isConst : Bool) :
    Relates R (Run.declare level scope name value isConst)
      (Run.declare level' scope' name value isConst) :=
  (h.declare name hname value isConst).bind fun _ => (h.report _).bind fun _ => relates_pure value

/-- An assignment with its report. -/
theorem assigns (h : StepsRelate R level level' scope scope' names) {name : Scalar}
    (hname : name ∈ names) (value : Value) :
    Relates R (Run.assign level scope name value) (Run.assign level' scope' name value) :=
  (h.assign name hname value).bind fun _ => (h.report _).bind fun _ => relates_pure value

end StepsRelate

end Run

section Evaluation

variable {R : Machine → Machine → Prop} {level level' : Int} {scope scope' : Nat}
  {names : List Scalar}

/-- Two evaluations of one node are related if their single steps are. -/
theorem Node.relates_eval (hsteps : Run.StepsRelate R level level' scope scope' names)
    {node : Node} (hnames : node.names ⊆ names) :
    Run.Relates R (node.eval level scope) (node.eval level' scope') := by
  -- The levels and the scopes stay what they are, so that the induction is on the node alone.
  induction node using Node.eval_induction with
  | number x => exact Run.relates_pure _
  | null => exact Run.relates_pure _
  | identifier document =>
    rw [eval_identifier, eval_identifier]
    refine Run.relates_name_bind document fun name hname => hsteps.read name ?_
    subst hname
    exact hnames (by simp)
  | binary op left right ihl ihr =>
    rw [Node.names_binary, List.append_subset] at hnames
    rw [eval_binary, eval_binary]
    exact (ihl hnames.1).bind fun a => (ihr hnames.2).bind fun b => hsteps.operate op a b
  | declaration document isConst initializer ih =>
    have hinitializer :=
      List.Subset.trans (Node.names_initializer_subset initializer isConst document) hnames
    rw [eval_declaration, eval_declaration]
    refine (ih hinitializer).bind fun value => Run.relates_name_bind document fun name hname => ?_
    subst hname
    exact hsteps.declares (hnames (by simp)) value isConst
  | assignment document value ih =>
    rw [Node.names_assignment, List.append_subset] at hnames
    rw [eval_assignment, eval_assignment]
    refine (ih hnames.2).bind fun value => Run.relates_name_bind document fun name hname => ?_
    subst hname
    exact hsteps.assigns (hnames.1 (by simp)) value
  | invalidTarget target value h _ =>
    rw [eval_invalidTarget _ _ h, eval_invalidTarget _ _ h]
    exact Run.relates_throw _
  | program body => exact Run.relates_throw _

namespace Program

theorem relates_evalFrom (hsteps : Run.StepsRelate R level level' scope scope' names)
    {program : Program} (hnames : program.names ⊆ names) (index : Nat) (last : Value) :
    Run.Relates R (program.evalFrom level scope index last)
      (program.evalFrom level' scope' index last) := by
  induction program generalizing index last with
  | nil => exact Run.relates_pure last
  | cons statement rest ih =>
    rw [names_cons, List.append_subset] at hnames
    refine (Node.relates_eval hsteps hnames.1).bind fun value => ?_
    exact (hsteps.report _).bind fun _ => ih hnames.2 (index + 1) value

theorem relates_eval (hsteps : Run.StepsRelate R level level' scope scope' names)
    {program : Program} (hnames : program.names ⊆ names) :
    Run.Relates R (program.eval level scope) (program.eval level' scope') :=
  relates_evalFrom hsteps hnames 0 .null

end Program

end Evaluation

end LetCalc
