import LetCalc.Proofs.Evaluation.Relation

/-!
# What an evaluation does to the scopes

Events are reported and never looked at. Two computations have the same effect if they end in the
same way and leave the same scopes, whatever has been reported before them and whatever they report
(`Run.SameEffect`). The effect of statements does not depend on the level of reports or on the
indices of the statements, and the effect of statements in two parts is that of the first part and
then the second.

* `Run.stepsRelate_of_report`: where the scopes are the same, only reports have to be compared.
* `Program.sameEffect_evalFrom`: what the effect of statements does not depend on.
* `Program.evalFrom_append`: statements in two parts.
-/

namespace LetCalc

namespace Run

variable {α : Type}

/-- From the same scopes, two computations end in the same way and leave the same scopes. -/
def SameEffect (r s : Run α) : Prop :=
  ∀ m n : Machine, m.forest = n.forest → (r m).1 = (s n).1 ∧ (r m).2.forest = (s n).2.forest

/-- The same scopes, and traces that are related. -/
def SameForest (T : Array Event → Array Event → Prop) (m n : Machine) : Prop :=
  m.forest = n.forest ∧ T m.trace n.trace

theorem sameEffect_iff {r s : Run α} :
    SameEffect r s ↔ Relates (SameForest fun _ _ => True) r s := by
  simp [SameEffect, Relates, SameForest]

theorem forest_report (level : Int) (event : Event) (m : Machine) :
    (report level event m).2.forest = m.forest := by
  unfold report
  split <;> rfl

/-- In the same scope of the same forest, evaluations can differ in what they report only. -/
theorem stepsRelate_of_report {T : Array Event → Array Event → Prop} {level level' : Int}
    (hreport : ∀ event, Relates (SameForest T) (report level event) (report level' event))
    (scope : Nat) (names : List Scalar) :
    StepsRelate (SameForest T) level level' scope scope names := by
  have hchange : ∀ c : Forest → Except EvalError Forest,
      Relates (SameForest T) (change c) (change c) := by
    intro c
    refine relates_change fun m n hmn => ?_
    rw [hmn.1]
    cases c n.forest with
    | error e => exact .inl ⟨e, rfl, rfl⟩
    | ok f => exact .inr ⟨f, f, rfl, rfl, rfl, hmn.2⟩
  refine ⟨hreport, fun name _ m n hmn => ?_, fun _ _ _ _ => hchange _, fun _ _ _ => hchange _⟩
  exact ⟨by rw [read, read, hmn.1], hmn⟩

theorem sameEffect_report (level level' : Int) (event event' : Event) :
    SameEffect (report level event) (report level' event') := by
  intro m n h
  rw [forest_report, forest_report]
  exact ⟨rfl, h⟩

end Run

/-- The effect of a node does not depend on the level of reports. -/
theorem Node.sameEffect_eval (level level' : Int) (scope : Nat) (node : Node) :
    Run.SameEffect (node.eval level scope) (node.eval level' scope) := by
  have hreport := fun event =>
    Run.sameEffect_iff.1 (Run.sameEffect_report level level' event event)
  rw [Run.sameEffect_iff]
  exact Node.relates_eval (Run.stepsRelate_of_report hreport scope _) (List.Subset.refl _)

namespace Program

/-- The effect of statements does not depend on the level of reports, or on their indices. -/
theorem sameEffect_evalFrom (level level' : Int) (scope index index' : Nat) (last : Value)
    (program : Program) :
    Run.SameEffect (program.evalFrom level scope index last)
      (program.evalFrom level' scope index' last) := by
  simp only [Run.sameEffect_iff]
  induction program generalizing index index' last with
  | nil => exact Run.relates_pure last
  | cons statement rest ih =>
    have hstatement := Run.sameEffect_iff.1 (statement.sameEffect_eval level level' scope)
    refine hstatement.bind fun value => ?_
    have hreport := Run.sameEffect_iff.1
      (Run.sameEffect_report level level' (.statement index value) (.statement index' value))
    exact hreport.bind fun _ => ih (index + 1) (index' + 1) value

/-- The value before the first statement is forgotten. -/
theorem evalFrom_eq_of_ne_nil {program : Program} (h : program ≠ []) (level : Int)
    (scope index : Nat) (last last' : Value) :
    program.evalFrom level scope index last = program.evalFrom level scope index last' := by
  cases program with
  | nil => exact absurd rfl h
  | cons statement rest => rfl

/-- The effect of statements that follow others is that of a program, except that without any
statements the value is the one before them. -/
theorem evalFrom_effect (level : Int) (scope index : Nat) (last : Value) (program : Program)
    (m : Machine) :
    (program.evalFrom level scope index last m).1 =
        (program.evaluate level scope m.forest).result.map
          (fun value => if program = [] then last else value) ∧
      (program.evalFrom level scope index last m).2.forest =
        (program.evaluate level scope m.forest).forest := by
  cases program with
  | nil => exact ⟨rfl, rfl⟩
  | cons statement rest =>
    -- The first statement replaces the value before it.
    have hne : statement :: rest ≠ [] := List.cons_ne_nil statement rest
    rw [evalFrom_eq_of_ne_nil hne level scope index last .null]
    obtain ⟨hresult, hforest⟩ :=
      sameEffect_evalFrom level level scope index 0 .null (statement :: rest) m ⟨m.forest, #[]⟩ rfl
    refine ⟨?_, hforest⟩
    simp only [if_neg hne]
    rw [hresult]
    exact (congrFun Except.map_id _).symm

/-- Statements in two parts. -/
theorem evalFrom_append (level : Int) (scope index : Nat) (last : Value) (p q : Program) :
    (p ++ q).evalFrom level scope index last =
      p.evalFrom level scope index last >>= fun value =>
        q.evalFrom level scope (index + p.length) value := by
  induction p generalizing index last with
  | nil => rfl
  | cons statement rest ih =>
    rw [List.cons_append, evalFrom, evalFrom]
    simp only [ih, bind_assoc, List.length_cons, Nat.add_assoc, Nat.add_comm 1]

end Program

end LetCalc
