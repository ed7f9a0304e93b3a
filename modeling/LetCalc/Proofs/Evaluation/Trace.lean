import LetCalc.Proofs.Evaluation.Effect
import LetCalc.Proofs.Evaluation.History

/-!
# Levels of reports

The level of reports decides which events are shown and nothing else. There is one full trace, that
of level 3, and the trace of any level is what remains of it when the kinds of events that are not
enabled at that level are left out. This holds for evaluations that stop with a fault as well: their
trace is that of what they did before. The full trace leaves nothing out: it has the events that the
script of the program asks for, up to the place where the evaluation stops, and they make all the
changes to the scopes.

* `Event.isEnabled`: the kinds of events that are shown at a level.
* `Run.stepsRelate_filter`: a step at any level keeps the traces related as above.
* `Program.trace_evaluate_three`: which events the full trace has, and what they do.
* `evaluate_at_levels`: whole evaluations at any two levels.
-/

namespace LetCalc

namespace Event

/-- Statements are shown from level 1 on, declarations and assignments from level 2 on, operations
from level 3 on. -/
def isEnabled (level : Int) : Event → Bool
  | .statement .. => 1 ≤ level
  | .declared .. => 2 ≤ level
  | .assigned .. => 2 ≤ level
  | .computed .. => 3 ≤ level

theorem isEnabled_eq (level : Int) (event : Event) :
    event.isEnabled level = decide (event.level ≤ level) := by
  cases event <;> rfl

theorem isEnabled_three (event : Event) : event.isEnabled 3 = true := by
  cases event <;> rfl

end Event

namespace Run

/-- A trace has the enabled events of another one, in order. -/
def Shows (level : Int) (shown full : Array Event) : Prop :=
  shown.toList = full.toList.filter (Event.isEnabled level)

theorem trace_report (level : Int) (event : Event) (m : Machine) :
    (report level event m).2.trace.toList =
      m.trace.toList ++ [event].filter (Event.isEnabled level) := by
  unfold report
  by_cases h : event.level ≤ level
  · simp [h, Event.isEnabled_eq]
  · simp [h, Event.isEnabled_eq]

/-- At level 3 every event is added to the trace, and at another level it is if it is enabled
there. -/
theorem stepsRelate_filter (level : Int) (scope : Nat) (names : List Scalar) :
    StepsRelate (SameForest (Shows level)) level 3 scope scope names := by
  refine stepsRelate_of_report (fun event m n hmn => ?_) scope names
  obtain ⟨hforest, hshows⟩ := hmn
  refine ⟨rfl, ?_, ?_⟩
  · rw [forest_report, forest_report, hforest]
  · calc (report level event m).2.trace.toList
      _ = m.trace.toList ++ [event].filter (Event.isEnabled level) := trace_report ..
      _ = (n.trace.toList ++ [event]).filter (Event.isEnabled level) := by
        rw [List.filter_append, hshows]
      _ = (report 3 event n).2.trace.toList.filter (Event.isEnabled level) := by
        rw [trace_report, List.filter_cons_of_pos event.isEnabled_three, List.filter_nil]

end Run

/-- At level 0 nothing is reported. -/
theorem Program.trace_evaluate_zero (scope : Nat) (program : Program) (forest : Forest) :
    (program.evaluate 0 scope forest).trace = [] := by
  have hstart : Run.SameForest (Run.Shows 0) ⟨forest, #[]⟩ ⟨forest, #[]⟩ := ⟨rfl, rfl⟩
  obtain ⟨-, -, hshows⟩ := Program.relates_eval (Run.stepsRelate_filter 0 scope program.names)
    (List.Subset.refl _) _ _ hstart
  refine hshows.trans (List.filter_eq_nil_iff.2 fun event _ => ?_)
  cases event <;> exact Bool.false_ne_true

/-- At level 3 everything is reported: the events take place one after the other and lead from the
first forest to the last one, and they follow the script of the program, to its end if there is a
value. -/
theorem Program.trace_evaluate_three (scope : Nat) (program : Program) (forest : Forest) :
    Forest.History scope program.reached (program.evaluate 3 scope forest).trace forest
        (program.evaluate 3 scope forest).forest ∧
      (program.evaluate 3 scope forest).trace.map Event.kind <+: program.script ∧
      ∀ value, (program.evaluate 3 scope forest).result = .ok value →
        (program.evaluate 3 scope forest).trace.map Event.kind = program.script := by
  obtain ⟨events, hevents⟩ := program.performs_evaluate 3 scope forest
  have htrace : (program.evaluate 3 scope forest).trace = events := by
    refine hevents.trace_eq.trans (List.filter_eq_self.2 fun event _ => ?_)
    cases event <;> rfl
  rw [htrace]
  exact ⟨hevents.history, hevents.follows, hevents.completes⟩

/-- At any two levels, an evaluation ends with the same value or fault and leaves the same scopes.
The trace of a level has exactly the events of the trace of level 3 that are enabled there, in
order. -/
theorem evaluate_at_levels (level level' : Int) (scope : Nat) (program : Program)
    (forest : Forest) :
    (program.evaluate level scope forest).result = (program.evaluate level' scope forest).result ∧
      (program.evaluate level scope forest).forest =
        (program.evaluate level' scope forest).forest ∧
      (program.evaluate level scope forest).trace =
        (program.evaluate 3 scope forest).trace.filter (Event.isEnabled level) := by
  have hstart : Run.SameForest (Run.Shows level) ⟨forest, #[]⟩ ⟨forest, #[]⟩ := ⟨rfl, rfl⟩
  have hsteps := Run.stepsRelate_filter level scope program.names
  obtain ⟨-, -, htrace⟩ :=
    Program.relates_eval hsteps (List.Subset.refl _) _ _ hstart
  obtain ⟨hresult, hforest⟩ :=
    Program.sameEffect_evalFrom level level' scope 0 0 .null program ⟨forest, #[]⟩ ⟨forest, #[]⟩ rfl
  exact ⟨hresult, hforest, htrace⟩

/-- A program that stops in its second statement, after an operation whose result is not assigned.
The events before that are reported at level 3, and at level 1 one of them is left. -/
theorem evaluate_at_levels_midway :
    let program : Program :=
      [.declaration (.text "a") true (.binary .add (.identifier (.text "x")) .null),
        .assignment (.identifier (.text "a")) (.binary .mul .null (.identifier (.text "a")))]
    (program.evaluate 3 0 .single).result = .error (.error (.constantAssigned (.text "a"))) ∧
      (program.evaluate 3 0 .single).trace =
        [.computed .null .add .null .null, .declared true (.text "a") .null, .statement 0 .null,
          .computed .null .mul .null .null] ∧
      (program.evaluate 1 0 .single).result = (program.evaluate 3 0 .single).result ∧
      (program.evaluate 1 0 .single).trace = [.statement 0 .null] := by
  intro program
  have htrace : (program.evaluate 3 0 .single).trace =
      [.computed .null .add .null .null, .declared true (.text "a") .null, .statement 0 .null,
        .computed .null .mul .null .null] := by decide +kernel
  obtain ⟨hresult, -, hshown⟩ := evaluate_at_levels 1 3 0 program .single
  refine ⟨rfl, htrace, hresult, ?_⟩
  rw [hshown, htrace]
  rfl

end LetCalc
