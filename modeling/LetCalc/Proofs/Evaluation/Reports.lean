import LetCalc.Proofs.Evaluation.History
import LetCalc.Proofs.Node.Shape
import LetCalc.Proofs.Scope.Lookup
import LetCalc.Proofs.Text.Loose
import LetCalc.Proofs.Text.SingleLine

/-!
# What reports and messages are made of

The reports of an evaluation, and the error it may stop with, hold nothing from outside but the
names of the program and the texts of values. They are single lines if the names are, and they can
be written to a file if the names are whole texts. Both is so for programs that were parsed.

* `Event.name?`, `Program.mem_names_of_mem_trace`: the names in reports are names of the program.
* `Event.isLine_text`, `Fault.Arises.isLine_message`: reports and messages are lines.
* `Event.encodeFailure?_eq_none`: reports have bytes.
* `Program.IsWritten.isLine_of_evaluate`, `Program.IsWritten.encodeFailure?_of_evaluate`: so for the
  shape of programs that were parsed.
-/

namespace LetCalc

open Text

theorem Node.IsName.isLine {name : String} (h : IsName name) : IsLine name :=
  Terminal.lineFeed_not_mem h.mem

theorem Operator.isLine_symbol (op : Operator) : IsLine op.symbol := by
  cases op <;> simp [IsLine, symbol]

theorem Value.isLine_typeName (value : Value) : IsLine value.typeName := by
  cases value <;> simp [IsLine, typeName]

theorem Node.isLine_typeName (node : Node) : IsLine node.typeName := by
  cases node <;> simp [IsLine, typeName]

variable {level : Int} {scope : Nat} {parts : List Node} {f g : Forest} {program : Program}
  {forest : Forest}

/-! ## Names -/

/-- The name in a report. -/
def Event.name? : Event → Option Scalar
  | .declared _ name _ => some name
  | .assigned name _ => some name
  | _ => none

/-- The name in a report is that of a part of the program. -/
theorem Event.Happens.exists_part {e : Event} {name : Scalar} (h : e.Happens scope parts f g)
    (hname : e.name? = some name) : ∃ part ∈ parts, part.document? = some (.scalar name) := by
  cases h with
  | declared hpart _ =>
    obtain rfl := Option.some.inj hname
    exact ⟨_, hpart, rfl⟩
  | assigned hpart _ =>
    obtain rfl := Option.some.inj hname
    exact ⟨_, hpart, rfl⟩
  | _ => cases hname

/-- Each of the events that take place one after the other takes place. -/
theorem Forest.History.exists_happens {events : List Event} {e : Event}
    (h : History scope parts events f g) (he : e ∈ events) :
    ∃ f g, e.Happens scope parts f g := by
  induction h with
  | nil _ => cases he
  | cons hfirst _ ih =>
    rcases List.mem_cons.1 he with rfl | he
    · exact ⟨_, _, hfirst⟩
    · exact ih he

/-- The names in the reports of an evaluation are names of the program. -/
theorem Program.mem_names_of_mem_trace {e : Event} {name : Scalar}
    (he : e ∈ (program.evaluate level scope forest).trace) (hname : e.name? = some name) :
    name ∈ program.names := by
  obtain ⟨events, hevents⟩ := program.performs_evaluate level scope forest
  have htrace : (program.evaluate level scope forest).trace =
      events.filter (·.level ≤ level) := hevents.trace_eq
  rw [htrace] at he
  obtain ⟨f, g, hhappens⟩ := hevents.history.exists_happens (List.mem_of_mem_filter he)
  obtain ⟨part, hpart, hdocument⟩ := hhappens.exists_part hname
  exact Program.mem_names_of_reached hpart hdocument

/-! ## Lines -/

/-- A report is a line if the name in it is. -/
theorem Event.isLine_text {e : Event} (h : ∀ name, e.name? = some name → IsLine name.display) :
    IsLine e.text := by
  have hparts : ∀ part ∈ e.parts, IsLine part.shown := by
    cases e with
    | statement index value => simp [parts, IsLine]
    | declared isConst name value =>
      have hname : IsLine name.spelling.shown := h name rfl
      cases isConst <;> simpa [parts, IsLine, value.isLine_typeName] using hname
    | assigned name value =>
      have hname : IsLine name.spelling.shown := h name rfl
      simpa [parts, IsLine] using hname
    | computed left op right result => simp [parts, IsLine, op.isLine_symbol]
  simpa [IsLine, text] using hparts

theorem Value.isLine_of_combine {op : Operator} {a b : Value} {e : EvalError}
    (h : Value.combine op.symbol a b = .error e) : IsLine e.message := by
  unfold Value.combine at h
  split at h
  · cases h
  · cases h
  · simp at h
  · obtain rfl := Except.error.inj h
    unfold EvalError.message
    simp [IsLine, op.isLine_symbol, Value.isLine_typeName]

/-- The message of a mistake is a line if the names in the program are. -/
theorem Fault.Arises.isLine_message {e : EvalError} (h : Fault.Arises scope parts f (.error e))
    (hnames : ∀ part ∈ parts, ∀ name, part.document? = some (.scalar name) →
      IsLine name.display) : IsLine e.message := by
  cases h with
  | declared hpart hdeclare =>
    have hname := hnames _ hpart _ rfl
    obtain ⟨-, rfl⟩ := Forest.declare_eq_error_iff.1 hdeclare
    unfold EvalError.message
    simp [IsLine, hname]
  | assigned hpart hassign =>
    have hname := hnames _ hpart _ rfl
    unfold EvalError.message
    rcases Forest.assign_eq_error_iff.1 hassign with ⟨-, rfl⟩ | ⟨-, rfl⟩
    · simp [IsLine, hname]
    · simp [IsLine, hname]
  | computed _ hcombine => exact Value.isLine_of_combine hcombine
  | @invalidTarget target _ _ _ =>
    unfold EvalError.message
    simp [IsLine, target.isLine_typeName]

/-! ## Bytes -/

/-- A report can be written to a file if the name in it is a whole text. -/
theorem Event.encodeFailure?_eq_none {e : Event}
    (h : ∀ name, e.name? = some name → name.spelling.IsWhole) : e.encodeFailure? = none := by
  rw [encodeFailure?_eq_none_iff]
  cases e with
  | statement index value => simp [parts]
  | declared isConst name value => simpa [parts] using h name rfl
  | assigned name value => simpa [parts] using h name rfl
  | computed left op right result => simp [parts]

/-! ## Programs that were parsed -/

namespace Program

/-- What is reported of a program that was parsed is lines. -/
theorem IsWritten.isLine_of_evaluate (h : program.IsWritten) (level : Int) (scope : Nat)
    (forest : Forest) :
    (∀ event ∈ (program.evaluate level scope forest).trace, IsLine event.text) ∧
      ∀ e, (program.evaluate level scope forest).result = .error (.error e) →
        IsLine e.message := by
  have hnames : ∀ name ∈ program.names, IsLine name.display := by
    intro name hname
    obtain ⟨text, rfl, htext⟩ := h.exists_isName name hname
    exact htext.isLine
  refine ⟨fun event hevent => ?_, fun e he => ?_⟩
  · exact Event.isLine_text fun name hname => hnames name (mem_names_of_mem_trace hevent hname)
  · obtain ⟨events, hevents⟩ := program.performs_evaluate level scope forest
    refine (hevents.arises _ he).isLine_message fun part hpart name hname => ?_
    exact hnames name (mem_names_of_reached hpart hname)

/-- Whatever is reported of a program that was parsed can be written to a file. -/
theorem IsWritten.encodeFailure?_of_evaluate (h : program.IsWritten) {event : Event}
    (hevent : event ∈ (program.evaluate level scope forest).trace) :
    event.encodeFailure? = none := by
  refine Event.encodeFailure?_eq_none fun name hname => ?_
  obtain ⟨text, rfl, -⟩ := h.exists_isName name (mem_names_of_mem_trace hevent hname)
  exact ⟨text, rfl⟩

end Program

end LetCalc
