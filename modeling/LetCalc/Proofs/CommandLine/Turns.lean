import LetCalc.Proofs.CommandLine.Calls
import LetCalc.Proofs.CommandLine.Disk
import LetCalc.Proofs.Evaluation.Faults
import LetCalc.Proofs.Evaluation.Reports

/-!
# What an evaluation shows

A `Turn` is what there is to show of one source text or one program: its value, or why it has none,
and the events reported on the way. Showing it changes the console in one way only
(`Console.after`), which depends on where reports go (`Sink`). A debug file cannot take every turn:
a name with half of a surrogate pair, which only documents have, cannot be written to it
(`Turn.blocked?`).

* `Command.evaluateOnce_apply`, `Command.evaluateSource_apply`: a call for one program shows its
  turn and ends as the turn says.
* `Command.evaluateOnce_of_blocked`: a call with a debug file crashes if the turn is blocked.
* `Command.line_apply`: a line that is neither blank nor asks to stop shows its turn, never ends the
  command, and leaves the scopes as `Program.run` does.
-/

namespace LetCalc.CommandLine

/-- What there is to show of a source text or a program. -/
structure Turn where
  /-- The value, or why there is none. -/
  result : Except Failure Value
  /-- The events reported, in order. -/
  trace : List Event

namespace Turn

/-- The turn of an evaluation. -/
def ofOutcome (outcome : Outcome) : Turn := ⟨outcome.result.mapError .fault, outcome.trace⟩

/-- The turn of a source text, run in scope 0. -/
def ofSource (level : Int) (source : String) (forest : Forest) : Turn :=
  let (result, _, trace) := Program.run level 0 source forest
  ⟨result, trace⟩

/-- Whether there was a program to evaluate. -/
def isEvaluated (t : Turn) : Bool :=
  match t.result with
  | .error (.parse _) => false
  | _ => true

/-- The value, for standard output. -/
def printed (t : Turn) : String :=
  match t.result with
  | .ok value => value.text ++ "\n"
  | .error _ => ""

/-- The mistake, for standard error. -/
def message (t : Turn) : String :=
  match t.result with
  | .error (.parse e) => s!"Parse error: {e.span.locate e.message}" ++ "\n"
  | .error (.fault (.error e)) => s!"Runtime error: {e.message}" ++ "\n"
  | _ => ""

/-- The reports, a line for each. -/
def debug (t : Turn) : String := Command.log t.trace

/-- Why a file cannot take all reports. -/
def blocked? (t : Turn) : Option Text.Utf8.EncodeFailure := t.trace.findSome? Event.encodeFailure?

/-- The reports before the first one that a file cannot take. -/
def taken (t : Turn) : List Event := t.trace.takeWhile (·.encodeFailure?.isNone)

/-- How a call for this turn alone ends. -/
def ending (t : Turn) : Except Ending Unit :=
  match t.result with
  | .ok _ => .ok ()
  | .error (.parse _) | .error (.fault (.error _)) => .error (.exit 1)
  | .error (.fault fault) => .error (.crash (.fault fault))

variable {level : Int} {source : String} {forest : Forest}

theorem ofSource_of_parse {program : Program} (h : Program.parse source = .ok program) :
    ofSource level source forest = ofOutcome (program.evaluate level 0 forest) := by
  rw [ofSource, Program.run, h]
  rfl

theorem ofSource_of_error {e : ParseError} (h : Program.parse source = .error e) :
    ofSource level source forest = ⟨.error (.parse e), []⟩ := by
  rw [ofSource, Program.run, h]

theorem trace_ofOutcome (outcome : Outcome) : (ofOutcome outcome).trace = outcome.trace := rfl

theorem isEvaluated_ofOutcome (outcome : Outcome) : (ofOutcome outcome).isEvaluated = true := by
  obtain ⟨result, forest, trace⟩ := outcome
  cases result <;> rfl

/-- A text that is no program has no reports. -/
theorem trace_ofSource (h : (ofSource level source forest).isEvaluated = false) :
    (ofSource level source forest).trace = [] := by
  cases hparse : Program.parse source with
  | ok program =>
    rw [ofSource_of_parse hparse, isEvaluated_ofOutcome] at h
    cases h
  | error e => rw [ofSource_of_error hparse]

/-- Every report is a line. -/
theorem debug_eq_empty_iff {t : Turn} : t.debug = "" ↔ t.trace = [] := by
  rw [debug, Command.log]
  cases t.trace with
  | nil => exact ⟨fun _ => rfl, fun _ => rfl⟩
  | cons event rest =>
    rw [List.map_cons, String.join_cons, String.append_eq_empty_iff, String.append_eq_empty_iff]
    exact ⟨fun h => absurd h.1.2 (by decide), nofun⟩

theorem blocked?_eq_none_iff {t : Turn} :
    t.blocked? = none ↔ ∀ e ∈ t.trace, e.encodeFailure? = none :=
  List.findSome?_eq_none_iff

/-- A file takes all reports of a turn that is not blocked. -/
theorem taken_eq_trace {t : Turn} (h : t.blocked? = none) : t.taken = t.trace := by
  refine List.takeWhile_eq_self_iff.2 fun e he => ?_
  rw [blocked?_eq_none_iff.1 h e he]
  rfl

/-- The turn of a source text is not blocked. -/
theorem blocked?_ofSource (level : Int) (source : String) (forest : Forest) :
    (ofSource level source forest).blocked? = none := by
  rw [blocked?_eq_none_iff]
  cases hparse : Program.parse source with
  | error e =>
    rw [ofSource_of_error hparse]
    exact List.forall_mem_nil _
  | ok program =>
    rw [ofSource_of_parse hparse]
    exact fun e he => (Program.isWritten_of_parse hparse).encodeFailure?_of_evaluate he

/-- If the turn of a program is blocked, one of its names is torn. -/
theorem exists_torn_of_blocked? {program : Program}
    (h : (ofOutcome (program.evaluate level 0 forest)).blocked? ≠ none) :
    ∃ name ∈ program.names, ¬ name.spelling.IsWhole := by
  -- Every event of a program whose names are whole can be encoded.
  by_contra hwhole
  push Not at hwhole
  refine h (blocked?_eq_none_iff.2 fun e he => ?_)
  exact Event.encodeFailure?_eq_none fun name hname =>
    hwhole name (Program.mem_names_of_mem_trace he hname)

end Turn

/-! ## Where reports go -/

/-- Where the reports of evaluations go. -/
inductive Sink where
  /-- To standard error. -/
  | errors
  /-- To the file at a full path. -/
  | file (path : List String)

namespace Sink

/-- What a turn adds to standard error. -/
def told : Sink → Turn → String
  | errors, t => t.debug ++ t.message
  | file _, t => t.message

/-- The disk after a turn. Each evaluation writes the file anew. -/
def store : Sink → Disk → Turn → Disk
  | errors, disk, _ => disk
  | file path, disk, t =>
    if t.isEvaluated then disk.put path (Text.Utf8.encode t.debug) else disk

/-- The options send reports here, and it can be written to. -/
inductive Serves (options : Options) (disk : Disk) : Sink → Prop
  | errors : (0 < options.verbosity → options.debugFile = .absent) → Serves options disk .errors
  | file {name : String} {path : List String} : 0 < options.verbosity →
      options.debugFile = .text name → disk.target name = .ok path →
      Serves options disk (.file path)

/-- The reports of a turn can be written there. -/
def Takes : Sink → Turn → Prop
  | errors, _ => True
  | file _, t => t.blocked? = none

variable {options : Options} {disk : Disk} {sink : Sink}

theorem takes_of_blocked? {t : Turn} (h : t.blocked? = none) (sink : Sink) : sink.Takes t := by
  cases sink with
  | errors => trivial
  | file path => exact h

/-- A file that can be written to stays so. -/
theorem Serves.store (h : sink.Serves options disk) (t : Turn) :
    sink.Serves options (sink.store disk t) := by
  cases h with
  | errors hsilent => exact .errors hsilent
  | file hverbose hname htarget =>
    refine .file hverbose hname ?_
    rw [Sink.store]
    by_cases hevaluated : t.isEvaluated = true
    · rw [if_pos hevaluated]
      exact Disk.target_put htarget _
    · rw [if_neg hevaluated]
      exact htarget

end Sink

/-- The console after a turn was shown on it. -/
def Console.after (c : Console) (sink : Sink) (t : Turn) : Console :=
  ⟨c.output ++ t.printed, c.errors ++ sink.told t, sink.store c.disk t⟩

namespace Command

open Shell

variable {options : Options} {sink : Sink} {c : Console}

/-! ## Reports -/

theorem complain_apply (line : String) (c : Console) :
    complain line c = (.ok (), { c with errors := c.errors ++ (line ++ "\n") }) := by
  rw [← String.append_assoc]
  rfl

/-- Standard error gets all reports, one after the other. -/
theorem report_absent (trace : List Event) (c : Console) :
    report .absent trace c = (.ok (), { c with errors := c.errors ++ log trace }) := by
  induction trace generalizing c with
  | nil =>
    rw [log, List.map_nil, String.join_nil, String.append_empty]
    rfl
  | cons event rest ih =>
    have hforM : report .absent (event :: rest) =
        (do complain event.text; report .absent rest) := rfl
    rw [hforM, bind_of_ok (complain_apply _ c), ih, log, log, List.map_cons, String.join_cons,
      String.append_assoc]

theorem writeText_apply {name : String} {path : List String} (h : c.disk.target name = .ok path)
    (text : String) :
    writeText name text c =
      (.ok (), { c with disk := c.disk.put path (Text.Utf8.encode text) }) := by
  change (orCrash .file (c.disk.write name _) >>= _) c = _
  rw [Disk.write, h]
  rfl

/-- A file gets all reports of a turn that is not blocked. -/
theorem report_text {name : String} {path : List String} (h : c.disk.target name = .ok path)
    {t : Turn} (hblocked : t.blocked? = none) :
    report (.text name) t.trace c =
      (.ok (), { c with disk := c.disk.put path (Text.Utf8.encode t.debug) }) := by
  have htaken : t.trace.takeWhile (·.encodeFailure?.isNone) = t.trace :=
    Turn.taken_eq_trace hblocked
  rw [Turn.blocked?] at hblocked
  rw [report, bind_of_ok (writeText_apply h _), hblocked, htaken]
  rfl

/-- A file gets the reports up to the first one that it cannot take. -/
theorem report_of_blocked {name : String} {path : List String}
    (h : c.disk.target name = .ok path) {t : Turn} {failure : Text.Utf8.EncodeFailure}
    (hblocked : t.blocked? = some failure) :
    report (.text name) t.trace c =
      (.error (.crash (.line failure)),
        { c with disk := c.disk.put path (Text.Utf8.encode (log t.taken)) }) := by
  rw [Turn.blocked?] at hblocked
  rw [report, bind_of_ok (writeText_apply h _), hblocked]
  rfl

/-- A file that can be written to is emptied. -/
theorem report_nil {name : String} {path : List String} (h : c.disk.target name = .ok path) :
    report (.text name) [] c =
      (.ok (), { c with disk := c.disk.put path (Text.Utf8.encode "") }) :=
  report_text h (t := ⟨.ok .null, []⟩) rfl

/-! ## Evaluations -/

/-- What the evaluation of a program gives back to the call. -/
def ended (outcome : Outcome) : Except Ending (Bool × Forest) :=
  match outcome.result with
  | .ok _ => .ok (true, outcome.forest)
  | .error (.error _) => .ok (false, outcome.forest)
  | .error fault => .error (.crash (.fault fault))

/-- What an evaluation does after its reports. -/
def conclude (outcome : Outcome) : Shell (Bool × Forest) :=
  match outcome.result with
  | .ok value => do
    print (value.text ++ "\n")
    return (true, outcome.forest)
  | .error (.error e) => do
    complain s!"Runtime error: {e.message}"
    return (false, outcome.forest)
  | .error fault => throw (.crash (.fault fault))

theorem evaluate_eq (options : Options) (program : Program) (forest : Forest) :
    evaluate options program forest = (do
      let debugFile := if 0 < options.verbosity then options.debugFile else .absent
      report debugFile []
      report debugFile (program.evaluate options.verbosity 0 forest).trace
      conclude (program.evaluate options.verbosity 0 forest)) := rfl

/-- The value is printed, or the mistake is complained of. -/
theorem conclude_apply (outcome : Outcome) (c : Console) :
    conclude outcome c =
      (ended outcome, { c with
        output := c.output ++ (Turn.ofOutcome outcome).printed
        errors := c.errors ++ (Turn.ofOutcome outcome).message }) := by
  obtain ⟨result, forest, trace⟩ := outcome
  simp only [conclude, ended, Turn.ofOutcome, Turn.printed, Turn.message]
  cases result with
  | ok value =>
    simp only [Except.mapError, String.append_empty]
    rfl
  | error fault =>
    cases fault with
    | error e =>
      simp only [Except.mapError, String.append_empty]
      exact bind_of_ok (complain_apply _ c) _
    | nestedProgram =>
      simp only [Except.mapError, String.append_empty]
      rfl
    | compoundName name =>
      simp only [Except.mapError, String.append_empty]
      rfl

/-- An evaluation shows its turn. -/
theorem evaluate_apply (h : sink.Serves options c.disk) (program : Program) (forest : Forest)
    (htakes : sink.Takes (.ofOutcome (program.evaluate options.verbosity 0 forest))) :
    evaluate options program forest c =
      (ended (program.evaluate options.verbosity 0 forest),
        c.after sink (.ofOutcome (program.evaluate options.verbosity 0 forest))) := by
  rw [evaluate_eq]
  cases h with
  | errors hsilent =>
    have hsink : (if 0 < options.verbosity then options.debugFile else .absent) = .absent := by
      by_cases hverbose : 0 < options.verbosity
      · rw [if_pos hverbose, hsilent hverbose]
      · rw [if_neg hverbose]
    simp only [hsink]
    rw [bind_of_ok (report_absent [] c), bind_of_ok (report_absent _ _), conclude_apply]
    simp only [Console.after, Sink.told, Sink.store, Turn.debug, Turn.ofOutcome, log,
      List.map_nil, String.join_nil, String.append_empty, String.append_assoc]
  | @file name path hverbose hname htarget =>
    simp only [if_pos hverbose, hname]
    -- The file is emptied first, and is written again once the reports are there.
    have hreport := report_text (c := { c with disk := c.disk.put path (Text.Utf8.encode "") })
      (Disk.target_put htarget _) htakes
    rw [Turn.trace_ofOutcome] at hreport
    rw [bind_of_ok (report_nil htarget), bind_of_ok hreport, conclude_apply]
    simp only [Console.after, Sink.told, Sink.store, Turn.isEvaluated_ofOutcome, if_true,
      Disk.put_put]

/-- An evaluation whose reports a file cannot take crashes, and shows nothing. -/
theorem evaluate_of_blocked {path : List String} {failure : Text.Utf8.EncodeFailure}
    (h : (Sink.file path).Serves options c.disk) (program : Program) (forest : Forest)
    (hblocked : (Turn.ofOutcome (program.evaluate options.verbosity 0 forest)).blocked? =
      some failure) :
    evaluate options program forest c =
      (.error (.crash (.line failure)), { c with
        disk := c.disk.put path (Text.Utf8.encode
          (log (Turn.ofOutcome (program.evaluate options.verbosity 0 forest)).taken)) }) := by
  rw [evaluate_eq]
  cases h with
  | @file name path hverbose hname htarget =>
    simp only [if_pos hverbose, hname]
    have hreport := report_of_blocked
      (c := { c with disk := c.disk.put path (Text.Utf8.encode "") })
      (Disk.target_put htarget _) hblocked
    rw [Turn.trace_ofOutcome] at hreport
    rw [bind_of_ok (report_nil htarget), bind_of_error hreport]
    simp only [Disk.put_put]

theorem evaluateOnce_apply (h : sink.Serves options c.disk) (program : Program)
    (htakes : sink.Takes (.ofOutcome (program.evaluate options.verbosity 0 .single))) :
    evaluateOnce options program c =
      ((Turn.ofOutcome (program.evaluate options.verbosity 0 .single)).ending,
        c.after sink (.ofOutcome (program.evaluate options.verbosity 0 .single))) := by
  rw [evaluateOnce]
  have heval := evaluate_apply h program .single htakes
  generalize c.after sink _ = c' at heval ⊢
  generalize program.evaluate options.verbosity 0 .single = outcome at heval ⊢
  obtain ⟨result, forest, trace⟩ := outcome
  -- A mistake ends the call with its status, and any other fault has ended it already.
  cases result with
  | ok value =>
    rw [bind_of_ok heval]
    rfl
  | error fault =>
    cases fault with
    | error e =>
      rw [bind_of_ok heval]
      rfl
    | nestedProgram =>
      rw [bind_of_error heval]
      rfl
    | compoundName name =>
      rw [bind_of_error heval]
      rfl

theorem evaluateOnce_of_blocked {path : List String} {failure : Text.Utf8.EncodeFailure}
    (h : (Sink.file path).Serves options c.disk) (program : Program)
    (hblocked : (Turn.ofOutcome (program.evaluate options.verbosity 0 .single)).blocked? =
      some failure) :
    evaluateOnce options program c =
      (.error (.crash (.line failure)), { c with
        disk := c.disk.put path (Text.Utf8.encode
          (log (Turn.ofOutcome (program.evaluate options.verbosity 0 .single)).taken)) }) := by
  rw [evaluateOnce, bind_of_error (evaluate_of_blocked h program .single hblocked)]

/-- A text that is no program is shown by its message alone. -/
theorem parse_of_error_apply {source : String} {e : ParseError}
    (h : Program.parse source = .error e) (c : Console) (sink : Sink) :
    parse source c = (.ok none, c.after sink ⟨.error (.parse e), []⟩) := by
  rw [parse, h]
  refine (bind_of_ok (complain_apply _ c) _).trans ?_
  simp only [Console.after, Turn.printed, String.append_empty]
  cases sink with
  | errors =>
    simp only [Sink.told, Sink.store, Turn.debug, Turn.message, log, List.map_nil,
      String.join_nil, String.empty_append]
    rfl
  | file path => rfl

theorem evaluateSource_apply (h : sink.Serves options c.disk) (source : String) :
    evaluateSource options source c =
      ((Turn.ofSource options.verbosity source .single).ending,
        c.after sink (.ofSource options.verbosity source .single)) := by
  rw [evaluateSource]
  cases hparse : Program.parse source with
  | ok program =>
    have hblocked := Turn.blocked?_ofSource options.verbosity source .single
    rw [Turn.ofSource_of_parse hparse] at hblocked
    rw [bind_of_ok (parse_of_ok hparse c), Turn.ofSource_of_parse hparse]
    exact evaluateOnce_apply h program (Sink.takes_of_blocked? hblocked sink)
  | error e =>
    rw [bind_of_ok (parse_of_error_apply hparse c sink), Turn.ofSource_of_error hparse]
    rfl

/-! ## Lines -/

/-- A program that was parsed never ends the loop over lines: the only faults it can stop with are
its own mistakes. -/
theorem exists_ended_of_parse {source : String} {program : Program}
    (h : Program.parse source = .ok program) (level : Int) (forest : Forest) :
    ∃ succeeded, ended (program.evaluate level 0 forest) =
      .ok (succeeded, (program.evaluate level 0 forest).forest) := by
  unfold ended
  cases hresult : (program.evaluate level 0 forest).result with
  | ok value => exact ⟨true, rfl⟩
  | error fault =>
    obtain ⟨e, rfl, -⟩ := (Program.isPlain_of_parse h).holdsIn_of_evaluate hresult
    exact ⟨false, rfl⟩

theorem line_of_exit {text : List Char} (h : Text.trim text = "exit".toList) (options : Options)
    (forest : Forest) (c : Console) : line options forest text c = (.ok none, c) := by
  rw [line]
  rw [if_pos h]
  rfl

theorem line_of_blank {text : List Char} (h : Text.trim text = []) (options : Options)
    (forest : Forest) (c : Console) : line options forest text c = (.ok (some forest), c) := by
  have hexit : Text.trim text ≠ "exit".toList := by
    rw [h]
    decide
  rw [line]
  rw [if_neg hexit, if_pos h]
  rfl

/-- Any other line shows its turn, and the loop goes on in the scopes that the run leaves. -/
theorem line_apply (h : sink.Serves options c.disk) {text : List Char}
    (hexit : Text.trim text ≠ "exit".toList) (hblank : Text.trim text ≠ []) (forest : Forest) :
    line options forest text c =
      (.ok (some (Program.run options.verbosity 0 (String.ofList text) forest).2.1),
        c.after sink (.ofSource options.verbosity (String.ofList text) forest)) := by
  rw [line]
  rw [if_neg hexit, if_neg hblank]
  cases hparse : Program.parse (String.ofList text) with
  | ok program =>
    rw [bind_of_ok (parse_of_ok hparse c), Turn.ofSource_of_parse hparse, Program.run, hparse]
    -- The loop does not look at whether the evaluation succeeded, only at the scopes.
    obtain ⟨succeeded, hended⟩ := exists_ended_of_parse hparse options.verbosity forest
    have hblocked := Turn.blocked?_ofSource options.verbosity (String.ofList text) forest
    rw [Turn.ofSource_of_parse hparse] at hblocked
    have heval := evaluate_apply h program forest (Sink.takes_of_blocked? hblocked sink)
    rw [hended] at heval
    exact bind_of_ok heval _
  | error e =>
    rw [bind_of_ok (parse_of_error_apply hparse c sink), Turn.ofSource_of_error hparse,
      Program.run, hparse]
    rfl

end Command

end LetCalc.CommandLine
