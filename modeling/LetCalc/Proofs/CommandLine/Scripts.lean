import LetCalc.Proofs.CommandLine.DebugFile
import LetCalc.Proofs.Evaluation.Reports
import LetCalc.Proofs.Parser.Messages
import LetCalc.Proofs.Text.Utf8

/-!
# Calls for a source text

A call for a source text, given as an argument or in a file, ends in one of three ways: it prints
the value of the text, or tells in a line why the text is no program, or tells in a line why its
evaluation stops. There is no fourth way, since a program that was parsed stops with its own
mistakes only.

* `Command.Gives`: the source text that a call is for.
* `ShowsValue`, `ShowsParseError`, `ShowsRuntimeError`: what can be seen of the three ways.
* `Command.run_source`: which of them a call takes.
-/

namespace LetCalc.CommandLine

open Text (IsLine IsMadeOf)

/-! ## What can be seen -/

/-- The value was printed, and nothing but reports was written to standard error. -/
structure ShowsValue (value : Value) (reports : List Event) (result : Ending × Console) : Prop where
  ending : result.1 = .exit 0
  output : result.2.output = value.text ++ "\n"
  errors : IsMadeOf result.2.errors (reports.map Event.text)

/-- Nothing was printed, and the line about the source text is all of standard error. -/
structure ShowsParseError (message : String) (result : Ending × Console) : Prop where
  ending : result.1 = .exit 1
  output : result.2.output = ""
  errors : IsMadeOf result.2.errors ["Parse error: " ++ message]

/-- Nothing was printed, and the line about the evaluation follows the reports. -/
structure ShowsRuntimeError (message : String) (reports : List Event)
    (result : Ending × Console) : Prop where
  ending : result.1 = .exit 1
  output : result.2.output = ""
  errors : IsMadeOf result.2.errors (reports.map Event.text ++ ["Runtime error: " ++ message])

/-- The last line tells a mistake in the source text from one in its evaluation. -/
theorem ShowsParseError.not_showsRuntimeError {message message' : String} {reports : List Event}
    {result : Ending × Console} (h : ShowsParseError message result) :
    ¬ ShowsRuntimeError message' reports result := by
  intro h'
  -- The two lists of lines are the same, and their last lines start with different letters.
  have hlines := h.errors.unique h'.errors
  have hlast := congrArg List.getLast? hlines
  rw [List.getLast?_concat, List.getLast?_singleton] at hlast
  have hhead := congrArg (fun s : String => s.toList.head?) (Option.some.inj hlast)
  simp at hhead

/-- What a call for a source text ends with: the value of the text, an error of the parser, or an
error of the evaluation. -/
inductive EndsAsRun (level : Int) (source : String) (result : Ending × Console) : Prop
  | value {value : Value} {forest : Forest} {reports : List Event} :
      Program.run level 0 source .single = (.ok value, forest, reports) →
        ShowsValue value reports result → EndsAsRun level source result
  | parseError {e : ParseError} :
      Program.parse source = .error e → ShowsParseError (e.span.locate e.message) result →
        EndsAsRun level source result
  | runtimeError {e : EvalError} {forest : Forest} {reports : List Event} :
      Program.run level 0 source .single = (.error (.fault (.error e)), forest, reports) →
        ShowsRuntimeError e.message reports result → EndsAsRun level source result

namespace EndsAsRun

variable {level : Int} {source : String} {result : Ending × Console}

/-- A source text that is no program is not evaluated. -/
theorem run_of_parse {e : ParseError} (h : Program.parse source = .error e) :
    (Program.run level 0 source .single).1 = .error (.parse e) := by
  rw [Program.run, h]

theorem showsValue_iff (h : EndsAsRun level source result) :
    (∃ value reports, ShowsValue value reports result) ↔
      ∃ value, (Program.run level 0 source .single).1 = .ok value := by
  cases h with
  | value hrun hshows => exact iff_of_true ⟨_, _, hshows⟩ ⟨_, congrArg Prod.fst hrun⟩
  | parseError hparse hshows =>
    refine iff_of_false ?_ (by simp [run_of_parse hparse])
    rintro ⟨value, reports, hvalue⟩
    exact nomatch hvalue.ending.symm.trans hshows.ending
  | runtimeError hrun hshows =>
    refine iff_of_false ?_ (by simp [hrun])
    rintro ⟨value, reports, hvalue⟩
    exact nomatch hvalue.ending.symm.trans hshows.ending

theorem showsParseError_iff (h : EndsAsRun level source result) :
    (∃ message, ShowsParseError message result) ↔ ∃ e, Program.parse source = .error e := by
  cases h with
  | value hrun hshows =>
    refine iff_of_false ?_ ?_
    · rintro ⟨message, herror⟩
      exact nomatch herror.ending.symm.trans hshows.ending
    · rintro ⟨e, hparse⟩
      exact nomatch (congrArg Prod.fst hrun).symm.trans (run_of_parse hparse)
  | parseError hparse hshows => exact iff_of_true ⟨_, hshows⟩ ⟨_, hparse⟩
  | runtimeError hrun hshows =>
    refine iff_of_false ?_ ?_
    · rintro ⟨message, herror⟩
      exact herror.not_showsRuntimeError hshows
    · rintro ⟨e, hparse⟩
      exact nomatch (congrArg Prod.fst hrun).symm.trans (run_of_parse hparse)

theorem showsRuntimeError_iff (h : EndsAsRun level source result) :
    (∃ message reports, ShowsRuntimeError message reports result) ↔
      ∃ e, (Program.run level 0 source .single).1 = .error (.fault (.error e)) := by
  cases h with
  | value hrun hshows =>
    refine iff_of_false ?_ (by simp [hrun])
    rintro ⟨message, reports, herror⟩
    exact nomatch herror.ending.symm.trans hshows.ending
  | parseError hparse hshows =>
    refine iff_of_false ?_ (by simp [run_of_parse hparse])
    rintro ⟨message, reports, herror⟩
    exact hshows.not_showsRuntimeError herror
  | runtimeError hrun hshows => exact iff_of_true ⟨_, _, hshows⟩ ⟨_, congrArg Prod.fst hrun⟩

end EndsAsRun

/-! ## Turns -/

namespace Turn

/-- How a call ends that does nothing but show a turn, and what it leaves. -/
def callResult (disk : Disk) (t : Turn) : Ending × Console :=
  (match t.ending with
    | .ok () => .exit 0
    | .error ending => ending, Console.after ⟨"", "", disk⟩ .errors t)

/-- Standard error has the reports, and then the message. -/
theorem errors_callResult (disk : Disk) (t : Turn) :
    (t.callResult disk).2.errors = t.debug ++ t.message :=
  String.empty_append

theorem debug_eq_join (t : Turn) :
    t.debug = String.join ((t.trace.map Event.text).map (· ++ "\n")) := by
  rw [debug, List.map_map]
  rfl

variable {reports : List Event}

theorem showsValue (h : ∀ event ∈ reports, IsLine event.text) (value : Value) (disk : Disk) :
    ShowsValue value reports (callResult disk ⟨.ok value, reports⟩) where
  ending := rfl
  output := String.empty_append
  errors := by
    refine ⟨?_, List.forall_mem_map.2 h⟩
    rw [errors_callResult, debug_eq_join]
    exact String.append_empty

theorem showsParseError {e : ParseError} (h : IsLine (e.span.locate e.message)) (disk : Disk) :
    ShowsParseError (e.span.locate e.message) (callResult disk ⟨.error (.parse e), []⟩) where
  ending := rfl
  output := rfl
  errors := by
    refine ⟨?_, List.forall_mem_singleton.2 ?_⟩
    · rw [errors_callResult, debug_eq_join]
      simp [message]
    · simp [IsLine, h]

theorem showsRuntimeError (h : ∀ event ∈ reports, IsLine event.text) {e : EvalError}
    (he : IsLine e.message) (disk : Disk) :
    ShowsRuntimeError e.message reports
      (callResult disk ⟨.error (.fault (.error e)), reports⟩) where
  ending := rfl
  output := rfl
  errors := by
    refine ⟨?_, List.forall_mem_append.2 ⟨List.forall_mem_map.2 h, ?_⟩⟩
    · rw [errors_callResult, debug_eq_join]
      simp [message]
    · exact List.forall_mem_singleton.2 (by simp [IsLine, he])

/-- A call for a source text shows how the text is run. -/
theorem endsAsRun_ofSource (level : Int) (source : String) (disk : Disk) :
    EndsAsRun level source ((ofSource level source .single).callResult disk) := by
  cases hparse : Program.parse source with
  | error e =>
    rw [ofSource_of_error hparse]
    exact .parseError hparse (showsParseError (Program.isLine_of_parse hparse) disk)
  | ok program =>
    obtain ⟨hreports, hmessage⟩ :=
      (Program.isWritten_of_parse hparse).isLine_of_evaluate level 0 .single
    have hrun : Program.run level 0 source .single =
        ((program.evaluate level 0 .single).result.mapError .fault,
          (program.evaluate level 0 .single).forest,
          (program.evaluate level 0 .single).trace) := by
      rw [Program.run, hparse]
    rw [ofSource_of_parse hparse, ofOutcome]
    cases hresult : (program.evaluate level 0 .single).result with
    | ok value =>
      rw [hresult] at hrun
      exact .value hrun (showsValue hreports value disk)
    | error fault =>
      -- A program that was parsed stops with a mistake of its own.
      obtain ⟨e, rfl, -⟩ := (Program.isPlain_of_parse hparse).holdsIn_of_evaluate hresult
      rw [hresult] at hrun
      exact .runtimeError hrun (showsRuntimeError hreports (hmessage e hresult) disk)

end Turn

namespace Command

open Shell

variable {options : Options} {disk : Disk} {source : String}

/-- The options ask for a source text: for the value of an option, or for the text of a file. -/
inductive Gives (options : Options) (disk : Disk) : String → Prop
  | argument {source : String} :
      task options = .evaluateSource source → Gives options disk source
  | file {name text : String} {content : List UInt8} :
      task options = .evaluateFile name →
        disk.find (Path.ofString name).text = .ok (.file content) →
          Text.Utf8.decode content = .ok text →
            Gives options disk (String.ofList (Text.unifyNewlines text.toList))

theorem Gives.course_eq (h : Gives options disk source) (input : String) :
    course options input disk =
      .single disk (.ofSource options.verbosity source .single) := by
  unfold course
  cases h with
  | argument htask => rw [htask]
  | file htask hfind hdecode =>
    -- The file is read before anything is written.
    have hread := readText_of_decode (c := ⟨"", "", disk⟩) hfind hdecode
    rw [htask]
    dsimp only
    rw [hread]

theorem Gives.run_eq (h : Gives options disk source) {arguments : List String}
    (hread : Options.read arguments = .ok options)
    (hreports : 0 < options.verbosity → options.debugFile = .absent) (input : String) :
    run arguments disk input =
      (Turn.ofSource options.verbosity source .single).callResult disk := by
  rw [run_apply hread (.errors hreports) fun _ _ => trivial, h.course_eq, Course.console_single]
  rfl

/-- A call for a source text, with any number of flags that raise the verbosity, ends in one of
three ways. Each is taken precisely if the text has a value, if it is no program, or if its
evaluation stops with an error. The files stay as they are. -/
theorem run_source {arguments : List String} (input : String)
    (hread : Options.read arguments = .ok options)
    (hreports : 0 < options.verbosity → options.debugFile = .absent)
    (hgives : Gives options disk source) :
    EndsAsRun options.verbosity source (run arguments disk input) ∧
      ((∃ value reports, ShowsValue value reports (run arguments disk input)) ↔
        ∃ value, (Program.run options.verbosity 0 source .single).1 = .ok value) ∧
      ((∃ message, ShowsParseError message (run arguments disk input)) ↔
        ∃ e, Program.parse source = .error e) ∧
      ((∃ message reports, ShowsRuntimeError message reports (run arguments disk input)) ↔
        ∃ e, (Program.run options.verbosity 0 source .single).1 = .error (.fault (.error e))) ∧
      (run arguments disk input).2.disk = disk := by
  rw [hgives.run_eq hread hreports]
  have hends := Turn.endsAsRun_ofSource options.verbosity source disk
  exact ⟨hends, hends.showsValue_iff, hends.showsParseError_iff, hends.showsRuntimeError_iff, rfl⟩

/-- The text of an argument whose evaluation stops, and that of a file which is no program. -/
theorem run_source_fails :
    EndsAsRun 2 "const c = 2; c = 3"
        (run ["-vv", "-e", "const c = 2; c = 3"] (singleFile "p" "") "") ∧
      shown (run ["-vv", "-e", "const c = 2; c = 3"] (singleFile "p" "") "") =
        (some 1, "", "declare const c: Number = 2\nstatement 0: 2\n" ++
          "Runtime error: cannot reassign constant c\n") ∧
      EndsAsRun 0 "1 +\n€" (run ["p"] (singleFile "p" "1 +\r\n€") "") ∧
      shown (run ["p"] (singleFile "p" "1 +\r\n€") "") =
        (some 1, "", "Parse error: lexer error: unexpected character '€' at 2:1 at 4..7\n") := by
  refine ⟨?_, by decide +kernel, ?_, by decide +kernel⟩
  · have hplain : Role.IsPlain "const c = 2; c = 3" := ⟨by decide, rfl⟩
    exact (run_source "" (Options.read_source [1] hplain) (fun _ => rfl) (.argument rfl)).1
  · have hplain : Role.IsPlain "p" := ⟨by decide, rfl⟩
    have hgives : Gives { programFile := some "p" } (singleFile "p" "1 +\r\n€")
        (String.ofList (Text.unifyNewlines "1 +\r\n€".toList)) :=
      .file rfl (find_singleFile _) (Text.Utf8.decode_encode _)
    exact (run_source "" (Options.read_program [] hplain) (fun _ => rfl) hgives).1

end Command

end LetCalc.CommandLine
