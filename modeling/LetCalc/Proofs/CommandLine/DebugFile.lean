import LetCalc.Proofs.CommandLine.Lines

/-!
# The debug file

What a call comes to does not depend on where its reports go (`Course`, `Command.perform_apply`). A
debug file takes the reports away from standard error and changes nothing else, with two exceptions.
Each evaluation writes the file anew: after a call that evaluates several lines it has the reports
of the last one only. And a report of a name that is torn cannot be written to a file: the command
crashes there, although standard error shows the report.

* `Redirects`: what a debug file changes.
* `Command.run_debugFile`: adding a debug file to a call changes this, or the call crashes.
* `Command.run_debugFile_overwritten`: two lines, of which the file has the reports of the second,
  and a document with a torn name.
-/

namespace LetCalc.CommandLine

/-- What a call comes to, wherever its reports go. -/
structure Course where
  /-- How it ends. -/
  ending : Except Ending Unit
  /-- What it prints. -/
  output : String
  /-- What it complains of before there is anything to evaluate. -/
  complaint : String
  /-- The disk after it, without reports. -/
  disk : Disk
  /-- What is shown of the texts and programs it works on. -/
  turns : List Turn

namespace Course

/-- A call that does not come to a program. -/
def idle (ending : Except Ending Unit) (c : Console) : Course :=
  ⟨ending, c.output, c.errors, c.disk, []⟩

/-- A call for a single program. -/
def single (disk : Disk) (t : Turn) : Course := ⟨t.ending, t.printed, "", disk, [t]⟩

/-- The console after a call whose reports go to a sink. -/
def console (course : Course) (sink : Sink) : Console :=
  ⟨course.output, course.complaint ++ String.join (course.turns.map sink.told),
    course.turns.foldl sink.store course.disk⟩

theorem console_idle (ending : Except Ending Unit) (c : Console) (sink : Sink) :
    (idle ending c).console sink = c := by
  simp only [console, idle, List.map_nil, String.join_nil, String.append_empty, List.foldl_nil]

theorem console_single (disk : Disk) (t : Turn) (sink : Sink) :
    (single disk t).console sink = Console.after ⟨"", "", disk⟩ sink t := by
  simp only [console, single, Console.after, List.map_cons, List.map_nil, String.join_cons,
    String.join_nil, String.append_empty, String.empty_append, List.foldl_cons, List.foldl_nil]

end Course

namespace Command

open Shell

variable {options : Options} {disk : Disk} {sink : Sink} {place : List String}

/-- What a call with the given options comes to. -/
def course (options : Options) (input : String) (disk : Disk) : Course :=
  match task options with
  | .emit file => .idle (emit file ⟨"", "", disk⟩).1 (emit file ⟨"", "", disk⟩).2
  | .evaluateDocument file =>
    match loadDocument file ⟨"", "", disk⟩ with
    | (.ok program, _) => .single disk (.ofOutcome (program.evaluate options.verbosity 0 .single))
    | (.error ending, c) => .idle (.error ending) c
  | .evaluateSource source => .single disk (.ofSource options.verbosity source .single)
  | .evaluateVoid => .idle (.error (.crash .sourceVoid)) ⟨"", "", disk⟩
  | .evaluateFile file =>
    match readText (.ofString file) ⟨"", "", disk⟩ with
    | (.ok source, _) => .single disk (.ofSource options.verbosity source .single)
    | (.error ending, c) => .idle (.error ending) c
  | .readLines =>
    let turns := (replies options.verbosity .single (asked (inputLines input))).1
    ⟨.ok (), prompted turns, "", disk, turns.reduceOption⟩

/-- What a call comes to does not depend on the debug file. -/
theorem course_debugFile (options : Options) (setting : Setting) (input : String) (disk : Disk) :
    course { options with debugFile := setting } input disk = course options input disk := by
  have htask : task { options with debugFile := setting } = task options := rfl
  rw [course, course, htask]

/-- A call does what its course says, with its reports where the options send them, if they can be
written there. -/
theorem perform_apply (h : sink.Serves options disk) {input : String}
    (htakes : ∀ t ∈ (course options input disk).turns, sink.Takes t) :
    perform options input ⟨"", "", disk⟩ =
      ((course options input disk).ending, (course options input disk).console sink) := by
  have h' : sink.Serves options (Console.mk "" "" disk).disk := h
  revert htakes
  unfold perform course
  cases task options with
  | emit file =>
    dsimp only
    generalize emit file ⟨"", "", disk⟩ = result
    intro _
    rw [Course.console_idle]
    rfl
  | evaluateDocument file =>
    dsimp only
    -- Only a program that was loaded is evaluated, and loading it leaves the console as it was.
    rcases hload : loadDocument file ⟨"", "", disk⟩ with ⟨ending | program, c⟩
    · intro _
      rw [bind_of_error hload, Course.console_idle]
      rfl
    · intro htakes
      obtain rfl := eq_of_loadDocument hload
      rw [bind_of_ok hload, evaluateOnce_apply h' program (htakes _ (List.mem_singleton_self _)),
        Course.console_single]
      rfl
  | evaluateSource source =>
    dsimp only
    intro _
    rw [evaluateSource_apply h', Course.console_single]
    rfl
  | evaluateVoid =>
    intro _
    rw [Course.console_idle]
    rfl
  | evaluateFile file =>
    dsimp only
    intro _
    rcases htext : readText (.ofString file) ⟨"", "", disk⟩ with ⟨ending | source, c⟩
    · rw [bind_of_error htext, Course.console_idle]
      rfl
    · obtain rfl := eq_of_readText htext
      rw [bind_of_ok htext, evaluateSource_apply h', Course.console_single]
      rfl
  | readLines =>
    dsimp only
    intro _
    -- The scopes after the last line are not part of the course.
    change lines options .single (inputLines input) _ = _
    rw [lines_eq, bind_of_ok (linesForest_apply h' .single (inputLines input)), Course.console]
    simp only [String.empty_append]
    rfl

theorem run_apply {arguments : List String} (hread : Options.read arguments = .ok options)
    (h : sink.Serves options disk) {input : String}
    (htakes : ∀ t ∈ (course options input disk).turns, sink.Takes t) :
    run arguments disk input =
      (match (course options input disk).ending with
        | .ok () => .exit 0
        | .error ending => ending, (course options input disk).console sink) := by
  rw [run, call, hread]
  dsimp only
  rw [perform_apply h htakes]
  cases (course options input disk).ending <;> rfl

/-! ## Reports that a file cannot take -/

/-- Only the reports on a document can be ones that a file cannot take. -/
theorem exists_of_blocked? {input : String} {t : Turn} (h : t ∈ (course options input disk).turns)
    (hblocked : t.blocked? ≠ none) :
    ∃ file program, task options = .evaluateDocument file ∧
      loadDocument file ⟨"", "", disk⟩ = (.ok program, ⟨"", "", disk⟩) ∧
      t = .ofOutcome (program.evaluate options.verbosity 0 .single) := by
  have hsource : ∀ {source : String} {forest : Forest},
      t ∉ [Turn.ofSource options.verbosity source forest] := by
    intro source forest h
    obtain rfl := List.mem_singleton.1 h
    exact hblocked (Turn.blocked?_ofSource ..)
  unfold course at h
  split at h
  · cases h
  · rename_i file htask
    split at h
    · rename_i program c hload
      obtain rfl := eq_of_loadDocument hload
      exact ⟨file, program, htask, hload, List.mem_singleton.1 h⟩
    · cases h
  · exact absurd h hsource
  · cases h
  · split at h
    · exact absurd h hsource
    · cases h
  · obtain ⟨source, forest, rfl⟩ := exists_of_mem_replies h
    exact absurd (Turn.blocked?_ofSource ..) hblocked

/-- If a file cannot take the reports, the command crashes. It shows nothing, and the file has the
reports before the one that it cannot take. -/
theorem perform_of_blocked (h : (Sink.file place).Serves options disk) {input : String} {t : Turn}
    (ht : t ∈ (course options input disk).turns) {failure : Text.Utf8.EncodeFailure}
    (hblocked : t.blocked? = some failure) :
    perform options input ⟨"", "", disk⟩ =
      (.error (.crash (.line failure)),
        ⟨"", "", disk.put place (Text.Utf8.encode (log t.taken))⟩) := by
  obtain ⟨file, program, htask, hload, rfl⟩ := exists_of_blocked? ht (by simp [hblocked])
  have h' : (Sink.file place).Serves options (Console.mk "" "" disk).disk := h
  rw [perform, htask]
  dsimp only
  rw [bind_of_ok hload, evaluateOnce_of_blocked h' program hblocked]

/-! ## What is left of the reports -/

/-- What a file had before does not matter once it is written. -/
theorem put_foldl_store (turns : List Turn) (disk : Disk) (content : List UInt8) :
    (turns.foldl (Sink.file place).store disk).put place content = disk.put place content := by
  induction turns generalizing disk with
  | nil => rfl
  | cons t rest ih =>
    rw [List.foldl_cons, ih, Sink.store]
    by_cases h : t.isEvaluated = true
    · rw [if_pos h, Disk.put_put]
    · rw [if_neg h]

theorem foldl_store_of_not_isEvaluated {turns : List Turn}
    (h : ∀ t ∈ turns, t.isEvaluated = false) (disk : Disk) :
    turns.foldl (Sink.file place).store disk = disk := by
  induction turns generalizing disk with
  | nil => rfl
  | cons t rest ih =>
    obtain ⟨ht, hrest⟩ := List.forall_mem_cons.1 h
    rw [List.foldl_cons, Sink.store, ht, if_neg Bool.false_ne_true, ih hrest]

/-- The file has the reports of the last evaluation. -/
theorem foldl_store_of_isEvaluated {before after : List Turn} {t : Turn}
    (ht : t.isEvaluated = true) (hafter : ∀ u ∈ after, u.isEvaluated = false) (disk : Disk) :
    (before ++ t :: after).foldl (Sink.file place).store disk =
      disk.put place (Text.Utf8.encode t.debug) := by
  rw [List.foldl_append, List.foldl_cons, foldl_store_of_not_isEvaluated hafter, Sink.store,
    if_pos ht, put_foldl_store]

theorem join_debug_eq_empty_iff {turns : List Turn} :
    String.join (turns.map Turn.debug) = "" ↔ ∀ t ∈ turns, t.trace = [] := by
  induction turns with
  | nil => exact ⟨fun _ => List.forall_mem_nil _, fun _ => rfl⟩
  | cons t rest ih =>
    rw [List.map_cons, String.join_cons, String.append_eq_empty_iff, List.forall_mem_cons,
      Turn.debug_eq_empty_iff, ih]

/-- Texts that are no programs have no reports. -/
theorem trace_eq_nil_of_mem_turns {input : String} {t : Turn}
    (h : t ∈ (course options input disk).turns) (ht : t.isEvaluated = false) : t.trace = [] := by
  have hsource : ∀ {source : String} {forest : Forest},
      t ∈ [Turn.ofSource options.verbosity source forest] → t.trace = [] := by
    intro source forest h
    obtain rfl := List.mem_singleton.1 h
    exact Turn.trace_ofSource ht
  unfold course at h
  split at h
  · cases h
  · split at h
    · obtain rfl := List.mem_singleton.1 h
      rw [Turn.isEvaluated_ofOutcome] at ht
      cases ht
    · cases h
  · exact hsource h
  · cases h
  · split at h
    · exact hsource h
    · cases h
  · obtain ⟨source, forest, rfl⟩ := exists_of_mem_replies h
    exact Turn.trace_ofSource ht

/-- A call that comes to something to evaluate does not write anything else. -/
theorem disk_course {input : String} (h : (course options input disk).turns ≠ []) :
    (course options input disk).disk = disk := by
  unfold course at h ⊢
  split
  · simp_all [Course.idle]
  · split
    · rfl
    · simp_all [Course.idle]
  · rfl
  · rfl
  · split
    · rfl
    · simp_all [Course.idle]
  · rfl

/-- Only the work on lines comes to several turns. -/
theorem length_turns_le {input : String} (h : task options ≠ .readLines) :
    (course options input disk).turns.length ≤ 1 := by
  unfold course
  split
  · exact Nat.zero_le 1
  · split
    · exact Nat.le_refl 1
    · exact Nat.zero_le 1
  · exact Nat.le_refl 1
  · exact Nat.zero_le 1
  · split
    · exact Nat.le_refl 1
    · exact Nat.zero_le 1
  · exact absurd ‹_› h

end Command

/-- What a debug file changes in a call that shows some turns. Nothing but the reports is missing
from standard error. If nothing was evaluated, the file is not touched; otherwise it has the reports
of the last turn that was evaluated, and these are all reports just if there are none before. -/
structure Redirects (turns : List Turn) (name : String) (place : List String)
    (plain filed : Ending × Console) : Prop where
  ending : filed.1 = plain.1
  output : filed.2.output = plain.2.output
  errors : ∃ complaint,
    plain.2.errors = complaint ++ String.join (turns.map fun t => t.debug ++ t.message) ∧
      filed.2.errors = complaint ++ String.join (turns.map Turn.message)
  untouched : (∀ t ∈ turns, t.isEvaluated = false) → filed.2.disk = plain.2.disk
  written : ∀ (before : List Turn) (t : Turn) (after : List Turn), turns = before ++ t :: after →
    t.isEvaluated = true → (∀ u ∈ after, u.isEvaluated = false) →
      filed.2.disk = plain.2.disk.put place (Text.Utf8.encode t.debug) ∧
        filed.2.disk.read name = .ok (Text.Utf8.encode t.debug) ∧
        (t.debug = String.join (turns.map Turn.debug) ↔ ∀ u ∈ before, u.trace = [])

theorem Sink.told_errors : Sink.errors.told = fun t => t.debug ++ t.message := rfl

theorem Sink.told_file (place : List String) : (Sink.file place).told = Turn.message := rfl

/-- The consoles after a course, with and without a debug file. -/
theorem Course.redirects (course : Course) {disk : Disk} {name : String} {place : List String}
    (htarget : disk.target name = .ok place) (hdisk : course.turns ≠ [] → course.disk = disk)
    (hquiet : ∀ t ∈ course.turns, t.isEvaluated = false → t.trace = []) (ending : Ending) :
    Redirects course.turns name place (ending, course.console .errors)
      (ending, course.console (.file place)) where
  ending := rfl
  output := rfl
  errors := ⟨course.complaint, by rw [console, Sink.told_errors], by rw [console, Sink.told_file]⟩
  untouched := by
    intro hnone
    simp only [console, Command.foldl_store_errors]
    exact Command.foldl_store_of_not_isEvaluated hnone _
  written := by
    intro before t after hturns ht hafter
    have hne : course.turns ≠ [] := by simp [hturns]
    have hstore : course.turns.foldl (Sink.file place).store disk =
        disk.put place (Text.Utf8.encode t.debug) := by
      rw [hturns]
      exact Command.foldl_store_of_isEvaluated ht hafter disk
    simp only [console, Command.foldl_store_errors, hdisk hne, hstore, true_and]
    refine ⟨Disk.read_put htarget _, ?_⟩
    -- The turns after the last evaluation have no reports, so only those before it matter.
    have hsilent : String.join (after.map Turn.debug) = "" :=
      Command.join_debug_eq_empty_iff.2 fun u hu => hquiet u (by simp [hturns, hu]) (hafter u hu)
    rw [hturns, List.map_append, List.map_cons, String.join_append, String.join_cons, hsilent,
      String.append_empty, eq_comm, ← Command.join_debug_eq_empty_iff, String.append_eq_right_iff]

namespace Command

variable {options : Options} {disk : Disk} {place : List String}

/-- Adding a debug file to a call with reports, for instance in front of its arguments, changes
where the reports go and nothing else, if the file can take them. All reports are in the file if the
call is for a single program, but not after the work on lines, where each evaluation replaces those
of the one before. If there is a report that the file cannot take, the call crashes, with nothing
shown and the reports before it in the file; this needs a document with a torn name. -/
theorem run_debugFile {arguments : List String} {name : String} (input : String)
    (hread : Options.read arguments = .ok options) (hverbose : 0 < options.verbosity)
    (habsent : options.debugFile = .absent) (htarget : disk.target name = .ok place) :
    (∀ arguments', Options.read arguments' = .ok { options with debugFile := .text name } →
      ((∀ t ∈ (course options input disk).turns, t.blocked? = none) →
        Redirects (course options input disk).turns name place (run arguments disk input)
          (run arguments' disk input)) ∧
      ∀ t ∈ (course options input disk).turns, ∀ failure, t.blocked? = some failure →
        run arguments' disk input = (.crash (.line failure),
          ⟨"", "", disk.put place (Text.Utf8.encode (log t.taken))⟩)) ∧
      (∀ t ∈ (course options input disk).turns, t.blocked? ≠ none →
        ∃ file program, task options = .evaluateDocument file ∧
          loadDocument file ⟨"", "", disk⟩ = (.ok program, ⟨"", "", disk⟩) ∧
          ∃ torn ∈ Program.names program, ¬ torn.spelling.IsWhole) ∧
      (Role.IsPlain name → Options.read ("--debug-file" :: name :: arguments) =
        .ok { options with debugFile := .text name }) ∧
      (task options ≠ .readLines → (course options input disk).turns.length ≤ 1) := by
  refine ⟨fun arguments' hread' => ?_, fun t ht hblocked => ?_,
    Options.read_debugFile hread habsent, length_turns_le⟩
  · have hplain : Sink.errors.Serves options disk := .errors fun _ => habsent
    have hfiled : (Sink.file place).Serves { options with debugFile := .text name } disk :=
      .file hverbose rfl htarget
    have hcourse := course_debugFile options (.text name) input disk
    refine ⟨fun htakes => ?_, fun t ht failure hblocked => ?_⟩
    · rw [run_apply hread hplain fun _ _ => trivial,
        run_apply hread' hfiled (by rwa [hcourse]), hcourse]
      exact Course.redirects (course options input disk) htarget disk_course
        (fun _ => trace_eq_nil_of_mem_turns) _
    · rw [run, call, hread']
      dsimp only
      rw [perform_of_blocked hfiled (by rwa [hcourse]) hblocked]
  · obtain ⟨file, program, htask, hload, rfl⟩ := exists_of_blocked? ht hblocked
    exact ⟨file, program, htask, hload, Turn.exists_torn_of_blocked? hblocked⟩

/-- Two lines with a debug file and without. -/
theorem run_debugFile_lines :
    ∃ options, Options.read ["-v"] = .ok options ∧
      Redirects (course options "1\n2\n" (singleFile "p" "")).turns "d" ["home", "d"]
        (run ["-v"] (singleFile "p" "") "1\n2\n")
        (run ["--debug-file", "d", "-v"] (singleFile "p" "") "1\n2\n") := by
  have hread : Options.read ["-v"] = .ok { verbosity := 1 } := by cbv
  have htarget : Disk.target (singleFile "p" "") "d" = .ok ["home", "d"] := by cbv
  obtain ⟨hadding, hdocument, hadded, -⟩ := run_debugFile "1\n2\n" hread Nat.one_pos rfl htarget
  refine ⟨_, hread, (hadding _ (hadded ⟨by decide, rfl⟩)).1 fun t ht => ?_⟩
  by_contra hblocked
  obtain ⟨file, program, htask, -⟩ := hdocument t ht hblocked
  cases htask

/-- A document that declares two names, the second of which is one half of a surrogate pair. -/
def tornDocument : String :=
  "\x7b\"type\":\"Program\",\"body\":[\x7b\"type\":\"VarDeclaration\",\"name\":\"a\"\x7d," ++
    "\x7b\"type\":\"VarDeclaration\",\"name\":\"\\ud800\"\x7d]\x7d"

/-- The reports of the first line are lost, although they are all in standard error without a debug
file. If there is nothing to evaluate, the file keeps what it had. A report with a torn name is
shown in standard error, but stops a call with a debug file. -/
theorem run_debugFile_overwritten :
    shown (run ["-v"] (singleFile "p" "") "1\n2\n") =
        (some 0, "> 1\n> 2\n> ", "statement 0: 1\nstatement 0: 2\n") ∧
      shown (run ["-v", "--debug-file", "d"] (singleFile "p" "") "1\n2\n") =
        (some 0, "> 1\n> 2\n> ", "") ∧
      ((run ["-v", "--debug-file", "d"] (singleFile "p" "") "1\n2\n").2.disk.read "d").toOption =
        some (Text.Utf8.encode "statement 0: 2\n") ∧
      ((run ["-v", "--debug-file", "d"] (singleFile "d" "old") "").2.disk.read "d").toOption =
        some (Text.Utf8.encode "old") ∧
      shown (run ["-vv", "--ast", "p"] (singleFile "p" tornDocument) "") =
        (some 0, "null\n", "declare let a: Null = null\nstatement 0: null\n" ++
          "declare let \\ud800: Null = null\nstatement 1: null\n") ∧
      shown (run ["-vv", "--debug-file", "d", "--ast", "p"] (singleFile "p" tornDocument) "") =
        (none, "", "") ∧
      ((run ["-vv", "--debug-file", "d", "--ast", "p"] (singleFile "p" tornDocument)
          "").2.disk.read "d").toOption =
        some (Text.Utf8.encode "declare let a: Null = null\nstatement 0: null\n") := by
  decide +kernel

end Command

end LetCalc.CommandLine
