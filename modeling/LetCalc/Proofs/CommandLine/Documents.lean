import LetCalc.Proofs.CommandLine.Options
import LetCalc.Proofs.CommandLine.Turns
import LetCalc.Proofs.Evaluation.Trace
import LetCalc.Proofs.Json.Lines
import LetCalc.Proofs.Node.Document
import LetCalc.Proofs.Text.Utf8

/-!
# Evaluating a document

What a call comes to that evaluates the document in a file, whatever the file has in it. The value
is printed, or it is reported what is wrong with the document or with its program
(`Command.Reported`). There are three kinds of files that the command has no report for
(`Command.Unreported`): those that are no document at all, those with a whole number that is too
large, and those whose program stops at a program inside it or at a name that is a collection.

* `Command.run_of_readText`: the call, from the text of the document on.
* `Command.run_document`: the command crashes just for the files without a report.
* `Command.run_document_crashes`: files of each kind.
-/

namespace LetCalc.CommandLine.Command

open Shell

variable {file source text : String} {disk : Disk} {content : List UInt8}

/-! ## Calls -/

/-- How a call for a document ends, with its console, from the program of the document on. -/
def concluded (file : String) (disk : Disk) : Except Refusal Program → Ending × Console
  | .error (.crash crash) => (.crash crash, ⟨"", "", disk⟩)
  | .error (.reported reason) =>
    (.exit 1, ⟨"", s!"Error: invalid AST file {file}: {reason}" ++ "\n", disk⟩)
  | .ok program =>
    match (program.evaluate 0 0 .single).result with
    | .ok value => (.exit 0, ⟨value.text ++ "\n", "", disk⟩)
    | .error (.error e) => (.exit 1, ⟨"", s!"Runtime error: {e.message}" ++ "\n", disk⟩)
    | .error fault => (.crash (.fault fault), ⟨"", "", disk⟩)

/-- A program is evaluated without reports. -/
theorem evaluateOnce_silent (program : Program) (disk : Disk) :
    evaluateOnce {} program ⟨"", "", disk⟩ =
      ((Turn.ofOutcome (program.evaluate 0 0 .single)).ending,
        ⟨(Turn.ofOutcome (program.evaluate 0 0 .single)).printed,
          (Turn.ofOutcome (program.evaluate 0 0 .single)).message, disk⟩) := by
  have hserves : Sink.errors.Serves {} (Console.mk "" "" disk).disk := .errors nofun
  have hdebug : (Turn.ofOutcome (program.evaluate 0 0 .single)).debug = "" :=
    Turn.debug_eq_empty_iff.2 (Program.trace_evaluate_zero 0 program .single)
  have happly : evaluateOnce {} program ⟨"", "", disk⟩ =
      ((Turn.ofOutcome (program.evaluate 0 0 .single)).ending,
        Console.after ⟨"", "", disk⟩ .errors (.ofOutcome (program.evaluate 0 0 .single))) :=
    evaluateOnce_apply hserves program trivial
  rw [happly, Console.after, Sink.told, hdebug, String.empty_append, String.empty_append,
    String.empty_append]
  rfl

theorem run_of_readText (hfile : file ≠ "") (hplain : Role.IsPlain file)
    (htext : readText (.ofString file) ⟨"", "", disk⟩ = (.ok source, ⟨"", "", disk⟩))
    (input : String) :
    run ["--ast", file] disk input =
      concluded (Path.ofString file).text disk (readProgram source) := by
  have hread : Options.read ["--ast", file] = .ok { documentFile := .text file } :=
    Options.read_document [] hplain
  rw [run, call, hread]
  dsimp only
  rw [perform_document hfile 0 input]
  have hload := loadDocument_apply htext
  cases hprogram : readProgram source with
  | error refusal =>
    rw [hprogram] at hload
    cases refusal with
    | crash crash =>
      rw [bind_of_error hload]
      rfl
    | reported reason =>
      rw [bind_of_error hload]
      dsimp only
      rw [String.empty_append]
      rfl
  | ok program =>
    rw [hprogram] at hload
    rw [bind_of_ok hload, evaluateOnce_silent, concluded]
    -- From here on only the result counts.
    generalize program.evaluate 0 0 .single = outcome
    obtain ⟨result, forest, trace⟩ := outcome
    cases result with
    | ok value => rfl
    | error fault => cases fault <;> rfl

/-! ## Reports -/

/-- How a call for a document ends, with its console, if there is a report for what is wrong. -/
inductive Reported (file source : String) (disk : Disk) : Ending × Console → Prop
  /-- The value is printed. -/
  | value {program : Program} {value : Value} : readProgram source = .ok program →
      (program.evaluate 0 0 .single).result = .ok value →
      Reported file source disk (.exit 0, ⟨value.text ++ "\n", "", disk⟩)
  /-- The program makes a mistake. -/
  | mistake {program : Program} {e : EvalError} : readProgram source = .ok program →
      (program.evaluate 0 0 .single).result = .error (.error e) →
      Reported file source disk (.exit 1, ⟨"", s!"Runtime error: {e.message}" ++ "\n", disk⟩)
  /-- The document gives no program. -/
  | refused {reason : String} : readProgram source = .error (.reported reason) →
      Reported file source disk
        (.exit 1, ⟨"", s!"Error: invalid AST file {file}: {reason}" ++ "\n", disk⟩)

/-- What there is no report for in the text of a document. -/
inductive Unreported (source : String) : Crash → Prop
  /-- The text is no document. -/
  | unreadable {e : Json.ReadError} : Json.read source = .error e → Unreported source (.document e)
  /-- A number is a whole number that is too large. -/
  | tooLarge {document : Json} : Json.read source = .ok document →
      Node.ofJson document = .error .numberTooLarge → Unreported source (.load .numberTooLarge)
  /-- The program stops, but not for a mistake. -/
  | stuck {program : Program} {fault : Fault} : readProgram source = .ok program →
      (program.evaluate 0 0 .single).result = .error fault → (∀ e, fault ≠ .error e) →
      Unreported source (.fault fault)

theorem unreported_of_readProgram {crash : Crash}
    (h : readProgram source = .error (.crash crash)) : Unreported source crash := by
  unfold readProgram at h
  split at h
  · rename_i e hread
    obtain rfl : Crash.document e = crash := by simpa using h
    exact .unreadable hread
  · rename_i document hread
    unfold programOf at h
    split at h
    · cases h
    · cases h
    · rename_i hload
      obtain rfl : Crash.load .numberTooLarge = crash := by simpa using h
      exact .tooLarge hread hload
    · cases h

/-- A text without a report gives no program, or one that is stuck. -/
theorem Unreported.readProgram {crash : Crash} (h : Unreported source crash) :
    readProgram source = .error (.crash crash) ∨
      ∃ program fault, Command.readProgram source = .ok program ∧
        (program.evaluate 0 0 .single).result = .error fault ∧ (∀ e, fault ≠ .error e) ∧
        crash = .fault fault := by
  cases h with
  | unreadable hread => exact .inl (by rw [Command.readProgram, hread])
  | tooLarge hread hload =>
    refine .inl ?_
    rw [Command.readProgram, hread]
    dsimp only [programOf]
    rw [hload]
  | stuck hprogram hresult hfault => exact .inr ⟨_, _, hprogram, hresult, hfault, rfl⟩

theorem Unreported.concluded {crash : Crash} (h : Unreported source crash) (file : String)
    (disk : Disk) :
    concluded file disk (Command.readProgram source) = (.crash crash, ⟨"", "", disk⟩) := by
  rcases h.readProgram with hprogram | ⟨program, fault, hprogram, hresult, hfault, rfl⟩
  · rw [hprogram]
    rfl
  · rw [hprogram, Command.concluded, hresult]
    cases fault with
    | error e => exact absurd rfl (hfault e)
    | _ => rfl

theorem reported_concluded (h : ∀ crash, ¬Unreported source crash) (file : String) (disk : Disk) :
    Reported file source disk (concluded file disk (readProgram source)) := by
  cases hprogram : readProgram source with
  | error refusal =>
    cases refusal with
    | crash crash => exact absurd (unreported_of_readProgram hprogram) (h crash)
    | reported reason => exact .refused hprogram
  | ok program =>
    rw [concluded]
    cases hresult : (program.evaluate 0 0 .single).result with
    | ok value => exact .value hprogram hresult
    | error fault =>
      cases fault with
      | error e => exact .mistake hprogram hresult
      | _ => exact absurd (.stuck hprogram hresult nofun) (h _)

/-- There is a report for everything that can be wrong with a sound program. -/
theorem not_unreported_of_isSound {program : Program} (hprogram : readProgram source = .ok program)
    (hsound : ∀ statement ∈ program, statement.IsSound) (crash : Crash) :
    ¬Unreported source crash := by
  intro hcrash
  rcases hcrash.readProgram with h | ⟨other, fault, h, hresult, hfault, -⟩
  · rw [hprogram] at h
    cases h
  · -- It would be stuck, but the faults of a sound program are mistakes.
    obtain rfl : program = other := Except.ok.inj (hprogram.symm.trans h)
    obtain ⟨e, he, -⟩ := Program.holdsIn_of_evaluate hsound hresult
    exact hfault e he

/-- A call for a document in a file that is text, if the name is taken for a file. The command
crashes for the files without a report, and only for those. All others end with the value of their
program or with a report of what is wrong, and so do those of sound programs. -/
theorem run_document (source : String) (hfile : file ≠ "")
    (hfind : disk.find (Path.ofString file).text = .ok (.file content))
    (hdecode : Text.Utf8.decode content = .ok text)
    (hsource : source = String.ofList (Text.unifyNewlines text.toList)) (input : String) :
    (¬Role.IsPlain file → (run ["--ast", file] disk input).1 = .exit 2) ∧
      (Role.IsPlain file →
        (∀ crash, Unreported source crash →
          run ["--ast", file] disk input = (.crash crash, ⟨"", "", disk⟩)) ∧
        ((∀ crash, ¬Unreported source crash) →
          Reported (Path.ofString file).text source disk (run ["--ast", file] disk input))) ∧
      ∀ program, readProgram source = .ok program → (∀ statement ∈ program, statement.IsSound) →
        ∀ crash, ¬Unreported source crash := by
  refine ⟨fun hplain => ?_, fun hplain => ?_, fun program => not_unreported_of_isSound⟩
  · rcases Options.read_value "--ast" (by decide) rfl rfl file rfl rfl with ⟨h, -⟩ | ⟨e, hread⟩
    · exact absurd h hplain
    · rw [run, call, hread]
      rfl
  · subst hsource
    rw [run_of_readText hfile hplain (readText_of_decode (c := ⟨"", "", disk⟩) hfind hdecode) input]
    exact ⟨fun crash h => h.concluded _ disk, fun h => reported_concluded h _ disk⟩

/-! ## Files with and without a report -/

theorem readProgram_write {document : Json} (h : document.Readable) :
    readProgram document.write = programOf document := by
  rw [readProgram, Json.read_write h]

theorem ofList_unifyNewlines_write {document : Json} (h : document.Readable) :
    String.ofList (Text.unifyNewlines document.write.toList) = document.write := by
  rw [Json.unifyNewlines_write h, String.ofList_toList]

/-- A program that stops at a program inside it, and one whose variable is named by no text. -/
theorem run_document_nested :
    (∃ document, document = (Node.program [.program []]).toJson ∧
      run ["--ast", "p"] (singleFile "p" document.write) "" =
        (.crash (.fault .nestedProgram), ⟨"", "", singleFile "p" document.write⟩)) ∧
    ∃ document, document = (Node.program [.identifier (.scalar (.int 1))]).toJson ∧
      Reported "p" document.write (singleFile "p" document.write)
        (run ["--ast", "p"] (singleFile "p" document.write) "") := by
  have hplain : Role.IsPlain "p" := ⟨by decide, rfl⟩
  have hload : ∀ {program : Program}, (Node.program program).Readable →
      readProgram (Node.program program).toJson.write = .ok program := by
    intro program h
    rw [readProgram_write h.toJson, programOf, Node.ofJson_toJson]
  constructor
  · have hreadable : (Node.program [.program []]).Readable :=
      .program (List.forall_mem_singleton.2 (.program (List.forall_mem_nil _)))
    obtain ⟨-, h, -⟩ := run_document _ (by decide) (find_singleFile _) (Text.Utf8.decode_encode _)
      (ofList_unifyNewlines_write hreadable.toJson).symm ""
    exact ⟨_, rfl, (h hplain).1 _ (.stuck (hload hreadable) rfl nofun)⟩
  · have hdigits : (Nat.toDigits 10 1).length ≤ Json.Reader.digitLimit := by decide
    have hname : (Json.scalar (.int 1)).Readable := .scalar hdigits
    have hreadable : (Node.program [.identifier (.scalar (.int 1))]).Readable :=
      .program (List.forall_mem_singleton.2 (.identifier hname))
    obtain ⟨-, h, hsound⟩ := run_document _ (by decide) (find_singleFile _)
      (Text.Utf8.decode_encode _) (ofList_unifyNewlines_write hreadable.toJson).symm ""
    exact ⟨_, rfl, (h hplain).2 (hsound _ (hload hreadable)
      (List.forall_mem_singleton.2 (.identifier (.int 1))))⟩

theorem run_singleFile_write {document : Json} (h : document.Readable) (input : String) :
    run ["--ast", "p"] (singleFile "p" document.write) input =
      concluded "p" (singleFile "p" document.write) (programOf document) := by
  have htext : readText (.ofString "p") ⟨"", "", singleFile "p" document.write⟩ =
      (.ok document.write, ⟨"", "", singleFile "p" document.write⟩) := by
    rw [readText_of_decode (find_singleFile _) (Text.Utf8.decode_encode _),
      ofList_unifyNewlines_write h]
  rw [run_of_readText (by decide) ⟨by decide, rfl⟩ htext, readProgram_write h]
  rfl

/-- Statements without a report: a number that is too large, a program, and a list for a name. -/
def unreportedStatements : List Json :=
  [.object [("type", .text "Number"), ("value", .scalar (.int ((10 ^ 200) ^ 2)))],
    .object [("type", .text "Program"), ("body", .array [])],
    .object [("type", .text "Identifier"), ("name", .array [])]]

theorem readable_of_mem_unreportedStatements {statement : Json}
    (h : statement ∈ unreportedStatements) : statement.Readable := by
  have hdigits : (Nat.toDigits 10 ((10 ^ 200) ^ 2)).length ≤ Json.Reader.digitLimit := by
    decide +kernel
  have hnumber : (Json.scalar (.int ((10 ^ 200) ^ 2))).Readable := .scalar hdigits
  have hlist : (Json.array []).Readable := .array (List.forall_mem_nil _)
  simp only [unreportedStatements, List.mem_cons, List.not_mem_nil, or_false] at h
  rcases h with rfl | rfl | rfl
  · exact Node.readable_object (by simp) (by simpa using hnumber)
  · exact Node.readable_object (by simp) (by simpa using hlist)
  · exact Node.readable_object (by simp) (by simpa using hlist)

/-- A document that declares two names and then has a program inside its program. The names are
different halves of surrogate pairs, so that they do not collide. -/
def halvesDocument : String :=
  "\x7b\"type\":\"Program\",\"body\":[\x7b\"type\":\"VarDeclaration\",\"name\":\"\\ud800\"\x7d," ++
    "\x7b\"type\":\"VarDeclaration\",\"name\":\"\\ud801\"\x7d," ++
    "\x7b\"type\":\"Program\",\"body\":[]\x7d]\x7d"

/-- A file without a report for each kind: a brace alone, and a program with one of the statements,
also where it comes after declarations. -/
theorem run_document_crashes :
    shown (run ["--ast", "p"] (singleFile "p" "\x7b") "") = (none, "", "") ∧
      shown (run ["--ast", "p"] (singleFile "p" halvesDocument) "") = (none, "", "") ∧
      ∀ statement ∈ unreportedStatements, ∃ document,
        document = Json.object [("type", .text "Program"), ("body", .array [statement])] ∧
          shown (run ["--ast", "p"] (singleFile "p" document.write) "") = (none, "", "") := by
  refine ⟨by decide +kernel, by decide +kernel, fun statement hstatement => ⟨_, rfl, ?_⟩⟩
  have hbody : (Json.array [statement]).Readable :=
    .array (List.forall_mem_singleton.2 (readable_of_mem_unreportedStatements hstatement))
  have hdocument :
      (Json.object [("type", .text "Program"), ("body", .array [statement])]).Readable :=
    Node.readable_object (by simp) (by simpa using hbody)
  rw [run_singleFile_write hdocument]
  simp only [unreportedStatements, List.mem_cons, List.not_mem_nil, or_false] at hstatement
  rcases hstatement with rfl | rfl | rfl
  · decide +kernel
  · decide +kernel
  · decide +kernel

end LetCalc.CommandLine.Command
