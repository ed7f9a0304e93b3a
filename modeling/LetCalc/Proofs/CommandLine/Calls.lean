import LetCalc.CommandLine.Command

/-!
# How calls are carried out

What single steps of a call do to the console, and which steps a call with given options consists
of.

* `Shell.bind_of_ok`, `Shell.bind_of_error`: a step followed by others.
* `Shell.readText_cases`, `Shell.writeText_cases`: what reading and writing a file can come to.
* `Command.loadDocument_apply`: what loading a document can come to.
* `Command.run_congr`: a call does what its options ask for.
-/

namespace LetCalc.CommandLine

namespace Shell

variable {α β : Type} {c c' : Console}

theorem bind_of_ok {x : Shell α} {a : α} (h : x c = (.ok a, c')) (f : α → Shell β) :
    (x >>= f) c = f a c' := by
  change (match x c with | (a, c) => ExceptT.bindCont f a c) = _
  rw [h]
  rfl

theorem bind_of_error {x : Shell α} {e : Ending} (h : x c = (.error e, c')) (f : α → Shell β) :
    (x >>= f) c = (.error e, c') := by
  change (match x c with | (a, c) => ExceptT.bindCont f a c) = _
  rw [h]
  rfl

/-- A file that is found is read. -/
theorem readText_of_find {path : Path} {entry : Entry} (h : c.disk.find path.text = .ok entry) :
    readText path c = (do
      let content ← orCrash .file (c.disk.read path.text)
      let text ← orCrash .text (Text.Utf8.decode content)
      return String.ofList (Text.unifyNewlines text.toList) : Shell String) c := by
  rw [readText, bind_of_ok (x := get) rfl, h]

/-- The text of a file that is there and is text. -/
theorem readText_of_decode {path : Path} {content : List UInt8} {text : String}
    (hfind : c.disk.find path.text = .ok (.file content))
    (hdecode : Text.Utf8.decode content = .ok text) :
    readText path c = (.ok (String.ofList (Text.unifyNewlines text.toList)), c) := by
  have hread : c.disk.read path.text = .ok content := by rw [Disk.read, hfind]
  rw [readText_of_find hfind, hread, bind_of_ok (by rfl), hdecode]
  rfl

/-- Reading a file gives its text, or ends the command with something other than success. -/
theorem readText_cases (path : Path) (c : Console) :
    (∃ content text, c.disk.find path.text = .ok (.file content) ∧
      Text.Utf8.decode content = .ok text) ∨
      ∃ e c', readText path c = (.error e, c') ∧ e ≠ .exit 0 := by
  cases hfind : c.disk.find path.text with
  | error cause =>
    refine .inr ?_
    rw [readText, bind_of_ok (x := get) rfl, hfind]
    dsimp only
    split
    · exact ⟨_, _, rfl, by simp⟩
    · exact ⟨_, _, rfl, by simp⟩
  | ok entry =>
    cases entry with
    | directory =>
      have hread : c.disk.read path.text = .error ⟨.isADirectory, path.text⟩ := by
        rw [Disk.read, hfind]
      refine .inr ⟨.crash (.file ⟨.isADirectory, path.text⟩), c, ?_, by simp⟩
      rw [readText_of_find hfind, hread]
      rfl
    | file content =>
      cases hdecode : Text.Utf8.decode content with
      | ok text => exact .inl ⟨content, text, rfl, hdecode⟩
      | error e =>
        have hread : c.disk.read path.text = .ok content := by rw [Disk.read, hfind]
        refine .inr ⟨.crash (.text e), c, ?_, by simp⟩
        rw [readText_of_find hfind, hread, bind_of_ok (by rfl), hdecode]
        rfl

theorem eq_of_readText {path : Path} {text : String} (h : readText path c = (.ok text, c')) :
    c' = c := by
  rcases readText_cases path c with ⟨content, found, hfind, hdecode⟩ | ⟨e, c'', herror, -⟩
  · exact (congrArg Prod.snd ((readText_of_decode hfind hdecode).symm.trans h)).symm
  · exact nomatch h.symm.trans herror

/-- A file is written, or the command crashes. -/
theorem writeText_cases (name text : String) (c : Console) :
    (∃ disk, c.disk.write name (Text.Utf8.encode text) = .ok disk ∧
      writeText name text c = (.ok (), { c with disk })) ∨
      ∃ e, writeText name text c = (.error (.crash e), c) := by
  rw [writeText]
  change (∃ disk, _ ∧ (orCrash .file (c.disk.write name (Text.Utf8.encode text)) >>= _) c = _) ∨
    ∃ e, (orCrash .file (c.disk.write name (Text.Utf8.encode text)) >>= _) c = _
  cases c.disk.write name (Text.Utf8.encode text) with
  | ok disk => exact .inl ⟨disk, rfl, rfl⟩
  | error e => exact .inr ⟨.file e, rfl⟩

theorem parse_of_ok {source : String} {program : Program} (h : Program.parse source = .ok program)
    (c : Console) : parse source c = (.ok (some program), c) := by
  rw [parse, h]
  rfl

theorem parse_of_error {source : String} {e : ParseError} (h : Program.parse source = .error e)
    (c : Console) : ∃ c', parse source c = (.ok none, c') := by
  rw [parse, h]
  exact ⟨_, rfl⟩

end Shell

namespace Command

open Shell

variable {c c' : Console}

/-! ## Documents -/

/-- Why the text of a document gives no program. -/
inductive Refusal where
  /-- For a reason that is reported. -/
  | reported (reason : String)
  /-- For one that there is no report for. -/
  | crash (crash : Crash)

/-- The program that a document gives. -/
def programOf (document : Json) : Except Refusal Program :=
  match Node.ofJson document with
  | .ok (.program body) => .ok body
  | .ok _ => .error (.reported "top-level node is not a Program")
  | .error .numberTooLarge => .error (.crash (.load .numberTooLarge))
  | .error e => .error (.reported e.message)

/-- The program that the text of a document gives. -/
def readProgram (text : String) : Except Refusal Program :=
  match Json.read text with
  | .error e => .error (.crash (.document e))
  | .ok document => programOf document

/-- Loading a document only reads, and reports what it has a report for. -/
theorem loadDocument_apply {name text : String}
    (htext : readText (.ofString name) c = (.ok text, c)) :
    loadDocument name c =
      match readProgram text with
      | .ok program => (.ok program, c)
      | .error (.reported reason) =>
        (.error (.exit 1), { c with
          errors := c.errors ++ s!"Error: invalid AST file {(Path.ofString name).text}: {reason}" ++
            "\n" })
      | .error (.crash crash) => (.error (.crash crash), c) := by
  rw [loadDocument, bind_of_ok htext, readProgram]
  cases Json.read text with
  | error e => rfl
  | ok document =>
    rw [bind_of_ok (by rfl)]
    dsimp only [programOf]
    cases Node.ofJson document with
    | ok node => cases node <;> rfl
    | error e => cases e <;> rfl

theorem eq_of_loadDocument {name : String} {program : Program}
    (h : loadDocument name c = (.ok program, c')) : c' = c := by
  rcases htext : readText (.ofString name) c with ⟨text | text, d⟩
  · rw [loadDocument, bind_of_error htext] at h
    exact nomatch h
  · obtain rfl := eq_of_readText htext
    rw [loadDocument_apply htext] at h
    split at h
    · exact (congrArg Prod.snd h).symm
    · exact nomatch h
    · exact nomatch h

/-- The program of a document is loaded. -/
theorem loadDocument_of_read {name text : String} {document : Json} {program : Program}
    (htext : readText (.ofString name) c = (.ok text, c))
    (hdocument : Json.read text = .ok document)
    (hprogram : Node.ofJson document = .ok (.program program)) :
    loadDocument name c = (.ok program, c) := by
  rw [loadDocument_apply htext, readProgram, hdocument]
  dsimp only [programOf]
  rw [hprogram]

/-! ## What options ask for -/

/-- Calls are the same if what their options ask for is. -/
theorem run_congr {arguments arguments' : List String} {options options' : Options} {disk : Disk}
    {input : String} (h : Options.read arguments = .ok options)
    (h' : Options.read arguments' = .ok options')
    (hperform : perform options input ⟨"", "", disk⟩ = perform options' input ⟨"", "", disk⟩) :
    run arguments disk input = run arguments' disk input := by
  simp only [run, call, h, h', hperform]

theorem given?_of_ne {name : String} (h : name ≠ "") : given? (some name) = some name := by
  simp [given?, h]

theorem perform_emit {file : String} (h : file ≠ "") (input : String) :
    perform { emitFile := .text file } input = emit file := by
  rw [perform, task]
  dsimp only [Setting.text?]
  rw [given?_of_ne h]

/-- Only the verbosity matters for the evaluation of a document. -/
theorem perform_document {name : String} (h : name ≠ "") (verbosity : Nat) (input : String) :
    perform { verbosity, documentFile := .text name } input =
      (do evaluateOnce { verbosity } (← loadDocument name)) := by
  rw [perform, task]
  dsimp only [Setting.text?]
  rw [given?_of_ne h]
  rfl

theorem perform_program {file : String} (h : file ≠ "") (verbosity : Nat) (input : String) :
    perform { verbosity, programFile := some file } input =
      (do evaluateSource { verbosity } (← readText (.ofString file))) := by
  rw [perform, task]
  dsimp only [Setting.text?]
  rw [given?_of_ne h]
  rfl

/-! ## What is left of a call -/

/-- The status that a call ends with, if it does not crash. -/
def status? : Ending → Option Nat
  | .exit status => some status
  | .crash _ => none

/-- What a call shows: its status and both outputs. -/
def shown (result : Ending × Console) : Option Nat × String × String :=
  (status? result.1, result.2.output, result.2.errors)

theorem eq_exit_of_status? {result : Ending × Console} {status : Nat}
    (h : status? result.1 = some status) : result = (.exit status, result.2) := by
  obtain ⟨ending, console⟩ := result
  cases ending with
  | exit found => rw [Option.some.inj h]
  | crash e => exact nomatch h

/-- A disk with a single file. -/
def singleFile (name source : String) : Disk :=
  ⟨["home"], [(["home", name], .file (Text.Utf8.encode source))]⟩

theorem find_singleFile (text : String) :
    Disk.find (singleFile "p" text) (Path.ofString "p").text =
      .ok (.file (Text.Utf8.encode text)) := rfl

end Command

end LetCalc.CommandLine
