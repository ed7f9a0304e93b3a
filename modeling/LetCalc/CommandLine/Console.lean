import LetCalc.CommandLine.Disk
import LetCalc.Json.Reader
import LetCalc.Node.Document
import LetCalc.Session
import LetCalc.Text.Lines

/-!
# Console

What the command works on: the two outputs and the files. A `Shell` is a computation on a console
that may end the command, either with a status or because something happened that the command has
no report for.
-/

namespace LetCalc.CommandLine

/-- What the command has no report for. -/
inductive Crash where
  /-- A file cannot be used. -/
  | file (e : FileError)
  /-- A file is not text. -/
  | text (e : Text.Utf8.Failure)
  /-- A line cannot be written to a file. -/
  | line (e : Text.Utf8.EncodeFailure)
  /-- No document can be read from a file. -/
  | document (e : Json.ReadError)
  /-- A document holds a number that is too large. -/
  | load (e : LoadError)
  /-- A program stops for a reason that is not its own mistake. -/
  | fault (f : Fault)
  /-- The source text is given without a value. -/
  | sourceVoid
  /-- The debug file is given without a value. -/
  | debugFileVoid

/-- What happened. -/
def Crash.message : Crash → String
  | .file e => e.message
  | .text e => e.message
  | .line e => e.message
  | .document e => e.message
  | .load e => e.message
  | .fault f => f.message
  | .sourceVoid => "text must be str or bytes"
  | .debugFileVoid => "expected str, bytes or os.PathLike object, not list"

/-- How the command ends. -/
inductive Ending where
  /-- With a status. -/
  | exit (status : Nat)
  /-- For a reason it has no report for. -/
  | crash (c : Crash)

/-- What the command works on. -/
structure Console where
  /-- What was written to standard output. -/
  output : String
  /-- What was written to standard error. -/
  errors : String
  /-- The files. -/
  disk : Disk

/-- A computation on a console that may end the command. -/
abbrev Shell := ExceptT Ending (StateM Console)

namespace Shell

/-- Writes to standard output. -/
def print (s : String) : Shell Unit := modify fun c => { c with output := c.output ++ s }

/-- Writes a line to standard error. -/
def complain (line : String) : Shell Unit :=
  modify fun c => { c with errors := c.errors ++ line ++ "\n" }

/-- Ends the command with a status. -/
def exit {α : Type} (status : Nat) : Shell α := throw (.exit status)

/-- Ends the command with a crash, if there is one. -/
def orCrash {ε α : Type} (crash : ε → Crash) : Except ε α → Shell α
  | .ok a => pure a
  | .error e => throw (.crash (crash e))

/-- The text of a file. Its lines end in line feeds. A file that does not exist is reported. -/
def readText (path : Path) : Shell String := do
  let disk := (← get).disk
  match disk.find path.text with
  | .error cause =>
    if cause = .nameTooLong then throw (.crash (.file ⟨cause, path.text⟩))
    else
      complain s!"Error: file {path.text} not found"
      exit 1
  | .ok _ =>
    let content ← orCrash .file (disk.read path.text)
    let text ← orCrash .text (Text.Utf8.decode content)
    return String.ofList (Text.unifyNewlines text.toList)

/-- Writes a text file. -/
def writeText (name : String) (text : String) : Shell Unit := do
  let disk ← orCrash .file ((← get).disk.write name (Text.Utf8.encode text))
  modify fun c => { c with disk }

/-- A program, or a report of why the source text is none. -/
def parse (source : String) : Shell (Option Program) :=
  match Program.parse source with
  | .ok program => return some program
  | .error e => do
    complain s!"Parse error: {e.span.locate e.message}"
    return none

end Shell

end LetCalc.CommandLine
