import LetCalc.CommandLine.Console
import LetCalc.CommandLine.Options
import LetCalc.Json.Printer
import LetCalc.Text.Blank

/-!
# The command

The command evaluates a program and prints its value, or writes a program as a document. The
program is given as a file, as text, or as a document; without any, lines are read one by one and
evaluated in one scope, which keeps its names from line to line.

* `Command.run`: everything a call of the command does, from its arguments, its standard input and
  the files there are.
-/

namespace LetCalc.CommandLine

namespace Command

/-- Events as the lines of a text file. -/
def log (trace : List Event) : String := String.join (trace.map fun e => e.text ++ "\n")

/-- Hands over the reports of an evaluation, to the debug file or to standard error. The first line
that cannot be written to a file ends the command; the lines before it are in the file then. -/
def report (debugFile : Setting) (trace : List Event) : Shell Unit :=
  match debugFile with
  | .text name => do
    Shell.writeText name (log (trace.takeWhile (·.encodeFailure?.isNone)))
    match trace.findSome? Event.encodeFailure? with
    | none => return ()
    | some failure => throw (.crash (.line failure))
  | .void => throw (.crash .debugFileVoid)
  | .absent => trace.forM fun e => Shell.complain e.text

/-- Evaluates a program in scope 0 and prints its value, or reports the mistake. The debug file is
written anew for each evaluation, and before it, so that a file that cannot be written prevents
it. -/
def evaluate (options : Options) (program : Program) (forest : Forest) :
    Shell (Bool × Forest) := do
  let debugFile := if 0 < options.verbosity then options.debugFile else .absent
  report debugFile []
  let outcome := program.evaluate options.verbosity 0 forest
  report debugFile outcome.trace
  match outcome.result with
  | .ok value =>
    Shell.print (value.text ++ "\n")
    return (true, outcome.forest)
  | .error (.error e) =>
    Shell.complain s!"Runtime error: {e.message}"
    return (false, outcome.forest)
  | .error fault => throw (.crash (.fault fault))

/-- Writes a program as a document beside its file, and prints the name of the new file. -/
def emit (file : String) : Shell Unit := do
  let path := Path.ofString file
  match ← Shell.parse (← Shell.readText path) with
  | none => Shell.exit 1
  | some program =>
    let target := (path.addEnding ".ast.json").text
    Shell.writeText target (Json.write (Node.program program).toJson)
    Shell.print (target ++ "\n")

/-- The program that a document file holds. -/
def loadDocument (file : String) : Shell Program := do
  let path := Path.ofString file
  let document ← Shell.orCrash .document (Json.read (← Shell.readText path))
  let refuse (reason : String) : Shell Program := do
    Shell.complain s!"Error: invalid AST file {path.text}: {reason}"
    Shell.exit 1
  match Node.ofJson document with
  | .ok (.program body) => return body
  | .ok _ => refuse "top-level node is not a Program"
  | .error .numberTooLarge => throw (.crash (.load .numberTooLarge))
  | .error e => refuse e.message

/-- Evaluates a program in a new scope; a mistake gives the status 1. -/
def evaluateOnce (options : Options) (program : Program) : Shell Unit := do
  let (succeeded, _) ← evaluate options program .single
  if succeeded then return () else Shell.exit 1

/-- Evaluates a source text. -/
def evaluateSource (options : Options) (source : String) : Shell Unit := do
  match ← Shell.parse source with
  | none => Shell.exit 1
  | some program => evaluateOnce options program

/-- Works on one line: gives the scopes after it, or nothing if the line asks to stop. -/
def line (options : Options) (forest : Forest) (text : List Char) : Shell (Option Forest) := do
  let trimmed := Text.trim text
  if trimmed = "exit".toList then return none
  else if trimmed = [] then return some forest
  else
    match ← Shell.parse (String.ofList text) with
    | none => return some forest
    | some program => return some (← evaluate options program forest).2

/-- Works on lines until one asks to stop. Every line is asked for, also the one that is not
there. -/
def lines (options : Options) (forest : Forest) : List (List Char) → Shell Unit
  | [] => Shell.print "> "
  | text :: rest => do
    Shell.print "> "
    match ← line options forest text with
    | none => return ()
    | some forest => lines options forest rest

/-- A file name, unless it is empty. -/
def given? (name : Option String) : Option String := name.filter (· ≠ "")

/-- What the options ask for. -/
inductive Task where
  | emit (file : String)
  | evaluateDocument (file : String)
  | evaluateSource (source : String)
  /-- The source text to evaluate is given without a value. -/
  | evaluateVoid
  | evaluateFile (file : String)
  | readLines
deriving DecidableEq, Repr

/-- The task that options give. -/
def task (options : Options) : Task :=
  match given? options.emitFile.text?, given? options.documentFile.text?, options.source,
    given? options.programFile with
  | some file, _, _, _ => .emit file
  | none, some file, _, _ => .evaluateDocument file
  | none, none, .text source, _ => .evaluateSource source
  | none, none, .void, _ => .evaluateVoid
  | none, none, .absent, some file => .evaluateFile file
  | none, none, .absent, none => .readLines

/-- Does what the options ask for. -/
def perform (options : Options) (input : String) : Shell Unit :=
  match task options with
  | .emit file => emit file
  | .evaluateDocument file => do evaluateOnce options (← loadDocument file)
  | .evaluateSource source => evaluateSource options source
  | .evaluateVoid => throw (.crash .sourceVoid)
  | .evaluateFile file => do evaluateSource options (← Shell.readText (.ofString file))
  | .readLines => lines options .single (Text.lines input.toList)

/-- A whole call of the command. -/
def call (arguments : List String) (input : String) : Shell Unit := do
  match Options.read arguments with
  | .ok options => perform options input
  | .error .help => Shell.print Options.help
  | .error (.usage e) =>
    modify fun c => { c with errors := c.errors ++ Options.usage }
    Shell.complain s!"letlang: error: {e.message}"
    Shell.exit 2

/-- How a call of the command ends, and the console after it. -/
def run (arguments : List String) (disk : Disk) (input : String) : Ending × Console :=
  match call arguments input ⟨"", "", disk⟩ with
  | (.ok (), console) => (.exit 0, console)
  | (.error ending, console) => (ending, console)

end Command

end LetCalc.CommandLine
