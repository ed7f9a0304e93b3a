import LetCalc.CommandLine.Command

/-!
# The program

The command on real files and streams. All decisions are in `Command`; this module takes a picture
of the files that are named, hands it over, and carries out what comes back. Lines are read and
answered one at a time.
-/

namespace LetCalc.Main

open CommandLine

/-- The file names in the options. -/
def namedFiles (options : Options) : List String :=
  let given := [options.debugFile.text?, options.emitFile.text?, options.documentFile.text?,
    options.programFile]
  (given.filterMap id).flatMap fun name =>
    [name, ((Path.ofString name).addEnding ".ast.json").text]

/-- A picture of the files with the given names, and of the directories they are in. -/
def picture (names : List String) : IO Disk := do
  let here ← IO.currentDir
  let workingDirectory := (Path.ofString here.toString).parts
  let mut entries := []
  for name in names do
    let path := Path.ofString name
    let base := if path.root.isEmpty then workingDirectory else []
    for size in List.range (path.parts.length + 1) do
      let part : Path := { path with parts := path.parts.take size }
      let place := here / part.text
      if ← place.isDir then entries := (base ++ part.parts, Entry.directory) :: entries
      else if ← place.pathExists then
        let content ← IO.FS.readBinFile place
        entries := (base ++ part.parts, Entry.file content.toList) :: entries
  return ⟨workingDirectory, entries⟩

/-- Shows what was written, and stores the files that are not as they were before. -/
def deliver (before : Disk) (console : Console) : IO Unit := do
  (← IO.getStdout).putStr console.output
  (← IO.getStderr).putStr console.errors
  (← IO.getStdout).flush
  for (path, entry) in console.disk.entries do
    if let .file content := entry then
      if before.entry? path != some entry then
        IO.FS.writeBinFile ("/" ++ "/".intercalate path) ⟨content.toArray⟩

/-- The status of an ending; a crash is told on standard error. -/
def statusOf : Ending → IO UInt32
  | .exit status => return status.toUInt32
  | .crash c => do
    (← IO.getStderr).putStrLn c.message
    return 1

/-- Reads and answers lines until one asks to stop or there are no more. -/
partial def converse (options : Options) (forest : Forest) (disk : Disk) : IO UInt32 := do
  (← IO.getStdout).putStr "> "
  (← IO.getStdout).flush
  let text ← (← IO.getStdin).getLine
  if text.isEmpty then return 0
  -- What was read ends at the first line feed, so that it is one line.
  let line := (Text.lines text.toList).headD []
  let (result, console) := Command.line options forest line ⟨"", "", disk⟩
  deliver disk console
  match result with
  | .ok (some forest) => converse options forest console.disk
  | .ok none => return 0
  | .error ending => statusOf ending

/-- The command with its arguments. -/
def start (arguments : List String) : IO UInt32 := do
  match Options.read arguments with
  | .ok options =>
    let disk ← picture (namedFiles options)
    if Command.task options = .readLines then converse options .single disk
    else
      let (ending, console) := Command.run arguments disk ""
      deliver disk console
      statusOf ending
  | .error _ =>
    let (ending, console) := Command.run arguments ⟨[], []⟩ ""
    deliver ⟨[], []⟩ console
    statusOf ending

end LetCalc.Main

/-- The command. -/
def main (arguments : List String) : IO UInt32 := LetCalc.Main.start arguments
