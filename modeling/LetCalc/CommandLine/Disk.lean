import LetCalc.Text.Quoted
import LetCalc.Text.Utf8

/-!
# Files

A `Path` is a file name in normal form, as messages show it. A `Disk` holds files and directories
under their full paths, together with a working directory. Finding a file walks a name part by
part, and says why it fails where it does.
-/

namespace LetCalc.CommandLine

/-- The parts of a name between slashes. -/
def segments : List Char → List (List Char)
  | [] => [[]]
  | c :: rest =>
    if c = '/' then [] :: segments rest
    else match segments rest with
      | [] => [[c]]
      | first :: more => (c :: first) :: more

/-- A file name without empty parts and parts that stay where they are. -/
structure Path where
  /-- The slashes at the start. -/
  root : String
  /-- The parts. -/
  parts : List String
deriving DecidableEq, Repr

namespace Path

/-- A name in normal form. Two slashes at the start are kept, more count as one. -/
def ofString (s : String) : Path where
  root :=
    match (s.toList.takeWhile (· = '/')).length with
    | 0 => ""
    | 2 => "//"
    | _ => "/"
  parts := ((segments s.toList).filter fun p => p ≠ [] ∧ p ≠ ['.']).map String.ofList

/-- A name as text. -/
def text (p : Path) : String :=
  if p.root.isEmpty && p.parts.isEmpty then "." else p.root ++ "/".intercalate p.parts

/-- The name with an ending added to its last part. -/
def addEnding (p : Path) (ending : String) : Path :=
  { p with parts := p.parts.dropLast ++ [p.parts.getLastD "" ++ ending] }

end Path

/-- Why a file cannot be used. -/
inductive FileError.Cause where
  | notFound
  | notADirectory
  | isADirectory
  | nameTooLong
  /-- The name holds a character that no name can hold. -/
  | embeddedNull
deriving DecidableEq, Repr

/-- A file that cannot be used. -/
structure FileError where
  /-- Why not. -/
  cause : FileError.Cause
  /-- Its name as it was given. -/
  name : String
deriving DecidableEq, Repr

/-- The message for a file that cannot be used. -/
def FileError.message (e : FileError) : String :=
  match e.cause with
  | .notFound => s!"[Errno 2] No such file or directory: {Text.quoted e.name}"
  | .notADirectory => s!"[Errno 20] Not a directory: {Text.quoted e.name}"
  | .isADirectory => s!"[Errno 21] Is a directory: {Text.quoted e.name}"
  | .nameTooLong => s!"[Errno 36] File name too long: {Text.quoted e.name}"
  | .embeddedNull => "embedded null byte"

/-- What a full path leads to. -/
inductive Entry where
  | directory
  | file (content : List UInt8)
deriving DecidableEq, Repr

/-- Files and directories under their full paths. -/
structure Disk where
  /-- The directory where names without a leading slash start. -/
  workingDirectory : List String
  /-- Everything there is; the directories around an entry need not be listed. -/
  entries : List (List String × Entry)
deriving DecidableEq, Repr

namespace Disk

/-- What a full path leads to. -/
def entry? (d : Disk) (path : List String) : Option Entry :=
  match d.entries.find? (·.1 = path) with
  | some found => some found.2
  | none =>
    if path.isPrefixOf d.workingDirectory || d.entries.any (path.isPrefixOf ·.1) then
      some .directory
    else none

/-- A full path, provided that it leads to a directory. -/
def enter (d : Disk) (path : List String) : Except FileError.Cause (List String) :=
  match d.entry? path with
  | none => .error .notFound
  | some (.file _) => .error .notADirectory
  | some .directory => .ok path

/-- Follows the parts of a name from a directory, and gives the full path. -/
def walk (d : Disk) (path : List String) : List String → Except FileError.Cause (List String)
  | [] => .ok path
  | part :: rest => do
    let directory ← d.enter path
    -- Above the topmost directory is that directory again.
    if part = ".." then d.walk directory.dropLast rest
    else if 255 < part.utf8ByteSize then throw .nameTooLong
    else d.walk (directory ++ [part]) rest

/-- Where a name starts and which parts it has. -/
def start (d : Disk) (name : String) : Except FileError.Cause (List String × List String) :=
  if name.toList.contains '\x00' then .error .embeddedNull
  -- The end of a name counts as one more byte.
  else if 4096 ≤ name.utf8ByteSize then .error .nameTooLong
  else if name.isEmpty then .error .notFound
  else
    let path := Path.ofString name
    .ok (if path.root.isEmpty then d.workingDirectory else [], path.parts)

/-- What a name leads to. -/
def find (d : Disk) (name : String) : Except FileError.Cause Entry := do
  let (path, parts) ← d.start name
  match d.entry? (← d.walk path parts) with
  | some entry => return entry
  | none => throw .notFound

/-- The content of a file. -/
def read (d : Disk) (name : String) : Except FileError (List UInt8) :=
  match d.find name with
  | .ok (.file content) => .ok content
  | .ok .directory => .error ⟨.isADirectory, name⟩
  | .error cause => .error ⟨cause, name⟩

/-- Whether the last part of a name leads from a directory to a directory whatever is there: it
stays, goes up, or there is none. -/
def endsInStep (name : List Char) : Bool :=
  match ((segments name).filter (· ≠ [])).getLast? with
  | some part => part = ['.'] || part = ['.', '.']
  | none => true

/-- The full path of a file that is to be written. It need not exist, but its directory has to. A
name that ends in a slash can only be a directory, whose own name is not looked at any more. -/
def target (d : Disk) (name : String) : Except FileError.Cause (List String) := do
  let (path, parts) ← d.start name
  if endsInStep name.toList then
    let _ ← d.enter (← d.walk path parts)
    throw .isADirectory
  else if name.toList.getLast? = some '/' then
    let _ ← d.enter (← d.walk path parts.dropLast)
    throw .isADirectory
  else
    let file ← d.walk path parts
    if d.entry? file = some .directory then throw .isADirectory else return file

/-- The disk with a file at a full path. -/
def put (d : Disk) (path : List String) (content : List UInt8) : Disk :=
  { d with entries := (path, .file content) :: d.entries.filter (·.1 ≠ path) }

/-- Writes a file, in place of what was in it before. -/
def write (d : Disk) (name : String) (content : List UInt8) : Except FileError Disk :=
  match d.target name with
  | .ok path => .ok (d.put path content)
  | .error cause => .error ⟨cause, name⟩

/-- The files of the working directory that are not the same on an earlier disk. -/
def changesSince (d before : Disk) : List (String × List UInt8) :=
  d.entries.filterMap fun (path, entry) =>
    match entry with
    | .file content =>
      if d.workingDirectory.isPrefixOf path && before.entry? path != some entry then
        some ("/".intercalate (path.drop d.workingDirectory.length), content)
      else none
    | .directory => none

end Disk

end LetCalc.CommandLine
