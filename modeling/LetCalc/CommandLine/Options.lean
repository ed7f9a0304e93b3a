import LetCalc.Text.DecimalDigit
import LetCalc.Text.Quoted

/-!
# Options

The arguments of the command. Options may stand anywhere, long ones may be shortened as long as
they stay unique, and short ones may be joined in one argument. A value follows its option or is
attached to it. After the separator `--` nothing is an option any more. At most one program file
may be given, and at most one of the options that name what to work on.

These conventions have more than one edition, and the earlier one is followed where they differ:

* In options that are joined, the value starts right after its option, so that `-ve=1` gives the
  source `=1`. Only a first option can have an equals sign before its value.
* A separator that is attached to an option is not taken for its value: `-e--` gives no source.
* If what is attached to an option without a value is no option, all of the argument is refused and
  nothing in it takes effect: `-h x` in one argument is wrong, and no request for help.

The later edition reads these arguments as the source `1`, the source `--` and a request for help.

* `Options.read`: the options that arguments give, or why they give none.
-/

namespace LetCalc.CommandLine

/-- An option. -/
inductive Flag where
  | help
  | verbose
  | debugFile
  | source
  | emit
  | document
deriving DecidableEq, Repr

namespace Flag

/-- The ways to write options, in the order of the help text. -/
def spellings : List (String × Flag) :=
  [("-h", .help), ("--help", .help), ("-v", .verbose), ("--debug-file", .debugFile),
    ("-e", .source), ("--emit-ast", .emit), ("--ast", .document)]

/-- The option that is written in a given way. -/
def ofSpelling? (s : List Char) : Option Flag :=
  (spellings.find? (·.1.toList = s)).map (·.2)

/-- An option as messages name it. -/
def title (f : Flag) : String := "/".intercalate ((spellings.filter (·.2 = f)).map (·.1))

/-- Whether an option comes with a value. -/
def takesValue : Flag → Bool
  | .help => false
  | .verbose => false
  | _ => true

/-- Whether an option names what to work on, which only one option may do. -/
def isExclusive : Flag → Bool
  | .source => true
  | .emit => true
  | .document => true
  | _ => false

end Flag

/-- What is wrong with arguments. -/
inductive UsageError where
  | ambiguous (argument : String) (candidates : List String)
  | valueMissing (flag : Flag)
  | valueIgnored (flag : Flag) (value : String)
  | conflict (flag other : Flag)
  | unrecognized (arguments : List String)
deriving DecidableEq, Repr

/-- The message for wrong arguments. -/
def UsageError.message : UsageError → String
  | .ambiguous argument candidates =>
    "ambiguous option: " ++ argument ++ " could match " ++ ", ".intercalate candidates
  | .valueMissing flag => s!"argument {flag.title}: expected one argument"
  | .valueIgnored flag value =>
    s!"argument {flag.title}: ignored explicit argument {Text.quoted value}"
  | .conflict flag other => s!"argument {flag.title}: not allowed with argument {other.title}"
  | .unrecognized arguments => "unrecognized arguments: " ++ " ".intercalate arguments

/-- Why arguments give no options. -/
inductive Stop where
  /-- The help text is asked for. -/
  | help
  /-- The arguments are wrong. -/
  | usage (e : UsageError)
deriving DecidableEq, Repr

/-- The part of an argument. -/
inductive Role where
  /-- A file, or the value of an option. -/
  | plain
  /-- The end of the options. -/
  | separator
  /-- An option. Short options may have others, or a value, attached right to them. -/
  | option (flag : Flag) (short : Bool) (attached : Option (List Char))
  /-- Something that looks like an option. -/
  | unknown
deriving DecidableEq, Repr

namespace Role

/-- Whether an argument is a negative number, which is not an option. A line feed may follow. -/
def isNegativeNumber (cs : List Char) : Bool :=
  let isDigit := fun c => (Text.digitValue? c).isSome
  let digits := if cs.getLast? = some '\n' then cs.dropLast else cs
  match digits with
  | '-' :: digits =>
    match digits.dropWhile isDigit with
    | [] => !digits.isEmpty
    | '.' :: fraction => !fraction.isEmpty && fraction.all isDigit
    | _ => false
  | _ => false

/-- The options that the start of an argument may stand for, each with what is attached to it. -/
def candidates (cs : List Char) : List (String × Role) :=
  let long := "--".toList.isPrefixOf cs
  let name := if long then cs.takeWhile (· ≠ '=') else cs.take 2
  let attached := if long then (cs.dropWhile (· ≠ '=')).tail? else some (cs.drop 2)
  let fits := fun s : String × Flag =>
    -- Long options may be shortened, short ones may not.
    if long then name.isPrefixOf s.1.toList else s.1.toList = name
  (Flag.spellings.filter fits).map fun s => (s.1, .option s.2 (!long) attached)

/-- The part of an argument before any separator. -/
def classify (argument : String) : Except UsageError Role :=
  let cs := argument.toList
  let name := cs.takeWhile (· ≠ '=')
  if cs.head? ≠ some '-' then .ok .plain
  else match Flag.ofSpelling? cs, Flag.ofSpelling? name with
    | some flag, _ => .ok (.option flag (cs.length = 2) none)
    | none, some flag => .ok (.option flag (name.length = 2) (cs.dropWhile (· ≠ '=')).tail?)
    | none, none =>
      if cs.length = 1 then .ok .plain
      else match candidates cs with
        | [] => .ok (if isNegativeNumber cs || cs.contains ' ' then .plain else .unknown)
        | [(_, role)] => .ok role
        | several => .error (.ambiguous argument (several.map (·.1)))

/-- The arguments with their parts. -/
def classifyAll : List String → Except UsageError (List (String × Role))
  | [] => .ok []
  | argument :: rest =>
    if argument = "--" then .ok ((argument, .separator) :: rest.map (·, .plain))
    else do
      let role ← classify argument
      return (argument, role) :: (← classifyAll rest)

end Role

/-- What the value of an option is known to be. -/
inductive Setting where
  /-- The option is not given. -/
  | absent
  /-- The option is given, with a separator in the place of its value. -/
  | void
  /-- The option is given with this value. -/
  | text (value : String)
deriving DecidableEq, Repr

/-- The value of an option, if it has one. -/
def Setting.text? : Setting → Option String
  | .text value => some value
  | _ => none

/-- The options of the command. -/
structure Options where
  /-- How much is reported while evaluating. -/
  verbosity : Nat := 0
  /-- The file that reports go to. -/
  debugFile : Setting := .absent
  /-- A source text to evaluate. -/
  source : Setting := .absent
  /-- A program file to write as a document. -/
  emitFile : Setting := .absent
  /-- A document to evaluate. -/
  documentFile : Setting := .absent
  /-- A program file to evaluate. -/
  programFile : Option String := none
deriving DecidableEq, Repr

namespace Options

/-- The options read so far. -/
structure Progress where
  /-- The options. -/
  options : Options := {}
  /-- The exclusive option that was given. -/
  exclusive : Option Flag := none
  /-- Whether the place of the program file is taken. -/
  hasProgram : Bool := false
  /-- The arguments that nothing could be done with. -/
  extras : List String := []

namespace Progress

/-- Leaves an argument aside. -/
def leave (p : Progress) (argument : String) : Progress :=
  { p with extras := p.extras ++ [argument] }

/-- Takes the program file. -/
def takeProgram (p : Progress) (file : Option String) : Progress :=
  { p with options := { p.options with programFile := file }, hasProgram := true }

/-- Applies an option without a value. -/
def switch (p : Progress) : Flag → Except Stop Progress
  | .help => .error .help
  | _ => .ok { p with options := { p.options with verbosity := p.options.verbosity + 1 } }

/-- Stores the value of an option. -/
def store (options : Options) (value : Setting) : Flag → Options
  | .debugFile => { options with debugFile := value }
  | .source => { options with source := value }
  | .emit => { options with emitFile := value }
  | .document => { options with documentFile := value }
  | _ => options

/-- Applies an option with a value, unless another exclusive option was given before. -/
def give (p : Progress) (flag : Flag) (value : Setting) : Except Stop Progress :=
  let options := store p.options value flag
  if flag.isExclusive then
    match p.exclusive with
    | some other =>
      if other = flag then .ok { p with options } else .error (.usage (.conflict flag other))
    | none => .ok { p with options, exclusive := some flag }
  else .ok { p with options }

end Progress

/-- The options joined in one argument: those without a value, the last one, and the value attached
to it. -/
def cluster (flag : Flag) (short : Bool) (attached : List Char) :
    Except UsageError (List Flag × Flag × Setting) :=
  if flag.takesValue then
    -- A separator is never a value.
    .ok ([], flag, if attached = ['-', '-'] then .void else .text (String.ofList attached))
  else match attached with
    | [] => .error (.valueIgnored flag "")
    | c :: rest =>
      match if short then Flag.ofSpelling? ['-', c] else none with
      | none => .error (.valueIgnored flag (String.ofList attached))
      | some next =>
        if rest.isEmpty then .ok ([flag], next, .absent)
        else do
          let (before, last, value) ← cluster next true rest
          return (flag :: before, last, value)

/-- Reads arguments from left to right. -/
def scan : List (String × Role) → Progress → Except Stop Progress
  | [], p => .ok p
  | (argument, .unknown) :: rest, p => scan rest (p.leave argument)
  | (argument, .plain) :: rest, p =>
    if p.hasProgram then scan rest (p.leave argument)
    else match rest with
      -- A separator right after the program file belongs to it.
      | (_, .separator) :: rest => scan rest (p.takeProgram (some argument))
      | rest => scan rest (p.takeProgram (some argument))
  | (argument, .separator) :: rest, p =>
    if p.hasProgram then scan rest (p.leave argument)
    else match rest with
      | (argument, _) :: rest => scan rest (p.takeProgram (some argument))
      | [] => .ok (p.takeProgram none)
  | (_, .option flag short attached) :: rest, p => do
    let (before, last, value) ←
      (attached.elim (.ok ([], flag, .absent)) (cluster flag short)).mapError Stop.usage
    -- Nothing takes effect before all options of the argument are known to be right.
    let switched := before.foldlM Progress.switch p
    if last.takesValue then
      match value, rest with
      | .absent, (value, .plain) :: rest => scan rest (← (← switched).give last (.text value))
      | .absent, _ => .error (.usage (.valueMissing last))
      | value, rest => scan rest (← (← switched).give last value)
    else scan rest (← (← switched).switch last)
termination_by arguments => arguments.length

/-- The options that arguments give. -/
def read (arguments : List String) : Except Stop Options := do
  let classified ← (Role.classifyAll arguments).mapError Stop.usage
  let p ← scan classified {}
  if p.extras.isEmpty then return p.options
  else throw (.usage (.unrecognized p.extras))

/-- How the command is used. -/
def usage : String :=
  "usage: letlang [-h] [-v] [--debug-file PATH]\n" ++
  "               [-e SOURCE | --emit-ast PROGRAM_FILE | --ast AST_JSON_FILE]\n" ++
  "               [program]\n"

/-- The help text. -/
def help : String :=
  usage ++
  "\nletlang expression interpreter\n" ++
  "\npositional arguments:\n" ++
  "  program               program file to evaluate\n" ++
  "\noptions:\n" ++
  "  -h, --help            show this help message and exit\n" ++
  "  -v                    increase debug verbosity (can be repeated)\n" ++
  "  --debug-file PATH     write debug output to PATH instead of stderr\n" ++
  "  -e SOURCE             evaluate the given source text\n" ++
  "  --emit-ast PROGRAM_FILE\n" ++
  "                        emit AST JSON for the given program\n" ++
  "  --ast AST_JSON_FILE   evaluate AST from a JSON file\n"

end Options

end LetCalc.CommandLine
