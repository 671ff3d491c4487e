import WordLang.CommandLine.Arguments
import WordLang.CommandLine.Toolkit
import WordLang.Text.ControlSequence

/-! A toolkit for the command. Options and the source may be mixed; short flags may be written
together; two dashes end the options. -/
namespace WordLang

/-! ### Options -/

/-- An argument behind its equals sign, if it has one. -/
def valueOf? (arg : String) : Option String :=
  match arg.toList.dropWhile (· != '=') with
  | [] => none
  | _ :: value => some (String.ofList value)

inductive UsageError where
  | missingSource
  | extraArguments (args : List String)
  | noSuchOption (name : String)
  | outputIsDirectory (shown : String)
  /-- An output path that no system can be asked about. -/
  | outputUnaskable
  | requiresArgument (name : String)
  | takesNoValue (name : String)
deriving DecidableEq

inductive Setting where
  | output (path : String)
  | flag (s : Switch)
deriving DecidableEq

/-- An option read from an argument: what it sets, or the name of an option that still needs its
value. -/
abbrev ReadOption := Except UsageError (List Setting × Option String)

def longOption (arg : String) : ReadOption :=
  match Switch.longNames.lookup (nameOf arg), valueOf? arg with
  | none, _ => .error (.noSuchOption (nameOf arg))
  | some s, none => if s.takesValue then .ok ([], some (nameOf arg)) else .ok ([.flag s], none)
  | some s, some value =>
    if s.takesValue then .ok ([.output value], none) else .error (.takesNoValue (nameOf arg))

/-- Options of one letter. What follows the letter of an option with a value is its value. -/
def shortOptions : List Char → ReadOption
  | [] => .ok ([], none)
  | c :: cs =>
    let name := "-" ++ String.singleton c
    match Switch.shortNames.lookup name with
    | none => .error (.noSuchOption name)
    | some s =>
      if s.takesValue then
        .ok (if cs = [] then ([], some name) else ([.output (String.ofList cs)], none))
      else (shortOptions cs).map fun (settings, pending) => (.flag s :: settings, pending)

/-- The option or options in an argument that starts with a dash. -/
def readOption (arg : String) : ReadOption :=
  if (arg.toList.drop 1).head? = some '-' then longOption arg else shortOptions (arg.toList.drop 1)

/-- Arguments, read: options in order, and the other arguments in order. -/
structure Arguments where
  settings : List Setting
  operands : List String
deriving DecidableEq

namespace Arguments

/-- Arguments with options before them. -/
def withSettings (a : Arguments) (settings : List Setting) : Arguments :=
  { a with settings := settings ++ a.settings }

/-- Reads arguments, given an option that waits for its value. -/
def readFrom : Option String → List String → Except UsageError Arguments
  | none, [] => .ok ⟨[], []⟩
  | some name, [] => .error (.requiresArgument name)
  | some _, value :: args => (readFrom none args).map (·.withSettings [.output value])
  | none, arg :: args =>
    if arg = endOfOptions then .ok ⟨[], args⟩
    else if startsWithDash arg ∧ 1 < arg.length then
      match readOption arg with
      | .error e => .error e
      | .ok (settings, pending) => (readFrom pending args).map (·.withSettings settings)
    else (readFrom none args).map fun a => { a with operands := arg :: a.operands }

def read (args : List String) : Except UsageError Arguments := readFrom none args

/-- The last output path given. -/
def output? (a : Arguments) : Option String :=
  a.settings.foldl (fun found s => match s with
    | .output path => some path
    | .flag _ => found) none

def has (a : Arguments) (s : Switch) : Bool := a.settings.contains (.flag s)

/-- The first request for help or for the version. -/
def inquiry? (a : Arguments) : Option Switch :=
  a.settings.findSome? fun s =>
    match s with
    | .flag .help => some .help
    | .flag .version => some .version
    | _ => none

end Arguments

/-! ### Wrong arguments -/

def programName : String := "stackcc"

namespace UsageError

def message : UsageError → String
  | .missingSource => "Missing argument 'SOURCE'."
  | .extraArguments args =>
    "Got unexpected extra argument" ++ (if args.length = 1 then "" else "s") ++ " (" ++
      String.intercalate " " args ++ ")"
  | .noSuchOption name => "No such option: " ++ name
  | .outputIsDirectory path =>
    "Invalid value for '-o' / '--output': File " ++ Text.quoted path ++ " is a directory."
  | .outputUnaskable => ""
  | .requiresArgument name => "Option " ++ Text.quoted name ++ " requires an argument."
  | .takesNoValue name => "Option " ++ Text.quoted name ++ " does not take a value."

/-- Two messages come without a reminder of the usage. -/
def remindsUsage : UsageError → Bool
  | .requiresArgument _ | .takesNoValue _ => false
  | _ => true

def usageLine : String := "Usage: " ++ programName ++ " [OPTIONS] SOURCE\n"

/-- The report of wrong arguments. A path that cannot be asked about ends the command without a
word. -/
def report : UsageError → Report
  | .outputUnaskable => ⟨.nothing, .buildError⟩
  | e =>
    let reminder := if e.remindsUsage then
      usageLine ++ "Try '" ++ programName ++ " --help' for help.\n\n" else ""
    let told := Text.plain (reminder ++ "Error: " ++ e.message ++ "\n")
    ⟨{ Output.nothing with stderr := told }, .invalidArguments⟩

end UsageError

/-! ### What becomes of arguments -/

def versionText : String := programName ++ ", version 1.0.0\n"

def helpText : String := UsageError.usageLine ++ "
  Compile a stackcc program to x86-64 assembly.

  SOURCE is the entire program text, for example \"a = 1; b = a + 2; b\".

  Statements are separated by ';'. The program's value is that of the first
  executed 'return', or else of the last statement. The output is a single
  'main' function in GNU assembler Intel syntax.

  Examples:
      stackcc \"1+2*3\"                  # Assembly on stdout
      stackcc \"return 42\" -o prog.s    # Specify output file
      stackcc --run \"(1+2)*3\"          # Prints 9
      stackcc --ast \"a = b = 5\"        # Show the parsed tree

Options:
  -o, --output FILE  Write assembly to this file instead of stdout
  --tokens           Print the token list and exit (for debugging)
  --ast              Print AST and exit (for debugging)
  --run              Compile, execute on the built-in emulator and print the
                     result
  -c, --comments     Annotate the assembly with the source of each statement
  -v, --verbose      Verbose output (debug logging on stderr)
  --version          Show the version and exit.
  --help             Show this message and exit.
"

def printed (text : String) : Invocation := .ended ⟨{ Output.nothing with stdout := text }, .success⟩

/-- What becomes of arguments that were read. Help and version come first, then the output path, then
the source. -/
def Arguments.understand (a : Arguments) (isDirectory : String → Bool) : Invocation :=
  match a.inquiry? with
  | some .version => printed versionText
  | some _ => printed helpText
  | none =>
    if a.output?.any isUnaskable then .ended (UsageError.report .outputUnaskable)
    else match a.output?.filter isDirectory, a.operands with
    | some path, _ => .ended (UsageError.report (.outputIsDirectory path))
    | none, [] => .ended (UsageError.report .missingSource)
    | none, [source] =>
      .request ⟨source, a.output?.map cleanPath, a.has .tokens, a.has .outline, a.has .run,
        a.has .comments, a.has .verbose⟩
    | none, _ :: extra => .ended (UsageError.report (.extraArguments extra))

/-- The usual toolkit. It prints texts without control sequences. -/
def Toolkit.usual : Toolkit where
  read isDirectory args :=
    match Arguments.read args with
    | .error e => .ended e.report
    | .ok a => a.understand isDirectory
  echoed := Text.plain

end WordLang
