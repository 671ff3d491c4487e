import WordLang.CommandLine.Files
import WordLang.Machine

/-! What a run of the command leaves: its exit code, what it has printed and written, and what is told
of everything that can go wrong. -/
namespace WordLang

inductive ExitCode where
  | success
  /-- The program is wrong, or has faulted. -/
  | buildError
  /-- The arguments are wrong, or the output cannot be written. -/
  | invalidArguments
  /-- The tool itself is at fault. -/
  | internalError
deriving DecidableEq

def ExitCode.number : ExitCode → Nat
  | .success => 0
  | .buildError => 1
  | .invalidArguments => 2
  | .internalError => 3

/-- What the command has put out so far: texts on its two streams, and files with their texts. -/
structure Output where
  stdout : String
  stderr : String
  written : List (String × String)
deriving DecidableEq

def Output.nothing : Output := ⟨"", "", []⟩

/-- What a run of the command has put out in the end, and how it has ended. -/
structure Report extends Output where
  exit : ExitCode
deriving DecidableEq

/-- What can go wrong once the arguments are understood. -/
inductive Trouble where
  | diagnostic (d : Diagnostic)
  | fault (f : Fault)
  /-- A complaint of the compiler or the machine without more detail. -/
  | complaint (text : String)
  | badParameter (text : String)
  | unwritable (text : String)
  | unexpected (text : String)
deriving DecidableEq

namespace Trouble

def ofFailure : Failure → Trouble
  | .diagnostic d => .diagnostic d
  | f => .unexpected f.message

/-- A refused write. What the user can mend is apart from what no one foresees. -/
def ofWriteError (e : WriteError) (path : String) : Trouble :=
  match e with
  | .noSuchFile | .permissionDenied | .isDirectory => .unwritable (e.message path)
  | .other .. => .unexpected (e.message path)

def exitCode : Trouble → ExitCode
  | .diagnostic d => if d.cause.isInternal then .internalError else .buildError
  | .fault _ | .complaint _ => .buildError
  | .badParameter _ | .unwritable _ => .invalidArguments
  | .unexpected _ => .internalError

/-- The start of a complaint; a title says what kind of error it is. -/
def opening (title : Option String) : String :=
  match title with
  | some t => if t = "" then "Error: " else t ++ " error: "
  | none => "Error: "

def message (t : Trouble) (title : Option String) : String :=
  match t with
  | .diagnostic d => d.render
  | .fault f => opening title ++ f.message
  | .complaint text => opening title ++ text
  | .badParameter text | .unwritable text => "Error: " ++ text
  | .unexpected text => "Internal error: " ++ text

/-- What stands for the place in the tool where it went wrong. -/
def innerPlace : String := "<traceback>"

end Trouble

end WordLang
