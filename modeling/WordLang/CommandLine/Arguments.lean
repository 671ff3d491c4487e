/-! The arguments of the command, and the way of a source that starts with a dash among them. -/
namespace WordLang

inductive Switch where
  | output
  | tokens
  | outline
  | run
  | comments
  | verbose
  | version
  | help
deriving DecidableEq

namespace Switch

def longNames : List (String × Switch) :=
  [("--output", .output), ("--tokens", .tokens), ("--ast", .outline), ("--run", .run),
    ("--comments", .comments), ("--verbose", .verbose), ("--version", .version), ("--help", .help)]

def shortNames : List (String × Switch) :=
  [("-o", .output), ("-c", .comments), ("-v", .verbose)]

def ofName? (s : String) : Option Switch := (longNames ++ shortNames).lookup s

/-- Only the output option has a value. -/
def takesValue : Switch → Bool
  | .output => true
  | _ => false

end Switch

def endOfOptions : String := "--"

def startsWithDash (arg : String) : Bool := arg.toList.head? == some '-'

/-- An argument up to its equals sign. -/
def nameOf (arg : String) : String := String.ofList (arg.toList.takeWhile (· != '='))

/-- The part that an argument plays as long as no option has been read. -/
inductive Role where
  | option
  | value
  | plain
  | dashed
deriving DecidableEq

/-- An option whose value is the next argument. -/
def takesNext (arg : String) : Bool := (Switch.ofName? arg).any Switch.takesValue

/-- The parts that arguments play, given whether the first one is the value of an option. -/
def roles : Bool → List String → List Role
  | _, [] => []
  | true, _ :: args => .value :: roles false args
  | false, arg :: args =>
    if (Switch.ofName? (nameOf arg)).isSome then .option :: roles (takesNext arg) args
    else if startsWithDash arg then .dashed :: roles false args
    else .plain :: roles false args

/-- Without a plain argument, the first one that starts with a dash and names no option is the
source: it goes behind two dashes. -/
def routeSource (args : List String) : List String :=
  if endOfOptions ∈ args then args
  else if .plain ∈ roles false args then args
  else match (roles false args).findIdx? (· == .dashed) with
    | none => args
    | some i => args.eraseIdx i ++ endOfOptions :: args[i]?.toList

end WordLang
