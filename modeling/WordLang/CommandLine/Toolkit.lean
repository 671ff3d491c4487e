import WordLang.CommandLine.Trouble

/-! What the command takes from the library that it is written with. It reads the arguments, and
either has the command go on with a request or ends it. -/
namespace WordLang

/-- What the command is asked to do. -/
structure Request where
  source : String
  output : Option String
  tokens : Bool
  outline : Bool
  run : Bool
  comments : Bool
  verbose : Bool
deriving DecidableEq

/-- What becomes of arguments. Help, the version and wrong arguments end the command at once. -/
inductive Invocation where
  | request (r : Request)
  | ended (report : Report)
deriving DecidableEq

/-- The library: how it reads arguments, given which paths are directories, and what it leaves of a
text that it prints. -/
structure Toolkit where
  read : (String → Bool) → List String → Invocation
  echoed : String → String

namespace Toolkit

variable {ε : Type}

def echo (kit : Toolkit) (text : String) : EStateM ε Output Unit :=
  modify fun o => { o with stdout := o.stdout ++ kit.echoed text }

def echoError (kit : Toolkit) (text : String) : EStateM ε Output Unit :=
  modify fun o => { o with stderr := o.stderr ++ kit.echoed text }

end Toolkit

end WordLang
