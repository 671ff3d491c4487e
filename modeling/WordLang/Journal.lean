import WordLang.Slots

/-! What a compilation tells about its progress. -/
namespace WordLang

/-- A stage that is done. -/
inductive Note where
  | tokenized (file : Option String) (tokens : Nat)
  | parsed (statements names : Nat)
  | generated (lines statements : Nat)
  | compiled (file : Option String) (tokens statements names : Nat)
  | layout (slots : List Slot)
  | halted (steps : Nat) (result : Int)
  | wrote (characters : Nat) (path : String)
deriving DecidableEq

namespace Note

def speaker : Note → String
  | .tokenized .. => "stackcc.compiler.lexer"
  | .parsed .. => "stackcc.compiler.parser"
  | .generated .. => "stackcc.compiler.codegen"
  | .compiled .. => "stackcc.compiler.compiler"
  | .layout .. | .wrote .. => "stackcc.cli.stackcc"
  | .halted .. => "stackcc.emulator.machine"

/-- Slots as a table in braces. -/
def slotMap (slots : List Slot) : String :=
  "\x7b" ++ String.intercalate ", "
    (slots.map fun s => Text.quoted s.name ++ ": " ++ Nat.repr s.offset) ++ "\x7d"

def text : Note → String
  | .tokenized file tokens =>
    "Tokenized " ++ Text.showDetail file ++ ": " ++ Nat.repr tokens ++ " tokens"
  | .parsed statements names =>
    "Parsed " ++ Nat.repr statements ++ " statements, " ++ Nat.repr names ++ " variables"
  | .generated lines statements =>
    "Generated " ++ Nat.repr lines ++ " lines for " ++ Nat.repr statements ++ " statements"
  | .compiled file tokens statements names =>
    "Compiled " ++ Text.showDetail file ++ ": " ++ Nat.repr tokens ++ " tokens, " ++
      Nat.repr statements ++ " statements, " ++ Nat.repr names ++ " variables"
  | .layout slots => "Variables: " ++ slotMap slots
  | .halted steps result =>
    "Halted after " ++ Nat.repr steps ++ " steps, rax=" ++ Text.decimal result
  | .wrote characters path => "Wrote " ++ Nat.repr characters ++ " bytes to " ++ path

def render (n : Note) : String := "DEBUG: " ++ n.speaker ++ ": " ++ n.text ++ "\n"

end Note

/-- Work that keeps a journal, also when it fails. -/
abbrev Stage (α : Type) := EStateM Failure (List Note) α

namespace Stage

def note (n : Note) : Stage Unit := fun notes => .ok () (notes ++ [n])

/-- Work that makes no notes. -/
def lift {α : Type} : Except Failure α → Stage α
  | .ok a => fun notes => .ok a notes
  | .error e => fun notes => .error e notes

def outcome {α : Type} (work : Stage α) : Except Failure α :=
  match work [] with
  | .ok a _ => .ok a
  | .error e _ => .error e

def notes {α : Type} (work : Stage α) : List Note :=
  match work [] with
  | .ok _ ns => ns
  | .error _ ns => ns

end Stage

end WordLang
