import WordLang.Location
import WordLang.Text.Quoted

/-! Diagnostics: what is wrong with a program, where, and how the user is told. -/
namespace WordLang

/-- The part of the compiler that a free report belongs to. -/
inductive Area where
  | general
  | lexical
  | grammatical
  | internal
deriving DecidableEq

/-- What is wrong. A detail that is not known is absent. -/
inductive Cause where
  /-- A report in free words. -/
  | report (area : Area) (text hint : Option String)
  /-- A character that starts no token. -/
  | invalidCharacter (char : Option String)
  /-- An integer literal that no machine word holds. -/
  | literalTooLarge (digits : String)
  /-- A token that the grammar requires at this place. -/
  | missingToken (expected found : Option String)
  /-- An operand that the grammar requires at this place. -/
  | missingOperand (found : Option String)
  /-- An assignment in the source whose left side is no variable. -/
  | targetNotVariable
  /-- More of something than a limit allows. -/
  | tooMany (what : Option String) (limit : Option Int)
  /-- An assignment in a tree whose left side is no variable. -/
  | assignsToNonVariable
  /-- An operator in a tree that has no instruction. -/
  | unknownOperator (spelling : String)
  /-- A form of node that has no code. -/
  | noCodeFor (form : String)
deriving DecidableEq

def maxLiteral : Nat := 0x7fffffffffffffff

namespace Cause

/-- The bare message; only a free report can lack it. -/
def text? : Cause → Option String
  | .report _ text _ => text
  | .invalidCharacter c => some ("invalid character " ++ (c.map Text.quoted).getD Text.absentDetail)
  | .literalTooLarge digits => some ("integer literal " ++ digits ++ " is too large")
  | .missingToken expected found =>
    some ("expected " ++ Text.showDetail expected ++
      match found with
      | none => ""
      | some f => if f = "" then "" else ", found " ++ f)
  | .missingOperand found => some ("expected a number, found " ++ Text.showDetail found)
  | .targetNotVariable => some "expected a variable on the left side of '='"
  | .tooMany what limit =>
    some ("too many " ++ Text.showDetail what ++ " (limit is " ++
      Text.showDetail (limit.map Text.decimal) ++ ")")
  | .assignsToNonVariable => some "left side of assignment must be a variable"
  | .unknownOperator spelling => some ("unsupported binary operator '" ++ spelling ++ "'")
  | .noCodeFor form => some ("cannot generate code for " ++ form)

def hint : Cause → Option String
  | .report _ _ hint => hint
  | .literalTooLarge _ => some ("the largest supported literal is " ++ Nat.repr maxLiteral)
  | .missingOperand _ => some "an operand must be a number, a variable or '(' expression ')'"
  | .targetNotVariable => some "only a variable name can be assigned to"
  | _ => none

/-- Causes that the grammar rules out, so that they show a fault of the compiler itself. -/
def isInternal : Cause → Bool
  | .report .internal _ _ | .assignsToNonVariable | .unknownOperator _ | .noCodeFor _ => true
  | _ => false

end Cause

/-- A cause at a place, with the source line to quote. -/
structure Diagnostic where
  cause : Cause
  location : Option Location
  sourceLine : Option String
deriving DecidableEq

namespace Diagnostic

def indent : Nat := 4

def headline (d : Diagnostic) : String :=
  (match d.location with
    | some l => l.render ++ ": "
    | none => "") ++ "error: " ++ Text.showDetail d.cause.text?

/-- The quoted line, and under it a caret if the column is on the line. -/
def excerpt (d : Diagnostic) : List String :=
  match d.location, d.sourceLine with
  | some l, some line =>
    (String.ofList (List.replicate indent ' ') ++ line) ::
      if 0 < l.column then
        [String.ofList (List.replicate (indent + (l.column - 1).toNat) ' ') ++ "^"]
      else []
  | _, _ => []

def hintLine (d : Diagnostic) : List String :=
  match d.cause.hint with
  | some h => if h = "" then [] else ["hint: " ++ h]
  | none => []

def render (d : Diagnostic) : String :=
  String.intercalate "\n" (d.headline :: d.excerpt ++ d.hintLine)

end Diagnostic

/-- Whatever can stop a compilation, or a single step of one. -/
inductive Failure where
  /-- The program is wrong. -/
  | diagnostic (d : Diagnostic)
  /-- A numeral has too many digits to be read at all. -/
  | numeralTooLong (digits : Nat)
  /-- The slot size asked for is not positive. -/
  | wordSize (n : Int)
  /-- The number of slots asked for is negative. -/
  | capacity (n : Int)
  /-- A list of tokens does not end with the end of input. -/
  | unterminated
  /-- An index counted from the end lies before the beginning. -/
  | outOfRange
deriving DecidableEq

namespace Failure

/-- The message for an index before the beginning. -/
def outOfRangeMessage : String := "list index out of range"

def message : Failure → String
  | .diagnostic d => d.render
  | .numeralTooLong n =>
    "Exceeds the limit (" ++ Nat.repr Text.maxDecimalDigits ++
      " digits) for integer string conversion: value has " ++ Nat.repr n ++
      " digits; use sys.set_int_max_str_digits() to increase the limit"
  | .wordSize n => "word size must be positive, got " ++ Text.decimal n
  | .capacity n => "capacity must not be negative, got " ++ Text.decimal n
  | .unterminated => "token list must end with an EOF token"
  | .outOfRange => outOfRangeMessage

end Failure

end WordLang
