import WordLang.Slots
import WordLang.Syntax.Node
import WordLang.Text.Lines
import WordLang.Token.Stream

/-! Grammar rules. A rule reads tokens and hands out slots; when it fails, both stay where they were
when it failed. -/
namespace WordLang

/-- What a rule reads from and writes to. -/
structure ParseState where
  input : TokenStream
  slots : SlotTable
deriving DecidableEq

abbrev Parse (α : Type) := EStateM Diagnostic ParseState α

/-- What stays the same during a parse: the lines that diagnostics quote, and the limit on
statements. -/
structure ParseSettings where
  sourceLines : List String
  maxStatements : Int
deriving DecidableEq

namespace Parse

def current : Parse Token := fun s => .ok s.input.head s

def advance : Parse Unit := fun s => .ok () { s with input := s.input.advance }

def atEnd : Parse Bool := fun s => .ok s.input.head.isEnd s

def fail {α : Type} (o : ParseSettings) (t : Token) (cause : Cause) : Parse α :=
  fun s => .error ⟨cause, some t.location, Text.lineAt? o.sourceLines t.location.line⟩ s

/-- Moves on over a token of a kind, if it is the current one. -/
def accept (m : Mark) : Parse (Option Token) := do
  let t ← current
  if t.kind = .mark m then
    advance
    pure (some t)
  else
    pure none

/-- Moves on over a mark that has to stand here. -/
def expect (o : ParseSettings) (m : Mark) (description : String) : Parse Unit := do
  let t ← current
  if t.kind = .mark m then
    advance
  else
    fail o t (.missingToken (some description) (some t.describe))

/-- The slot of a name that stands at a token. -/
def resolve (o : ParseSettings) (t : Token) (name : String) : Parse Nat := fun s =>
  match SlotTable.resolve name (some t.location) (Text.lineAt? o.sourceLines t.location.line)
    s.slots with
  | .ok offset slots => .ok offset { s with slots := slots }
  | .error d slots => .error d { s with slots := slots }

end Parse

/-! ### Joining operands -/

/-- How an operator joins two operands. The greater-than marks are the less-than operators with
their operands exchanged. -/
structure Join where
  operator : Operator
  exchanged : Bool
deriving DecidableEq

/-- The joined node starts where its first operand in the source does. -/
def Join.node (j : Join) (first second : Node) : Node :=
  if j.exchanged then .binary j.operator second first first.location
  else .binary j.operator first second first.location

namespace Mark

def equality? : Mark → Option Join
  | .equal => some ⟨.equal, false⟩
  | .notEqual => some ⟨.notEqual, false⟩
  | _ => none

def relational? : Mark → Option Join
  | .less => some ⟨.less, false⟩
  | .lessEqual => some ⟨.lessEqual, false⟩
  | .greater => some ⟨.less, true⟩
  | .greaterEqual => some ⟨.lessEqual, true⟩
  | _ => none

def additive? : Mark → Option Join
  | .plus => some ⟨.add, false⟩
  | .minus => some ⟨.sub, false⟩
  | _ => none

def multiplicative? : Mark → Option Join
  | .star => some ⟨.mul, false⟩
  | .slash => some ⟨.div, false⟩
  | _ => none

end Mark

/-- The join that a token announces at a level. -/
def Kind.join? (level : Mark → Option Join) : Kind → Option Join
  | .mark m => level m
  | _ => none

end WordLang
