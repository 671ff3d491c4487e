import WordLang.Location
import WordLang.Text.Quoted

/-! Tokens: the words of the language, with their values and places. -/
namespace WordLang

/-- Operators, delimiters and the one keyword. -/
inductive Mark where
  | keywordReturn
  | plus
  | minus
  | star
  | slash
  | equal
  | notEqual
  | less
  | greater
  | lessEqual
  | greaterEqual
  | assign
  | openParen
  | closeParen
  | semicolon
deriving DecidableEq

inductive Kind where
  | endOfInput
  | identifier
  | number
  | mark (m : Mark)
deriving DecidableEq

namespace Mark

def all : List Mark :=
  [.keywordReturn, .plus, .minus, .star, .slash, .equal, .notEqual, .less, .greater, .lessEqual,
    .greaterEqual, .assign, .openParen, .closeParen, .semicolon]

def name : Mark → String
  | .keywordReturn => "RETURN"
  | .plus => "PLUS"
  | .minus => "MINUS"
  | .star => "STAR"
  | .slash => "SLASH"
  | .equal => "EQ"
  | .notEqual => "NE"
  | .less => "LT"
  | .greater => "GT"
  | .lessEqual => "LE"
  | .greaterEqual => "GE"
  | .assign => "ASSIGN"
  | .openParen => "LPAREN"
  | .closeParen => "RPAREN"
  | .semicolon => "SEMICOLON"

end Mark

namespace Kind

def all : List Kind := [.endOfInput, .identifier, .number] ++ Mark.all.map .mark

def name : Kind → String
  | .endOfInput => "EOF"
  | .identifier => "IDENTIFIER"
  | .number => "NUMBER"
  | .mark m => m.name

def ofName? (s : String) : Option Kind := all.find? (·.name = s)

end Kind

/-- What a token means: its class together with its value. A mark needs no value: scanned marks have
their text for one, marks written by hand may have none. -/
inductive Lexeme where
  | endOfInput
  | identifier (name : String)
  | number (value : Int)
  | mark (m : Mark) (value : Option String)
deriving DecidableEq

def Lexeme.kind : Lexeme → Kind
  | .endOfInput => .endOfInput
  | .identifier _ => .identifier
  | .number _ => .number
  | .mark m _ => .mark m

/-- A lexeme as it was written, at its place. -/
structure Token where
  lexeme : Lexeme
  text : String
  location : Location
deriving DecidableEq

namespace Token

def kind (t : Token) : Kind := t.lexeme.kind

/-- The last token of every list. -/
def isEnd (t : Token) : Bool := t.kind == .endOfInput

/-- The value of a token as token lists show it. -/
def shownValue : Lexeme → Option String
  | .endOfInput => none
  | .identifier name => some (Text.quoted name)
  | .number value => some (Text.decimal value)
  | .mark _ value => value.map Text.quoted

/-- An entry of a token list. -/
def render (t : Token) : String :=
  "Token(" ++ t.kind.name ++ ", " ++
    (match shownValue t.lexeme with
      | some v => v ++ ", "
      | none => "") ++
    Text.decimal t.location.line ++ ":" ++ Text.decimal t.location.column ++ ")"

/-- A token as diagnostics name it. -/
def describe (t : Token) : String :=
  if t.isEnd then "end of input" else "'" ++ t.text ++ "'"

end Token

end WordLang
