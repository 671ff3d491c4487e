import WordLang.Text.Detail
import WordLang.Text.Numeral

/-! Places in a source text. -/
namespace WordLang

/-- A place in a source, which may have a name: line and column count from one, the offset from
zero. Places written by hand may hold any integers. -/
structure Location where
  file : Option String
  line : Int
  column : Int
  offset : Int
deriving DecidableEq

def Location.render (l : Location) : String :=
  Text.showDetail l.file ++ ":" ++ Text.decimal l.line ++ ":" ++ Text.decimal l.column

/-- A running place in one source, with the offset at which its line starts. -/
structure Position where
  offset : Nat
  line : Nat
  column : Nat
  lineStart : Nat
deriving DecidableEq

namespace Position

def start : Position := ⟨0, 1, 1, 0⟩

/-- The place behind a character; only a line feed starts a new line. -/
def next (p : Position) (c : Char) : Position :=
  if c = '\n' then ⟨p.offset + 1, p.line + 1, 1, p.offset + 1⟩
  else ⟨p.offset + 1, p.line, p.column + 1, p.lineStart⟩

def after (p : Position) (cs : List Char) : Position := cs.foldl next p

def locate (p : Position) (file : Option String) : Location := ⟨file, p.line, p.column, p.offset⟩

end Position

end WordLang
