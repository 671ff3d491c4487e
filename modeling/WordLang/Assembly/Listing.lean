import WordLang.Text.Blank
import WordLang.Text.Lines
import WordLang.Text.LowerCase

/-! Reading assembly text: instructions as they are written, and the places of labels. -/
namespace WordLang

/-- An instruction as it is written, with the number of its line. -/
structure Entry where
  mnemonic : String
  operands : List String
  line : Int
deriving DecidableEq

def Entry.render (e : Entry) : String :=
  if e.operands = [] then e.mnemonic else e.mnemonic ++ " " ++ String.intercalate ", " e.operands

/-- Labels with the index of the instruction that follows each, in the order of their first
appearance. -/
abbrev Labels := List (String × Int)

/-- Sets a label; one that is known keeps its place. -/
def Labels.set (labels : Labels) (name : String) (index : Int) : Labels :=
  match labels with
  | [] => [(name, index)]
  | (n, i) :: rest => if n = name then (n, index) :: rest else (n, i) :: Labels.set rest name index

def Labels.find? (labels : Labels) (name : String) : Option Int := labels.lookup name

/-- What an assembly text says. -/
structure Listing where
  entries : Array Entry
  labels : Labels
deriving DecidableEq

inductive LineContent where
  /-- Blank, a comment or a directive. -/
  | nothing
  | label (name : String)
  | instruction (mnemonic : String) (operands : List String)
deriving DecidableEq

/-- A line up to its comment, without the blanks around it. -/
def withoutComment (line : List Char) : List Char := Text.trim (line.takeWhile (· != '#'))

/-- Operands stand between commas. -/
def operandTexts (cs : List Char) : List String :=
  if cs = [] then []
  else (Text.splitBy (· == ',') cs).map fun piece => String.ofList (Text.trim piece)

def LineContent.ofChars (line : List Char) : LineContent :=
  let body := withoutComment line
  if body = [] ∨ body.head? = some '.' then .nothing
  else if body.getLast? = some ':' then .label (String.ofList (Text.trim body.dropLast))
  else
    let (word, rest) := Text.firstWord body
    .instruction (String.ofList (Text.lower word)) (operandTexts rest)

namespace Listing

def empty : Listing := ⟨#[], []⟩

def add (l : Listing) (content : LineContent) (line : Nat) : Listing :=
  match content with
  | .nothing => l
  | .label name => { l with labels := l.labels.set name l.entries.size }
  | .instruction mnemonic operands =>
    { l with entries := l.entries.push ⟨mnemonic, operands, line⟩ }

/-- Reads lines that are numbered from a number on. -/
def readFrom (l : Listing) : Nat → List (List Char) → Listing
  | _, [] => l
  | number, line :: lines => readFrom (l.add (.ofChars line) number) (number + 1) lines

def read (text : String) : Listing := empty.readFrom 1 (Text.listingLines text.toList)

end Listing

end WordLang
