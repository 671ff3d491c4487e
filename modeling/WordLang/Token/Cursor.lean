import WordLang.Diagnostic
import WordLang.Token.Stream

/-! Numbered places in a list of tokens. A place below zero counts from the end, and a place behind
the end reads the last token. -/
namespace WordLang

/-- A place in a list of tokens. -/
structure Cursor where
  tokens : List Token
  pos : Int
deriving DecidableEq

namespace Cursor

/-- A cursor on a list that ends with the end of input. -/
def create (tokens : List Token) (pos : Int) : Except Failure Cursor :=
  if Terminated tokens then .ok ⟨tokens, pos⟩ else .error .unterminated

/-- The place in the list that an index stands for, if it is not before the beginning. -/
def resolve? (c : Cursor) (index : Int) : Option Nat :=
  let count : Int := c.tokens.length
  if count ≤ index then some (c.tokens.length - 1)
  else if 0 ≤ index then some index.toNat
  else if 0 ≤ count + index then some (count + index).toNat
  else none

def peek? (c : Cursor) (distance : Int) : Option Token :=
  (c.resolve? (c.pos + distance)).bind (c.tokens[·]?)

def peek (c : Cursor) (distance : Int) : Except Failure Token :=
  match c.peek? distance with
  | some t => .ok t
  | none => .error .outOfRange

def atEnd (c : Cursor) : Except Failure Bool := (c.peek 0).map Token.isEnd

def check (c : Cursor) (kinds : List Kind) : Except Failure Bool :=
  (c.peek 0).map fun t => kinds.contains t.kind

/-- The token at the cursor, and the cursor behind it. The end of input is never passed. -/
def advance (c : Cursor) : Except Failure (Token × Cursor) :=
  (c.peek 0).map fun t => (t, if t.isEnd then c else { c with pos := c.pos + 1 })

def accept (c : Cursor) (kinds : List Kind) : Except Failure (Option Token × Cursor) :=
  (c.peek 0).map fun t =>
    if kinds.contains t.kind then
      (some t, if t.isEnd then c else { c with pos := c.pos + 1 })
    else (none, c)

def stream? (c : Cursor) : Option TokenStream :=
  (c.resolve? c.pos).bind fun n => TokenStream.ofList? (c.tokens.drop n)

end Cursor

end WordLang
