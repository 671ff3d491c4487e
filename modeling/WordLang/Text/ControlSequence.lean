/-! Control sequences, which set colours and move the cursor of a terminal. A text that is not shown
on a terminal goes without them. -/
namespace WordLang.Text

/-- The character that opens a control sequence, before a bracket. -/
def escape : Char := '\x1b'

/-- Characters between the bracket and the letter that ends a control sequence. -/
def isParameter (c : Char) : Bool := c.isDigit || c == ';' || c == '?'

/-- The length of the control sequence at the front of a text, or zero if there is none. -/
def sequenceLength : List Char → Nat
  | c :: '[' :: cs =>
    let parameters := cs.takeWhile isParameter
    match cs.drop parameters.length with
    | last :: _ => if c = escape ∧ last.isAlpha then parameters.length + 3 else 0
    | [] => 0
  | _ => 0

/-- A text without its control sequences, when some characters at its front belong to one that is
already found. What is left over is not searched again. -/
def plainFrom : Nat → List Char → List Char
  | _, [] => []
  | n + 1, _ :: cs => plainFrom n cs
  | 0, c :: cs =>
    match sequenceLength (c :: cs) with
    | 0 => c :: plainFrom 0 cs
    | n + 1 => plainFrom n cs

def plain (s : String) : String := String.ofList (plainFrom 0 s.toList)

end WordLang.Text
