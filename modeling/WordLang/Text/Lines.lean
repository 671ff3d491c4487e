/-! Cutting a text into pieces: at every character of a class, or into lines. -/
namespace WordLang.Text

/-- A character joins the piece after it, or ends the piece before it. -/
def splitStep (p : Char → Bool) (c : Char) (pieces : List (List Char)) : List (List Char) :=
  if p c then [] :: pieces
  else match pieces with
    | [] => [[c]]
    | piece :: rest => (c :: piece) :: rest

/-- The pieces between the characters of a class, one more than there are such characters. -/
def splitBy (p : Char → Bool) (cs : List Char) : List (List Char) :=
  cs.foldr (splitStep p) [[]]

/-- The lines of a source text, which only a line feed ends. -/
def sourceLines (s : String) : List String :=
  (splitBy (· == '\n') s.toList).map String.ofList

def firstLine (cs : List Char) : List Char :=
  match cs.findIdx? (· == '\n') with
  | some n => cs.take n
  | none => cs

def lineAt? (lines : List String) (n : Int) : Option String :=
  if 0 < n then lines[(n - 1).toNat]? else none

def isLineEnd (c : Char) : Bool :=
  let n := c.toNat
  decide (0xa ≤ n) && decide (n ≤ 0xd) || decide (0x1c ≤ n) && decide (n ≤ 0x1e) ||
    n == 0x85 || n == 0x2028 || n == 0x2029

/-- The lines of the rest of a listing, given the line that has begun, last character first. A line
feed right after a carriage return ends no further line. -/
def linesFrom (afterReturn : Bool) (line : List Char) : List Char → List (List Char)
  | [] => if line = [] then [] else [line.reverse]
  | c :: cs =>
    if c = '\n' ∧ afterReturn then linesFrom false [] cs
    else if isLineEnd c then line.reverse :: linesFrom (c == '\r') [] cs
    else linesFrom false (c :: line) cs

/-- The lines of a listing. A line end after the last line starts no further one. -/
def listingLines (cs : List Char) : List (List Char) := linesFrom false [] cs

end WordLang.Text
