import WordLang.Token

/-! The tokens that are still to be read. There is always a current one, and the end of input is
never passed. -/
namespace WordLang

/-- A current token and the tokens after it. -/
structure TokenStream where
  head : Token
  tail : List Token
deriving DecidableEq

namespace TokenStream

def toList (s : TokenStream) : List Token := s.head :: s.tail

def length (s : TokenStream) : Nat := s.tail.length + 1

def ofList? : List Token → Option TokenStream
  | [] => none
  | t :: ts => some ⟨t, ts⟩

/-- The stream behind the current token. At the end of input a stream stays as it is. -/
def advance (s : TokenStream) : TokenStream :=
  if s.head.isEnd then s
  else match s.tail with
    | [] => s
    | t :: ts => ⟨t, ts⟩

/-- A stream passes one token, if it is not the last and not the end of input. -/
theorem toList_advance {s : TokenStream} (h : s.head.isEnd = false) (ht : s.tail ≠ []) :
    s.toList = s.head :: s.advance.toList := by
  unfold advance
  rw [if_neg (by rw [h]; exact Bool.false_ne_true)]
  split
  · contradiction
  · rename_i hs
    rw [toList, toList, hs]

end TokenStream

/-- A list of tokens ends with the end of input. -/
def Terminated (tokens : List Token) : Bool := tokens.getLast?.any Token.isEnd

end WordLang
