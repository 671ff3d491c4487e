/-! Closed ranges of code points, the form in which the properties of characters are tabulated. -/
namespace WordLang.Text

structure CodeRange where
  first : Nat
  last : Nat
deriving DecidableEq

/-- A table covers the characters whose code point lies in one of its ranges. -/
def CodeRange.covers (table : List CodeRange) (c : Char) : Bool :=
  table.any fun r => decide (r.first ≤ c.toNat) && decide (c.toNat ≤ r.last)

end WordLang.Text
