import WordLang.Text.Blank
import WordLang.Text.DecimalDigit

/-! Numerals: integers written in base ten, addresses written in base sixteen, and the reading of an
integer in any of the notations that an immediate operand may use. -/
namespace WordLang.Text

/-- The longest decimal numeral that is read. -/
def maxDecimalDigits : Nat := 4300

/-- An integer in base ten. Only integers of at most `maxDecimalDigits` digits have a numeral; trees,
places and limits written by hand can hold longer ones, and those are written out all the same. -/
def decimal (n : Int) : String :=
  if n < 0 then "-" ++ Nat.repr n.natAbs else Nat.repr n.natAbs

/-- An integer in base sixteen, with its mark. -/
def hexadecimal (n : Int) : String :=
  (if n < 0 then "-0x" else "0x") ++ String.ofList (Nat.toDigits 16 n.natAbs)

/-- Value of an ASCII digit or letter as a digit of any base. -/
def digitValue? (c : Char) : Option Nat :=
  if c.isDigit then some (c.toNat - 0x30)
  else if 'a' ≤ c ∧ c ≤ 'f' then some (c.toNat - 0x57)
  else if 'A' ≤ c ∧ c ≤ 'F' then some (c.toNat - 0x37)
  else none

def digitBelow? (base : Nat) (c : Char) : Option Nat :=
  (digitValue? c).filter (decide <| · < base)

/-- Digits in a base. After a digit the text may end or go on with an underscore. -/
def digitsAfter? (base : Nat) (afterDigit : Bool) : List Char → Option (List Nat)
  | [] => if afterDigit then some [] else none
  | c :: cs =>
    if c = '_' then if afterDigit then digitsAfter? base false cs else none
    else match digitBelow? base c with
      | some n => (digitsAfter? base true cs).map (n :: ·)
      | none => none

/-- Digits in a base, at least one, with at most one underscore between two of them. -/
def digits? (base : Nat) (cs : List Char) : Option (List Nat) := digitsAfter? base false cs

def ofDigits (base : Nat) (ds : List Nat) : Nat := ds.foldl (fun n d => n * base + d) 0

/-- A decimal numeral has no leading zero, unless it is zero, and is not too long. -/
def decimal? (cs : List Char) : Option Nat :=
  match digits? 10 cs with
  | none => none
  | some ds =>
    if maxDecimalDigits < ds.length then none
    else if ds.head? = some 0 ∧ ofDigits 10 ds ≠ 0 then none
    else some (ofDigits 10 ds)

/-- The base that a letter after a leading zero announces. -/
def baseOf? (c : Char) : Option Nat :=
  if c = 'x' ∨ c = 'X' then some 16
  else if c = 'o' ∨ c = 'O' then some 8
  else if c = 'b' ∨ c = 'B' then some 2
  else none

/-- An unsigned numeral: decimal, or in the base that its first two characters announce. -/
def natural? (cs : List Char) : Option Nat :=
  match cs with
  | '0' :: b :: rest =>
    match baseOf? b with
    | some base =>
      (digits? base (if rest.head? = some '_' then rest.tail else rest)).map (ofDigits base)
    | none => decimal? cs
  | _ => decimal? cs

def signed? : List Char → Option Int
  | '-' :: cs => (natural? cs).map fun n => -(n : Int)
  | '+' :: cs => (natural? cs).map Int.ofNat
  | cs => (natural? cs).map Int.ofNat

/-- The ASCII character that a character counts as in a numeral: digits of all scripts are digits,
and blanks beyond ASCII are spaces. -/
def numeralChar (c : Char) : Char :=
  if c.toNat < 0x80 then c
  else if isBlank c then ' '
  else match decimalDigit? c with
    | some d => Char.ofNat (0x30 + d)
    | none => c

def isNumeralBlank (c : Char) : Bool :=
  c == ' ' || decide (9 ≤ c.toNat) && decide (c.toNat ≤ 13)

/-- The integer that a text stands for, if it is a numeral. -/
def integer? (cs : List Char) : Option Int :=
  signed? (trimBy isNumeralBlank (cs.map numeralChar))

end WordLang.Text
