/-! Integers as rows of bits. A row goes on for ever to the left, with ones if the integer is
negative; a word is what a mask leaves of it. -/
namespace WordLang

namespace Bits

/-- The ones of a number at places where another has none. -/
def diff (m n : Nat) : Nat := m - (m &&& n)

def and : Int → Int → Int
  | .ofNat m, .ofNat n => .ofNat (m &&& n)
  | .ofNat m, .negSucc n => .ofNat (diff m n)
  | .negSucc m, .ofNat n => .ofNat (diff n m)
  | .negSucc m, .negSucc n => .negSucc (m ||| n)

def or : Int → Int → Int
  | .ofNat m, .ofNat n => .ofNat (m ||| n)
  | .ofNat m, .negSucc n => .negSucc (diff n m)
  | .negSucc m, .ofNat n => .negSucc (diff m n)
  | .negSucc m, .negSucc n => .negSucc (m &&& n)

end Bits

def wordMask : Int := 0xffffffffffffffff

def byteMask : Int := 0xff

/-- The highest bit of a word. -/
def signBit : Int := 0x8000000000000000

/-- Reads the lowest 64 bits of an integer as a signed value. -/
def toSigned (n : Int) : Int :=
  let pattern := Bits.and n wordMask
  if Bits.and pattern signBit ≠ 0 then pattern - (1 : Int) <<< (64 : Nat) else pattern

end WordLang
