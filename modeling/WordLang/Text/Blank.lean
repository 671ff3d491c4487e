import WordLang.Text.CodeRange

/-! Blank characters, and the cutting of blanks from the ends of a text. -/
namespace WordLang.Text

/-- Code points of white space: the ASCII controls, the separators and the wide spaces. -/
def blanks : List CodeRange := [
  ⟨0x9, 0xd⟩, ⟨0x1c, 0x20⟩, ⟨0x85, 0x85⟩, ⟨0xa0, 0xa0⟩, ⟨0x1680, 0x1680⟩,
  ⟨0x2000, 0x200a⟩, ⟨0x2028, 0x2029⟩, ⟨0x202f, 0x202f⟩, ⟨0x205f, 0x205f⟩, ⟨0x3000, 0x3000⟩]

/-- White space in the sense of the whole character set, not only of ASCII. -/
def isBlank (c : Char) : Bool := CodeRange.covers blanks c

def trimBy (p : Char → Bool) (cs : List Char) : List Char :=
  ((cs.dropWhile p).reverse.dropWhile p).reverse

def trim (cs : List Char) : List Char := trimBy isBlank cs

/-- The first word of a text and what follows its blanks, cut at both ends. -/
def firstWord (cs : List Char) : List Char × List Char :=
  let body := cs.dropWhile isBlank
  (body.takeWhile (!isBlank ·), trim (body.dropWhile (!isBlank ·)))

end WordLang.Text
