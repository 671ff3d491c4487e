import WordLang.Diagnostic
import WordLang.Text.Lines
import WordLang.Token

/-! From source text to tokens. At every place the longest token is taken; blanks between tokens are
dropped. -/
namespace WordLang

/-! ### Character classes -/

/-- The six characters that separate tokens. -/
def isSpace (c : Char) : Bool :=
  c == ' ' || c == '\t' || c == '\n' || c == '\r' || c == '\x0c' || c == '\x0b'

def isNameStart (c : Char) : Bool := c.isAlpha || c == '_'

def isNameChar (c : Char) : Bool := c.isAlphanum || c == '_'

namespace Mark

def ofPair? (c d : Char) : Option Mark :=
  if d = '=' then
    if c = '=' then some .equal
    else if c = '!' then some .notEqual
    else if c = '<' then some .lessEqual
    else if c = '>' then some .greaterEqual
    else none
  else none

def ofChar? (c : Char) : Option Mark :=
  if c = '+' then some .plus
  else if c = '-' then some .minus
  else if c = '*' then some .star
  else if c = '/' then some .slash
  else if c = '(' then some .openParen
  else if c = ')' then some .closeParen
  else if c = '<' then some .less
  else if c = '>' then some .greater
  else if c = '=' then some .assign
  else if c = ';' then some .semicolon
  else none

end Mark

/-! ### The token at the front of a text -/

/-- The shape of a token, before its value is known. -/
inductive Shape where
  | word
  | digits
  | mark (m : Mark)
deriving DecidableEq

/-- The longest token at the front of a text: its shape and its characters. -/
def front? : List Char → Option (Shape × List Char)
  | [] => none
  | c :: cs =>
    if isNameStart c then some (.word, c :: cs.takeWhile isNameChar)
    else if c.isDigit then some (.digits, c :: cs.takeWhile Char.isDigit)
    else match cs.head?.bind (Mark.ofPair? c) with
      | some m => some (.mark m, c :: cs.take 1)
      | none => (Mark.ofChar? c).map fun m => (.mark m, [c])

/-! ### Scanning -/

/-- A source text under the name that diagnostics use, if it has one. -/
structure Source where
  file : Option String
  text : String
deriving DecidableEq

def returnWord : String := "return"

namespace Source

def usualName : String := "<input>"

def lines (s : Source) : List String := Text.sourceLines s.text

/-- The line that a running place is on, cut out of the text from where it starts. -/
def currentLine (s : Source) (p : Position) : String :=
  String.ofList (Text.firstLine (s.text.toList.drop p.lineStart))

/-- A diagnostic at the start of a token, quoting the line that the scan is on by then. -/
def diagnoseFrom (s : Source) (p here : Position) (cause : Cause) : Failure :=
  .diagnostic ⟨cause, some (p.locate s.file), some (s.currentLine here)⟩

/-- A diagnostic at the place that the scan is at. -/
def diagnose (s : Source) (p : Position) (cause : Cause) : Failure := s.diagnoseFrom p p cause

/-- The lexeme of a scanned token. A numeral is counted before it is valued. -/
def lexeme (s : Source) (p : Position) : Shape → List Char → Except Failure Lexeme
  | .word, text =>
    let word := String.ofList text
    .ok (if word = returnWord then .mark .keywordReturn (some word) else .identifier word)
  | .digits, text =>
    if Text.maxDecimalDigits < text.length then .error (.numeralTooLong text.length)
    else if maxLiteral < Nat.ofDigitChars 10 text 0 then
      .error (s.diagnoseFrom p (p.after text) (.literalTooLarge (String.ofList text)))
    else .ok (.number (Nat.ofDigitChars 10 text 0))
  | .mark m, text => .ok (.mark m (some (String.ofList text)))

/-- The tokens of the rest of a source that starts at a place, when some characters at its front
belong to a token that is already read. -/
def scan (s : Source) : Nat → Position → List Char → Except Failure (List Token)
  | _, p, [] => .ok [⟨.endOfInput, "", p.locate s.file⟩]
  | n + 1, p, c :: cs => scan s n (p.next c) cs
  | 0, p, c :: cs =>
    if isSpace c then scan s 0 (p.next c) cs
    else match front? (c :: cs) with
      | none => .error (s.diagnose p (.invalidCharacter (some (String.singleton c))))
      | some (shape, text) =>
        match s.lexeme p shape text with
        | .error e => .error e
        | .ok l =>
          match scan s (text.length - 1) (p.next c) cs with
          | .error e => .error e
          | .ok more => .ok (⟨l, String.ofList text, p.locate s.file⟩ :: more)

/-- The tokens of a source; the last one is the end of input. -/
def tokens (s : Source) : Except Failure (List Token) := s.scan 0 .start s.text.toList

end Source

end WordLang
