import WordLang.Grammar.Levels
import WordLang.Token.Cursor
import WordLang.Token.Scan

/-! Parsing whole programs, and single rules of the grammar at any place. -/
namespace WordLang

inductive Nonterminal where
  | program
  | statement
  | expression
  | assignment
  | equality
  | relational
  | additive
  | term
  | unary
  | primary
deriving DecidableEq

/-- The rule of a name, for trees. -/
def Nonterminal.rule (o : ParseSettings) : Nonterminal → Parse Node
  | .program => Program.node <$> Grammar.program o
  | .statement => Grammar.statement o
  | .expression => Grammar.expression o
  | .assignment => Grammar.bounded o (Grammar.assignment o)
  | .equality => Grammar.bounded o (Grammar.equality o)
  | .relational => Grammar.bounded o (Grammar.relational o)
  | .additive => Grammar.bounded o (Grammar.additive o)
  | .term => Grammar.bounded o (Grammar.term o)
  | .unary => Grammar.bounded o (Grammar.unary o)
  | .primary => Grammar.bounded o (Grammar.primary o)

/-- What a parse leaves behind, also when it fails. -/
structure Parsed (α : Type) where
  outcome : Except Failure α
  slots : SlotTable

namespace Cursor

/-- Runs a rule at a cursor. The cursor moves over the tokens that the rule has read. -/
def parse {α : Type} (c : Cursor) (rule : Parse α) (slots : SlotTable) : Parsed α × Cursor :=
  match c.stream? with
  | none => (⟨.error .outOfRange, slots⟩, c)
  | some input =>
    let behind (s : ParseState) : Cursor :=
      { c with pos := c.pos + (input.length - s.input.length : Nat) }
    match rule ⟨input, slots⟩ with
    | .ok a s => (⟨.ok a, s.slots⟩, behind s)
    | .error d s => (⟨.error (.diagnostic d), s.slots⟩, behind s)

end Cursor

def defaultMaxStatements : Int := 100

def parseTokens (o : ParseSettings) (slots : SlotTable) (tokens : List Token) : Parsed Program :=
  match Cursor.create tokens 0 with
  | .error e => ⟨.error e, slots⟩
  | .ok c => (c.parse (Grammar.program o) slots).1

/-- Parses a source text. Scanning hands out no slots. -/
def Source.parse (s : Source) (slots : SlotTable) (maxStatements : Int) : Parsed Program :=
  match s.tokens with
  | .error e => ⟨.error e, slots⟩
  | .ok tokens => parseTokens ⟨s.lines, maxStatements⟩ slots tokens

end WordLang
