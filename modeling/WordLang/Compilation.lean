import WordLang.Assembly.Code
import WordLang.Grammar
import WordLang.Journal

/-! Compiling a source text: tokens, tree, assembly. The first thing that goes wrong ends it. -/
namespace WordLang

structure Options where
  file : Option String := some Source.usualName
  wordSize : Int := SlotTable.defaultWordSize
  maxVariables : Int := SlotTable.defaultCapacity
  maxStatements : Int := defaultMaxStatements
  comments : Bool := false
deriving DecidableEq

structure Compilation where
  file : Option String
  tokens : List Token
  program : Program
  slots : SlotTable
  lines : List AssemblyLine

namespace Compilation

def assembly (c : Compilation) : String := renderAssembly c.lines

def frameSize (c : Compilation) : Nat := c.slots.frameSize

end Compilation

namespace Options

/-- The name of a source: the given one, or else the one of the options. An empty name counts as
none. -/
def fileFor (o : Options) : Option String → Option String
  | some name => if name = "" then o.file else some name
  | none => o.file

def source (o : Options) (text : String) (file : Option String) : Source := ⟨o.fileFor file, text⟩

def tokenize (_ : Options) (s : Source) : Stage (List Token) := do
  let tokens ← Stage.lift s.tokens
  Stage.note (.tokenized s.file tokens.length)
  pure tokens

/-- The tree of a list of tokens, and the slots of its variables. -/
def parse (o : Options) (s : Source) (tokens : List Token) : Stage (Program × SlotTable) := do
  let empty ← Stage.lift (SlotTable.create o.wordSize o.maxVariables)
  let parsed := parseTokens ⟨s.lines, o.maxStatements⟩ empty tokens
  let program ← Stage.lift parsed.outcome
  Stage.note (.parsed program.statements.length parsed.slots.size)
  pure (program, parsed.slots)

def generate (o : Options) (p : Program) (slots : SlotTable) : Stage (List AssemblyLine) := do
  let lines ← Stage.lift ((p.assembly slots.frameSize o.comments).mapError .diagnostic)
  Stage.note (.generated lines.length p.statements.length)
  pure lines

def parseSource (o : Options) (s : Source) : Stage Program := do
  let tokens ← o.tokenize s
  let (program, _) ← o.parse s tokens
  pure program

def compile (o : Options) (s : Source) : Stage Compilation := do
  let tokens ← o.tokenize s
  let (program, slots) ← o.parse s tokens
  let lines ← o.generate program slots
  Stage.note (.compiled s.file tokens.length program.statements.length slots.size)
  pure ⟨s.file, tokens, program, slots, lines⟩

end Options

end WordLang
