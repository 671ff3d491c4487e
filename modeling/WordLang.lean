import WordLang.Assembly.Code
import WordLang.Assembly.Generator
import WordLang.Assembly.Instruction
import WordLang.Assembly.Listing
import WordLang.CommandLine
import WordLang.CommandLine.Arguments
import WordLang.CommandLine.Files
import WordLang.CommandLine.Reader
import WordLang.CommandLine.Toolkit
import WordLang.CommandLine.Trouble
import WordLang.Compilation
import WordLang.Diagnostic
import WordLang.Grammar
import WordLang.Grammar.Levels
import WordLang.Grammar.Rule
import WordLang.Journal
import WordLang.Location
import WordLang.Machine
import WordLang.Machine.Arithmetic
import WordLang.Machine.State
import WordLang.Machine.Step
import WordLang.Machine.Wide
import WordLang.Main
import WordLang.Proofs.Assembly
import WordLang.Proofs.CommandLine
import WordLang.Proofs.Comments
import WordLang.Proofs.Compilation
import WordLang.Proofs.Computation
import WordLang.Proofs.Correctness
import WordLang.Proofs.Diagnostics
import WordLang.Proofs.Encoding
import WordLang.Proofs.Evaluation
import WordLang.Proofs.Execution
import WordLang.Proofs.Generation
import WordLang.Proofs.Generator
import WordLang.Proofs.Grammar.Acceptance
import WordLang.Proofs.Grammar.Allocation
import WordLang.Proofs.Grammar.Completeness
import WordLang.Proofs.Grammar.Derivation
import WordLang.Proofs.Grammar.Equations
import WordLang.Proofs.Grammar.Limits
import WordLang.Proofs.Grammar.Location
import WordLang.Proofs.Grammar.Mirror
import WordLang.Proofs.Grammar.Nesting
import WordLang.Proofs.Grammar.Outcome
import WordLang.Proofs.Grammar.Parallel
import WordLang.Proofs.Grammar.Relocation
import WordLang.Proofs.Grammar.Renaming
import WordLang.Proofs.Grammar.Soundness
import WordLang.Proofs.Grammar.Spans
import WordLang.Proofs.Grammar.Termination
import WordLang.Proofs.Grammar.ViablePrefix
import WordLang.Proofs.Integrity
import WordLang.Proofs.Legible
import WordLang.Proofs.Listing
import WordLang.Proofs.Machine.Arithmetic
import WordLang.Proofs.Machine.Division
import WordLang.Proofs.Machine.Frame
import WordLang.Proofs.Machine.Instruction
import WordLang.Proofs.Machine.Invariant
import WordLang.Proofs.Machine.Lines
import WordLang.Proofs.Machine.Residue
import WordLang.Proofs.Machine.Resumption
import WordLang.Proofs.Machine.Run
import WordLang.Proofs.Machine.StraightLine
import WordLang.Proofs.Machine.Wide
import WordLang.Proofs.Message
import WordLang.Proofs.Outline
import WordLang.Proofs.Rendering
import WordLang.Proofs.Routing
import WordLang.Proofs.Scanning
import WordLang.Proofs.Simulation
import WordLang.Proofs.Slots
import WordLang.Proofs.Slots.Requests
import WordLang.Proofs.Text
import WordLang.Proofs.Token.Halting
import WordLang.Proofs.Token.Layout
import WordLang.Proofs.Token.Position
import WordLang.Proofs.Token.Spelling
import WordLang.Proofs.Token.Tiling
import WordLang.Slots
import WordLang.Syntax.Node
import WordLang.Syntax.Outline
import WordLang.Text.Blank
import WordLang.Text.Cased
import WordLang.Text.CodeRange
import WordLang.Text.ControlSequence
import WordLang.Text.DecimalDigit
import WordLang.Text.Detail
import WordLang.Text.Lines
import WordLang.Text.LowerCase
import WordLang.Text.Numeral
import WordLang.Text.Printable
import WordLang.Text.Quoted
import WordLang.Token
import WordLang.Token.Cursor
import WordLang.Token.Scan
import WordLang.Token.Stream
