import WordLang.Assembly.Code

/-! A generator that can be used for one program after another. It keeps the lines it has written,
also those of a program that it gave up, and forgets them when it starts on the next. -/
namespace WordLang

structure Generator where
  output : Array AssemblyLine
deriving DecidableEq

/-- A part of a generator's work. When it fails, the lines written so far stay. -/
abbrev Emission (α : Type) := EStateM Diagnostic Generator α

namespace Generator

open Instruction (push pop)

def fresh : Generator := ⟨#[]⟩

def emit (lines : List AssemblyLine) : Emission Unit := modify fun g => ⟨g.output ++ lines⟩

def emitCode (code : List Instruction) : Emission Unit := emit (code.map .instruction)

/-- Writes the instructions of the operator of a node, if it is one of the language. -/
def emitOperator (op : Operator) (n : Node) : Emission Unit :=
  match op.code? with
  | some compute => emitCode compute
  | none => throw (n.fault (.unknownOperator op.spelling))

/-- Writes the code of a node, piece by piece around that of the nodes below it. -/
def visit : Node → Emission Unit
  | .number v _ => emitCode (pushNumber v)
  | .var _ offset _ => emitCode (pushAddress offset ++ loadWord)
  | .assign target value l =>
    match target with
    | .var _ offset _ => do
      emitCode (pushAddress offset)
      visit value
      emitCode storeWord
    | t => throw ((Node.assign t value l).fault .assignsToNonVariable)
  | .binary op left right l => do
    visit left
    visit right
    emitCode [pop .rdi, pop .rax]
    emitOperator op (.binary op left right l)
    emitCode [push .rax]
  | .result value _ => do
    visit value
    emitCode ([pop .rax] ++ epilogue)
  | n => throw (n.fault (.noCodeFor n.form))

/-- Writes numbered statements, each after its comment if there are comments. -/
def visitAll (comments : Bool) : Nat → List Node → Emission Unit
  | _, [] => pure ()
  | number, n :: ns => do
    emit (if comments then [n.comment number] else [])
    visit n
    emitCode (if n.isResult then [] else [pop .rax])
    visitAll comments (number + 1) ns

def visitProgram (p : Program) (frameSize : Int) (comments : Bool) : Emission Unit := do
  emit header
  emitCode (prologue frameSize)
  visitAll comments 1 p.statements
  emitCode (if p.statements.isEmpty then [⟨.mov, [.register .rax, .immediate 0]⟩] else [])
  emitCode epilogue

/-- Starts anew, writes a program and returns the text. -/
def generate (p : Program) (frameSize : Int) (comments : Bool) : Emission String := do
  set fresh
  visitProgram p frameSize comments
  return renderAssembly (← get).output.toList

end Generator

end WordLang
