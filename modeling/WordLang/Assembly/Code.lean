import WordLang.Assembly.Instruction
import WordLang.Diagnostic
import WordLang.Slots
import WordLang.Syntax.Outline

/-! From syntax trees to instructions. The code of an expression leaves one word on the stack, the
value of the expression. -/
namespace WordLang

namespace Instruction

def push (r : Register) : Instruction := ⟨.push, [.register r]⟩

def pop (r : Register) : Instruction := ⟨.pop, [.register r]⟩

def move (dest src : Register) : Instruction := ⟨.mov, [.register dest, .register src]⟩

/-- Combines two registers in the first of them. -/
def binary (m : Mnemonic) (dest src : Register) : Instruction :=
  ⟨m, [.register dest, .register src]⟩

end Instruction

open Instruction (push pop move binary)

/-- Integers that a push can hold: those of a signed half word. -/
def fitsHalfWord (n : Int) : Bool := decide (-0x80000000 ≤ n) && decide (n ≤ 0x7fffffff)

/-- Pushes an integer, through a register if need be. -/
def pushNumber (n : Int) : List Instruction :=
  if fitsHalfWord n then [⟨.push, [.immediate n]⟩]
  else [⟨.mov, [.register .rax, .immediate n]⟩, push .rax]

def pushAddress (offset : Int) : List Instruction :=
  [move .rax .rbp, ⟨.sub, [.register .rax, .immediate offset]⟩, push .rax]

/-- Replaces an address on the stack by the word there. -/
def loadWord : List Instruction := [pop .rax, ⟨.mov, [.register .rax, .indirect .rax]⟩, push .rax]

/-- Stores the word on the stack at the address below it, and keeps the word. -/
def storeWord : List Instruction :=
  [pop .rdi, pop .rax, ⟨.mov, [.indirect .rax, .register .rdi]⟩, push .rdi]

def compareBy (m : Mnemonic) : List Instruction :=
  [binary .cmp .rax .rdi, ⟨m, [.register .al]⟩, binary .movzb .rax .al]

/-- The instructions of an operator, from its operands in two registers to its value in the first.
-/
def Operator.code? : Operator → Option (List Instruction)
  | .add => some [binary .add .rax .rdi]
  | .sub => some [binary .sub .rax .rdi]
  | .mul => some [binary .imul .rax .rdi]
  | .div => some [⟨.cqo, []⟩, ⟨.idiv, [.register .rdi]⟩]
  | .equal => some (compareBy .sete)
  | .notEqual => some (compareBy .setne)
  | .less => some (compareBy .setl)
  | .lessEqual => some (compareBy .setle)
  | .other _ => none

def epilogue : List Instruction := [move .rsp .rbp, pop .rbp, ⟨.ret, []⟩]

def prologue (frameSize : Int) : List Instruction :=
  [push .rbp, move .rbp .rsp, ⟨.sub, [.register .rsp, .immediate frameSize]⟩]

namespace Node

def fault (n : Node) (cause : Cause) : Diagnostic := ⟨cause, n.location, none⟩

/-- The code of a node. An assignment is checked before its value, an operator after its operands.
-/
def code : Node → Except Diagnostic (List Instruction)
  | .number v _ => .ok (pushNumber v)
  | .var _ offset _ => .ok (pushAddress offset ++ loadWord)
  | .assign target value l =>
    match target with
    | .var _ offset _ =>
      match value.code with
      | .ok c => .ok (pushAddress offset ++ c ++ storeWord)
      | .error d => .error d
    | t => .error ((Node.assign t value l).fault .assignsToNonVariable)
  | .binary op left right l =>
    match left.code with
    | .error d => .error d
    | .ok c =>
      match right.code with
      | .error d => .error d
      | .ok c' =>
        match op.code? with
        | some compute => .ok (c ++ c' ++ [pop .rdi, pop .rax] ++ compute ++ [push .rax])
        | none => .error ((Node.binary op left right l).fault (.unknownOperator op.spelling))
  | .result value _ =>
    match value.code with
    | .ok c => .ok (c ++ [pop .rax] ++ epilogue)
    | .error d => .error d
  | n => .error (n.fault (.noCodeFor n.form))

/-- The code of a statement leaves its value in a register; a result statement has done so itself.
-/
def statementCode (n : Node) : Except Diagnostic (List Instruction) :=
  match n.code with
  | .ok c => .ok (if n.isResult then c else c ++ [pop .rax])
  | .error d => .error d

def comment (n : Node) (number : Nat) : AssemblyLine :=
  .comment ("stmt " ++ Nat.repr number ++ ": " ++ n.source)

end Node

def statementLines (comments : Bool) : Nat → List Node → Except Diagnostic (List AssemblyLine)
  | _, [] => .ok []
  | number, n :: ns =>
    match n.statementCode with
    | .error d => .error d
    | .ok c =>
      match statementLines comments (number + 1) ns with
      | .error d => .error d
      | .ok more =>
        .ok ((if comments then [n.comment number] else []) ++ c.map .instruction ++ more)

def header : List AssemblyLine :=
  [.directive ".intel_syntax noprefix", .directive ".globl main", .label "main"]

def defaultFrameSize : Nat := SlotTable.default.frameSize

/-- The lines of a program. Without statements its value is zero. -/
def Program.assembly (p : Program) (frameSize : Int) (comments : Bool) :
    Except Diagnostic (List AssemblyLine) :=
  match statementLines comments 1 p.statements with
  | .error d => .error d
  | .ok body =>
    .ok (header ++ (prologue frameSize).map .instruction ++ body ++
      (if p.statements.isEmpty then
        [.instruction ⟨.mov, [.register .rax, .immediate 0]⟩] else []) ++
      epilogue.map .instruction)

end WordLang
