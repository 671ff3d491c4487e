import WordLang.Text.Numeral

/-! Instructions of the target machine, and the lines of an assembly text. -/
namespace WordLang

inductive Mnemonic where
  | push
  | pop
  | mov
  | movzb
  | add
  | sub
  | imul
  | cqo
  | idiv
  | cmp
  | sete
  | setne
  | setl
  | setle
  | ret
deriving DecidableEq

namespace Mnemonic

def all : List Mnemonic :=
  [.push, .pop, .mov, .movzb, .add, .sub, .imul, .cqo, .idiv, .cmp, .sete, .setne, .setl, .setle,
    .ret]

def name : Mnemonic → String
  | .push => "push"
  | .pop => "pop"
  | .mov => "mov"
  | .movzb => "movzb"
  | .add => "add"
  | .sub => "sub"
  | .imul => "imul"
  | .cqo => "cqo"
  | .idiv => "idiv"
  | .cmp => "cmp"
  | .sete => "sete"
  | .setne => "setne"
  | .setl => "setl"
  | .setle => "setle"
  | .ret => "ret"

def ofName? (s : String) : Option Mnemonic := all.find? (·.name = s)

theorem ofName?_name (m : Mnemonic) : ofName? m.name = some m := by cases m <;> decide

end Mnemonic

/-- Registers: five words, and the low byte of the first. -/
inductive Register where
  | rax
  | rdi
  | rdx
  | rbp
  | rsp
  | al
deriving DecidableEq

namespace Register

def all : List Register := [.rax, .rdi, .rdx, .rbp, .rsp, .al]

def name : Register → String
  | .rax => "rax"
  | .rdi => "rdi"
  | .rdx => "rdx"
  | .rbp => "rbp"
  | .rsp => "rsp"
  | .al => "al"

def ofName? (s : String) : Option Register := all.find? (·.name = s)

theorem ofName?_name (r : Register) : ofName? r.name = some r := by cases r <;> decide

end Register

inductive Operand where
  | register (r : Register)
  /-- The word at the address that a register holds. -/
  | indirect (r : Register)
  | immediate (n : Int)
deriving DecidableEq

def Operand.render : Operand → String
  | .register r => r.name
  | .indirect r => "[" ++ r.name ++ "]"
  | .immediate n => Text.decimal n

structure Instruction where
  mnemonic : Mnemonic
  operands : List Operand
deriving DecidableEq

/-- A line of an assembly text. -/
inductive AssemblyLine where
  | directive (text : String)
  | label (name : String)
  | comment (text : String)
  | instruction (i : Instruction)
deriving DecidableEq

/-- Spaces before an instruction or a comment. -/
def margin : String := "        "

def mnemonicWidth : Nat := 8

/-- A text with spaces behind it up to a width. -/
def padRight (width : Nat) (s : String) : String :=
  s ++ String.ofList (List.replicate (width - s.length) ' ')

def Instruction.render (i : Instruction) : String :=
  match i.operands with
  | [] => margin ++ i.mnemonic.name
  | os => margin ++ padRight mnemonicWidth i.mnemonic.name ++
      String.intercalate ", " (os.map Operand.render)

def AssemblyLine.render : AssemblyLine → String
  | .directive text => text
  | .label name => name ++ ":"
  | .comment text => margin ++ "# " ++ text
  | .instruction i => i.render

/-- An assembly text; every line ends with a line feed. -/
def renderAssembly (lines : List AssemblyLine) : String :=
  String.intercalate "\n" (lines.map AssemblyLine.render) ++ "\n"

end WordLang
