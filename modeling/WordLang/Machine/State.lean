import WordLang.Assembly.Instruction
import WordLang.Assembly.Listing
import WordLang.Machine.Arithmetic

/-! The state of the machine: five registers, the last comparison, and the words of the stack that
were ever written. -/
namespace WordLang

abbrev Word := BitVec 64

/-- The word with a signed value, which wraps. -/
def Word.ofInt (n : Int) : Word := BitVec.ofInt 64 n

def wordBytes : Nat := 8

def stackTop : Nat := 0x7ffff000

def stackSize : Nat := 0x100000

/-- The return address that ends the program. -/
def sentinel : Word := 0xdeadbeef0000#64

/-! ### Memory -/

/-- Words by address, in rising order of addresses. -/
structure Memory where
  cells : List (Nat × Word)
deriving DecidableEq

namespace Memory

def empty : Memory := ⟨[]⟩

/-- Cells with one of them set; new addresses go where the order wants them. -/
def setCell {α β : Type} [LT α] [DecidableLT α] [DecidableEq α] (address : α) (word : β) :
    List (α × β) → List (α × β)
  | [] => [(address, word)]
  | (a, w) :: rest =>
    if address < a then (address, word) :: (a, w) :: rest
    else if address = a then (address, word) :: rest
    else (a, w) :: setCell address word rest

def get? (m : Memory) (address : Nat) : Option Word := m.cells.lookup address

def set (m : Memory) (address : Nat) (word : Word) : Memory := ⟨setCell address word m.cells⟩

/-- A word that was never written is zero. -/
def get (m : Memory) (address : Nat) : Word := (m.get? address).getD 0

theorem lookup_setCell_self (address : Nat) (word : Word) (cells : List (Nat × Word)) :
    (setCell address word cells).lookup address = some word := by
  induction cells with
  | nil => rw [setCell, List.lookup_cons, beq_self_eq_true]
  | cons cell rest ih =>
    obtain ⟨a, w⟩ := cell
    rw [setCell]
    split
    · rw [List.lookup_cons, beq_self_eq_true]
    · split
      · rw [List.lookup_cons, beq_self_eq_true]
      · rename_i hne
        rw [List.lookup_cons, beq_false_of_ne hne]
        exact ih

theorem lookup_setCell_ne {address other : Nat} (h : other ≠ address) (word : Word)
    (cells : List (Nat × Word)) :
    (setCell address word cells).lookup other = cells.lookup other := by
  induction cells with
  | nil => rw [setCell, List.lookup_cons, beq_false_of_ne h]
  | cons cell rest ih =>
    obtain ⟨a, w⟩ := cell
    rw [setCell]
    split
    · rw [List.lookup_cons, beq_false_of_ne h]
    · split
      · rename_i heq
        subst heq
        rw [List.lookup_cons, List.lookup_cons, beq_false_of_ne h]
      · rw [List.lookup_cons, List.lookup_cons, ih]

theorem get?_set_self (m : Memory) (address : Nat) (word : Word) :
    (m.set address word).get? address = some word :=
  lookup_setCell_self address word m.cells

theorem get?_set_ne (m : Memory) {address other : Nat} (h : other ≠ address) (word : Word) :
    (m.set address word).get? other = m.get? other :=
  lookup_setCell_ne h word m.cells

end Memory

/-! ### Faults -/

/-- Why the machine cannot go on. -/
inductive FaultCause where
  /-- A fault in free words. -/
  | report (text : Option String)
  | noMain
  | stepLimit (limit : Int)
  | pastEnd
  | unknownInstruction (mnemonic : String)
  | unknownRegister (name : String)
  | unaligned (address : Int)
  | outsideStack (address : Int)
  | operandCount (mnemonic : String) (wanted given : Nat)
  | unknownOperand (text : String)
  | memoryToMemory
  | divisionByZero
  | divisionOverflow
  | corruptedReturn (address : Int)
deriving DecidableEq

/-- The bare message; only a fault in free words can lack it. -/
def FaultCause.text? : FaultCause → Option String
  | .report text => text
  | .noMain => some "no 'main' label in program"
  | .stepLimit limit => some ("step limit of " ++ Text.decimal limit ++ " exceeded")
  | .pastEnd => some "execution ran past the end of the program"
  | .unknownInstruction m => some ("unsupported instruction '" ++ m ++ "'")
  | .unknownRegister r => some ("unsupported register '" ++ r ++ "'")
  | .unaligned a => some ("unaligned memory access at " ++ Text.hexadecimal a)
  | .outsideStack a => some ("memory access outside the stack at " ++ Text.hexadecimal a)
  | .operandCount m wanted given =>
    some ("'" ++ m ++ "' takes " ++ Nat.repr wanted ++ " operand(s), got " ++ Nat.repr given)
  | .unknownOperand t => some ("unsupported operand '" ++ t ++ "'")
  | .memoryToMemory => some "memory-to-memory mov is not encodable"
  | .divisionByZero => some "division by zero"
  | .divisionOverflow => some "division overflow"
  | .corruptedReturn a =>
    some ("return through corrupted stack (return address " ++ Text.hexadecimal a ++ ")")

/-- A fault, with the line of the instruction at which it arose. -/
structure Fault where
  cause : FaultCause
  line : Option Int
deriving DecidableEq

/-! ### State -/

structure State where
  rax : Word
  rdi : Word
  rdx : Word
  rbp : Word
  rsp : Word
  /-- The index of the next instruction. -/
  ip : Int
  cmpLeft : Word
  cmpRight : Word
  halted : Bool
  /-- The number of instructions begun. -/
  steps : Nat
  memory : Memory
deriving DecidableEq

namespace State

/-- The state at an instruction, with an empty stack. -/
def start (ip : Int) : State :=
  { rax := 0, rdi := 0, rdx := 0, rbp := 0, rsp := BitVec.ofNat 64 stackTop, ip := ip,
    cmpLeft := 0, cmpRight := 0, halted := false, steps := 0, memory := .empty }

/-- The value of the program: a register read as signed. -/
def result (s : State) : Int := s.rax.toInt

def get (s : State) : Register → Word
  | .rax => s.rax
  | .rdi => s.rdi
  | .rdx => s.rdx
  | .rbp => s.rbp
  | .rsp => s.rsp
  | .al => s.rax &&& 0xff

/-- Sets a register; the byte register keeps the rest of its word. -/
def set (s : State) (w : Word) : Register → State
  | .rax => { s with rax := w }
  | .rdi => { s with rdi := w }
  | .rdx => { s with rdx := w }
  | .rbp => { s with rbp := w }
  | .rsp => { s with rsp := w }
  | .al => { s with rax := (s.rax &&& ~~~0xff) ||| (w &&& 0xff) }

end State

end WordLang
