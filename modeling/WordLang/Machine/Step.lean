import WordLang.Machine.State

/-! What one instruction does. What it has changed before a fault stays changed. -/
namespace WordLang

abbrev Action (α : Type) := EStateM Fault State α

namespace Action

def fault {σ α : Type} (e : Entry) (cause : FaultCause) : EStateM Fault σ α :=
  fun s => .error ⟨cause, some e.line⟩ s

/-! ### Registers, memory and stack -/

def readRegister (e : Entry) (name : String) : Action Word := fun s =>
  match Register.ofName? name with
  | some r => .ok (s.get r) s
  | none => fault e (.unknownRegister name) s

def writeRegister (e : Entry) (name : String) (w : Word) : Action Unit := fun s =>
  match Register.ofName? name with
  | some r => .ok () (s.set w r)
  | none => fault e (.unknownRegister name) s

/-- What is wrong with an address, if anything. Alignment is checked first. -/
def addressFault? (address : Int) : Option FaultCause :=
  if address % wordBytes ≠ 0 then some (.unaligned address)
  else if address < stackTop - stackSize ∨ stackTop ≤ address then some (.outsideStack address)
  else none

def readMemory (e : Entry) (address : Word) : Action Word := fun s =>
  match addressFault? address.toNat with
  | some cause => fault e cause s
  | none => .ok (s.memory.get address.toNat) s

def writeMemory (e : Entry) (address w : Word) : Action Unit := fun s =>
  match addressFault? address.toNat with
  | some cause => fault e cause s
  | none => .ok () { s with memory := s.memory.set address.toNat w }

/-- Moves the stack pointer down, then writes there. -/
def pushWord (e : Entry) (w : Word) : Action Unit := fun s =>
  let s' := { s with rsp := s.rsp - BitVec.ofNat 64 wordBytes }
  writeMemory e s'.rsp w s'

/-- Reads at the stack pointer, then moves it up. -/
def popWord (e : Entry) : Action Word := do
  let s ← get
  let w ← readMemory e s.rsp
  set { s with rsp := s.rsp + BitVec.ofNat 64 wordBytes }
  pure w

/-! ### Operands -/

/-- The text between the brackets of a memory operand. -/
def addressName? (operand : String) : Option String :=
  let cs := operand.toList
  if cs.head? = some '[' ∧ cs.getLast? = some ']' then
    some (String.ofList (Text.trim (cs.drop 1).dropLast))
  else none

/-- The value of an operand: a word of memory, a register or an immediate. -/
def readOperand (e : Entry) (operand : String) : Action Word :=
  match addressName? operand with
  | some name => do readMemory e (← readRegister e name)
  | none =>
    match Register.ofName? operand with
    | some r => fun s => .ok (s.get r) s
    | none =>
      match Text.integer? operand.toList with
      | some n => pure (Word.ofInt n)
      | none => fault e (.unknownOperand operand)

/-- Stores into an operand: a word of memory or a register. -/
def writeOperand (e : Entry) (operand : String) (w : Word) : Action Unit :=
  match addressName? operand with
  | some name => do writeMemory e (← readRegister e name) w
  | none => writeRegister e operand w

def withNone {σ : Type} (e : Entry) (act : EStateM Fault σ Unit) : EStateM Fault σ Unit :=
  match e.operands with
  | [] => act
  | os => fault e (.operandCount e.mnemonic 0 os.length)

def withOne {σ : Type} (e : Entry) (act : String → EStateM Fault σ Unit) : EStateM Fault σ Unit :=
  match e.operands with
  | [x] => act x
  | os => fault e (.operandCount e.mnemonic 1 os.length)

def withTwo {σ : Type} (e : Entry) (act : String → String → EStateM Fault σ Unit) :
    EStateM Fault σ Unit :=
  match e.operands with
  | [x, y] => act x y
  | os => fault e (.operandCount e.mnemonic 2 os.length)

/-! ### Instructions -/

def arithmetic (e : Entry) (f : Word → Word → Word) : Action Unit :=
  withTwo e fun dest src => do
    let left ← readRegister e dest
    let right ← readOperand e src
    writeRegister e dest (f left right)

/-- Divides the double word of two halves: the quotient, rounded toward zero, and the remainder, both
as patterns of words. -/
def divideDouble (high low divisor : Int) : Except FaultCause (Int × Int) :=
  if divisor = 0 then .error .divisionByZero
  else
    let bits := Bits.or (high <<< (64 : Nat)) low
    let dividend := if Bits.and bits ((1 : Int) <<< (127 : Nat)) ≠ 0
      then bits - (1 : Int) <<< (128 : Nat) else bits
    let size : Int := (dividend.natAbs : Int) / (divisor.natAbs : Int)
    let quotient := if decide (dividend < 0) != decide (divisor < 0) then -size else size
    if -signBit ≤ quotient ∧ quotient < signBit then
      .ok (Bits.and quotient wordMask, Bits.and (dividend - quotient * divisor) wordMask)
    else .error .divisionOverflow

def divide (high low : Word) (divisor : Int) : Except FaultCause (Word × Word) :=
  (divideDouble high.toNat low.toNat divisor).map fun p => (Word.ofInt p.1, Word.ofInt p.2)

/-- Divides the double word in two registers by an operand. -/
def divideBy (e : Entry) (operand : String) : Action Unit := do
  let divisor ← readOperand e operand
  fun s =>
    match divide s.rdx s.rax divisor.toInt with
    | .error cause => fault e cause s
    | .ok (quotient, remainder) => .ok () { s with rax := quotient, rdx := remainder }

/-- Sets a register to one or zero by the last comparison. -/
def setIf (e : Entry) (test : Int → Int → Bool) : Action Unit :=
  withOne e fun dest => do
    let s ← get
    writeRegister e dest (if test s.cmpLeft.toInt s.cmpRight.toInt then 1 else 0)

/-- Returns; only the sentinel is a good return address. -/
def returnFrom (e : Entry) : Action Unit := do
  let address ← popWord e
  if address = sentinel then
    modify fun s => { s with halted := true }
  else
    fault e (.corruptedReturn address.toNat)

def perform (e : Entry) : Mnemonic → Action Unit
  | .push => withOne e fun x => do pushWord e (← readOperand e x)
  | .pop => withOne e fun x => do writeRegister e x (← popWord e)
  | .mov => withTwo e fun dest src =>
    if (addressName? dest).isSome ∧ (addressName? src).isSome then fault e .memoryToMemory
    else do writeOperand e dest (← readOperand e src)
  | .movzb => withTwo e fun dest src => do writeRegister e dest ((← readOperand e src) &&& 0xff)
  | .add => arithmetic e (· + ·)
  | .sub => arithmetic e (· - ·)
  | .imul => arithmetic e (· * ·)
  | .cqo => withNone e (modify fun s => { s with rdx := if s.rax.msb then -1 else 0 })
  | .idiv => withOne e (divideBy e)
  | .cmp => withTwo e fun x y => do
    let left ← readOperand e x
    modify fun s => { s with cmpLeft := left }
    let right ← readOperand e y
    modify fun s => { s with cmpRight := right }
  | .sete => setIf e fun l r => l == r
  | .setne => setIf e fun l r => l != r
  | .setl => setIf e fun l r => decide (l < r)
  | .setle => setIf e fun l r => decide (l ≤ r)
  | .ret => withNone e (returnFrom e)

def execute (e : Entry) : Action Unit :=
  match Mnemonic.ofName? e.mnemonic with
  | some m => perform e m
  | none => fault e (.unknownInstruction e.mnemonic)

def entryAt? (code : Array Entry) (index : Int) : Option Entry :=
  if 0 ≤ index then code[index.toNat]? else none

/-- One step. A halted machine rests; otherwise the instruction is counted before it is performed.
-/
def step (code : Array Entry) : Action Unit := fun s =>
  if s.halted then .ok () s
  else match entryAt? code s.ip with
    | none => .error ⟨.pastEnd, none⟩ s
    | some e => execute e { s with ip := s.ip + 1, steps := s.steps + 1 }

end Action

end WordLang
