import WordLang.Machine

/-! The machine on integers. Registers, cells of memory and compared operands are integers of any
size here, and each instruction cuts what it stores down to the pattern of a word itself. -/
namespace WordLang

structure WideState where
  rax : Int
  rdi : Int
  rdx : Int
  rbp : Int
  rsp : Int
  ip : Int
  cmpLeft : Int
  cmpRight : Int
  halted : Bool
  steps : Nat
  /-- Patterns by address, in rising order of addresses. -/
  memory : List (Int × Int)
deriving DecidableEq

namespace WideState

def start (ip : Int) : WideState :=
  { rax := 0, rdi := 0, rdx := 0, rbp := 0, rsp := stackTop, ip := ip, cmpLeft := 0, cmpRight := 0,
    halted := false, steps := 0, memory := [] }

def result (s : WideState) : Int := toSigned s.rax

def get (s : WideState) : Register → Int
  | .rax => s.rax
  | .rdi => s.rdi
  | .rdx => s.rdx
  | .rbp => s.rbp
  | .rsp => s.rsp
  | .al => Bits.and s.rax byteMask

/-- Sets a register to the lowest bits of a value; the byte register keeps the rest of its word. -/
def set (s : WideState) (value : Int) : Register → WideState
  | .rax => { s with rax := Bits.and value wordMask }
  | .rdi => { s with rdi := Bits.and value wordMask }
  | .rdx => { s with rdx := Bits.and value wordMask }
  | .rbp => { s with rbp := Bits.and value wordMask }
  | .rsp => { s with rsp := Bits.and value wordMask }
  | .al =>
    { s with
      rax := Bits.or (Bits.and (Bits.and s.rax (~~~byteMask)) wordMask) (Bits.and value byteMask) }

end WideState

abbrev WideAction (α : Type) := EStateM Fault WideState α

namespace WideAction

open WordLang.Action (fault addressFault? addressName? withNone withOne withTwo)

/-! ### Registers, memory and stack -/

def readRegister (e : Entry) (name : String) : WideAction Int := fun s =>
  match Register.ofName? name with
  | some r => .ok (s.get r) s
  | none => fault e (.unknownRegister name) s

def writeRegister (e : Entry) (name : String) (value : Int) : WideAction Unit := fun s =>
  match Register.ofName? name with
  | some r => .ok () (s.set value r)
  | none => fault e (.unknownRegister name) s

def readMemory (e : Entry) (address : Int) : WideAction Int := fun s =>
  match addressFault? address with
  | some cause => fault e cause s
  | none => .ok ((s.memory.lookup address).getD 0) s

def writeMemory (e : Entry) (address value : Int) : WideAction Unit := fun s =>
  match addressFault? address with
  | some cause => fault e cause s
  | none =>
    .ok () { s with memory := Memory.setCell address (Bits.and value wordMask) s.memory }

def pushWord (e : Entry) (value : Int) : WideAction Unit := fun s =>
  let s' := { s with rsp := Bits.and (s.rsp - wordBytes) wordMask }
  writeMemory e s'.rsp value s'

def popWord (e : Entry) : WideAction Int := do
  let s ← get
  let value ← readMemory e s.rsp
  set { s with rsp := Bits.and (s.rsp + wordBytes) wordMask }
  pure value

/-! ### Operands -/

def readOperand (e : Entry) (operand : String) : WideAction Int :=
  match addressName? operand with
  | some name => do readMemory e (← readRegister e name)
  | none =>
    match Register.ofName? operand with
    | some r => fun s => .ok (s.get r) s
    | none =>
      match Text.integer? operand.toList with
      | some n => pure (Bits.and n wordMask)
      | none => fault e (.unknownOperand operand)

def writeOperand (e : Entry) (operand : String) (value : Int) : WideAction Unit :=
  match addressName? operand with
  | some name => do writeMemory e (← readRegister e name) value
  | none => writeRegister e operand value

/-! ### Instructions -/

/-- Arithmetic on signed values; what it comes to need not fit into a word. -/
def arithmetic (e : Entry) (f : Int → Int → Int) : WideAction Unit :=
  withTwo e fun dest src => do
    let left ← readRegister e dest
    let right ← readOperand e src
    writeRegister e dest (f (toSigned left) (toSigned right))

def divideBy (e : Entry) (operand : String) : WideAction Unit := do
  let divisor ← readOperand e operand
  fun s =>
    match Action.divideDouble s.rdx s.rax (toSigned divisor) with
    | .error cause => fault e cause s
    | .ok p => .ok () { s with rax := p.1, rdx := p.2 }

def setIf (e : Entry) (test : Int → Int → Bool) : WideAction Unit :=
  withOne e fun dest => do
    let s ← get
    writeRegister e dest (if test s.cmpLeft s.cmpRight then 1 else 0)

def returnFrom (e : Entry) : WideAction Unit := do
  let address ← popWord e
  if address = sentinel.toNat then
    modify fun s => { s with halted := true }
  else
    fault e (.corruptedReturn address)

def perform (e : Entry) : Mnemonic → WideAction Unit
  | .push => withOne e fun x => do pushWord e (← readOperand e x)
  | .pop => withOne e fun x => do writeRegister e x (← popWord e)
  | .mov => withTwo e fun dest src =>
    if (addressName? dest).isSome ∧ (addressName? src).isSome then fault e .memoryToMemory
    else do writeOperand e dest (← readOperand e src)
  | .movzb => withTwo e fun dest src => do
    writeRegister e dest (Bits.and (← readOperand e src) byteMask)
  | .add => arithmetic e (· + ·)
  | .sub => arithmetic e (· - ·)
  | .imul => arithmetic e (· * ·)
  | .cqo => withNone e <|
    modify fun s => { s with rdx := if Bits.and s.rax signBit ≠ 0 then wordMask else 0 }
  | .idiv => withOne e (divideBy e)
  | .cmp => withTwo e fun x y => do
    let left ← readOperand e x
    modify fun s => { s with cmpLeft := toSigned left }
    let right ← readOperand e y
    modify fun s => { s with cmpRight := toSigned right }
  | .sete => setIf e fun l r => l == r
  | .setne => setIf e fun l r => l != r
  | .setl => setIf e fun l r => decide (l < r)
  | .setle => setIf e fun l r => decide (l ≤ r)
  | .ret => withNone e (returnFrom e)

def execute (e : Entry) : WideAction Unit :=
  match Mnemonic.ofName? e.mnemonic with
  | some m => perform e m
  | none => fault e (.unknownInstruction e.mnemonic)

def step (code : Array Entry) : WideAction Unit := fun s =>
  if s.halted then .ok () s
  else match Action.entryAt? code s.ip with
    | none => .error ⟨.pastEnd, none⟩ s
    | some e => execute e { s with ip := s.ip + 1, steps := s.steps + 1 }

end WideAction

/-! ### Running programs -/

structure WideMachine where
  listing : Listing
  stepLimit : Int
  state : WideState
deriving DecidableEq

structure WideRun where
  outcome : Except Halt (Option Int)
  state : WideState
  shown : List (Int × Entry)

namespace WideMachine

def entryState (l : Listing) : Except Fault WideState :=
  match l.labels.find? Machine.entryLabel with
  | none => .error ⟨.noMain, none⟩
  | some index =>
    let s := WideState.start index
    let rsp := Bits.and (s.rsp - wordBytes) wordMask
    .ok { s with
      rsp := rsp, memory := Memory.setCell rsp (Bits.and sentinel.toNat wordMask) s.memory }

def load (l : Listing) (stepLimit : Int) : Except Fault WideMachine :=
  (entryState l).map fun s => ⟨l, stepLimit, s⟩

def reset (m : WideMachine) : Except Fault WideMachine :=
  (entryState m.listing).map fun s => { m with state := s }

def step (m : WideMachine) : Except Fault Unit × WideMachine :=
  match WideAction.step m.listing.entries m.state with
  | .ok _ s => (.ok (), { m with state := s })
  | .error f s => (.error f, { m with state := s })

/-- A run within a number of steps, as of the machine on words. -/
def runWithin (code : Array Entry) (limit : Int) (observer : Option Observer) :
    Nat → WideState → List (Int × Entry) → WideRun
  | n, s, seen =>
    if s.halted then ⟨.ok (some s.result), s, seen.reverse⟩
    else if limit ≤ s.steps then ⟨.error (.fault ⟨.stepLimit limit, none⟩), s, seen.reverse⟩
    else match n, Machine.consultAt code observer s.ip with
      | _, .outOfRange => ⟨.error .outOfRange, s, seen.reverse⟩
      | _, .stop shown => ⟨.ok none, s, (shown ++ seen).reverse⟩
      | 0, .proceed shown => ⟨.error (.fault ⟨.pastEnd, none⟩), s, (shown ++ seen).reverse⟩
      | n + 1, .proceed shown =>
        match WideAction.step code s with
        | .error f s' => ⟨.error (.fault f), s', (shown ++ seen).reverse⟩
        | .ok _ s' => runWithin code limit observer n s' (shown ++ seen)

def run (m : WideMachine) (observer : Option Observer) : WideRun :=
  runWithin m.listing.entries m.stepLimit observer
    ((m.listing.entries.size : Int) - m.state.ip).toNat m.state []

end WideMachine

end WordLang
