import WordLang.Diagnostic
import WordLang.Machine.Step

/-! Running programs. A run goes on until the program returns, faults or reaches its limit of steps,
or until an observer stops it. -/
namespace WordLang

def Fault.message (f : Fault) : String :=
  (match f.line with
    | some n => "line " ++ Text.decimal n ++ ": "
    | none => "") ++ Text.showDetail f.cause.text?

structure Machine where
  listing : Listing
  stepLimit : Int
  state : State
deriving DecidableEq

/-- An observer is asked before each instruction, with its index, whether to go on. -/
abbrev Observer := Int → Entry → Bool

namespace Observer

def watch : Observer := fun _ _ => true

def untilMnemonic (m : String) : Observer := fun _ e => e.mnemonic != m

def untilIndex (n : Int) : Observer := fun i _ => i != n

end Observer

/-- What ends a run without a value. -/
inductive Halt where
  | fault (f : Fault)
  /-- The observer was to be shown an instruction before the first. -/
  | outOfRange
deriving DecidableEq

/-- The end of a run: a value, no value if the observer stopped it, or a halt; the state that is
left; and what the observer was shown. -/
structure Run where
  outcome : Except Halt (Option Int)
  state : State
  shown : List (Int × Entry)

namespace Machine

def defaultStepLimit : Int := 1000000

/-- The label at which programs start. -/
def entryLabel : String := "main"

/-- The state at the start of a program, with the sentinel on the stack. -/
def entryState (l : Listing) : Except Fault State :=
  match l.labels.find? entryLabel with
  | none => .error ⟨.noMain, none⟩
  | some index =>
    let s := State.start index
    let rsp := s.rsp - BitVec.ofNat 64 wordBytes
    .ok { s with rsp := rsp, memory := s.memory.set rsp.toNat sentinel }

def load (l : Listing) (stepLimit : Int) : Except Fault Machine :=
  (entryState l).map fun s => ⟨l, stepLimit, s⟩

def reset (m : Machine) : Except Fault Machine :=
  (entryState m.listing).map fun s => { m with state := s }

def step (m : Machine) : Except Fault Unit × Machine :=
  match Action.step m.listing.entries m.state with
  | .ok _ s => (.ok (), { m with state := s })
  | .error f s => (.error f, { m with state := s })

/-- Several steps, up to the first fault. -/
def stepMany (m : Machine) : Nat → Except Fault Unit × Machine
  | 0 => (.ok (), m)
  | n + 1 =>
    match m.step with
    | (.ok _, m') => stepMany m' n
    | (.error f, m') => (.error f, m')

/-- The entry that an observer is shown; an index below zero counts from the end. -/
def shownEntry? (code : Array Entry) (index : Int) : Option Entry :=
  Action.entryAt? code (if index < 0 then code.size + index else index)

/-- What an observer says at a state. Behind the last instruction it is not asked. -/
inductive Verdict where
  | proceed (shown : List (Int × Entry))
  | stop (shown : List (Int × Entry))
  | outOfRange

/-- Asks an observer, if there is one, about the instruction at an index. -/
def consultAt (code : Array Entry) (observer : Option Observer) (ip : Int) : Verdict :=
  match observer with
  | none => .proceed []
  | some f =>
    if code.size ≤ ip then .proceed []
    else match shownEntry? code ip with
      | none => .outOfRange
      | some e => if f ip e then .proceed [(ip, e)] else .stop [(ip, e)]

def consult (code : Array Entry) (observer : Option Observer) (s : State) : Verdict :=
  consultAt code observer s.ip

/-- A run within a number of steps, after the observer was shown some instructions, the latest
first. There are no jumps, so as many steps as there are instructions left always suffice. -/
def runWithin (code : Array Entry) (limit : Int) (observer : Option Observer) :
    Nat → State → List (Int × Entry) → Run
  | n, s, seen =>
    if s.halted then ⟨.ok (some s.result), s, seen.reverse⟩
    else if limit ≤ s.steps then ⟨.error (.fault ⟨.stepLimit limit, none⟩), s, seen.reverse⟩
    else match n, consult code observer s with
      | _, .outOfRange => ⟨.error .outOfRange, s, seen.reverse⟩
      | _, .stop shown => ⟨.ok none, s, (shown ++ seen).reverse⟩
      | 0, .proceed shown => ⟨.error (.fault ⟨.pastEnd, none⟩), s, (shown ++ seen).reverse⟩
      | n + 1, .proceed shown =>
        match Action.step code s with
        | .error f s' => ⟨.error (.fault f), s', (shown ++ seen).reverse⟩
        | .ok _ s' => runWithin code limit observer n s' (shown ++ seen)

def run (m : Machine) (observer : Option Observer) : Run :=
  runWithin m.listing.entries m.stepLimit observer
    ((m.listing.entries.size : Int) - m.state.ip).toNat m.state []

end Machine

def runAssembly (text : String) (stepLimit : Int) : Except Fault Run :=
  (Machine.load (.read text) stepLimit).map fun m => m.run none

end WordLang
