import WordLang.Diagnostic

/-! Variable slots. Names get slots below the frame pointer in the order in which they first occur,
as long as the frame has room. -/
namespace WordLang

/-- The slot of a variable: its distance in bytes below the frame pointer. -/
structure Slot where
  name : String
  offset : Nat
deriving DecidableEq

/-- The slots handed out so far, in order, in a frame of a fixed number of slots of a fixed size, and
the largest offset among them. -/
structure SlotTable where
  wordSize : Nat
  capacity : Nat
  slots : List Slot
  maxOffset : Nat
deriving DecidableEq

namespace SlotTable

def defaultWordSize : Int := 8

def defaultCapacity : Int := 26

/-- The stack is kept aligned to this many bytes. -/
def alignment : Nat := 16

/-- An empty table. The slot size is checked first. -/
def create (wordSize capacity : Int) : Except Failure SlotTable :=
  if wordSize ≤ 0 then .error (.wordSize wordSize)
  else if capacity < 0 then .error (.capacity capacity)
  else .ok ⟨wordSize.toNat, capacity.toNat, [], 0⟩

def default : SlotTable := ⟨defaultWordSize.toNat, defaultCapacity.toNat, [], 0⟩

def lookup? (t : SlotTable) (name : String) : Option Slot := t.slots.find? (·.name = name)

def contains (t : SlotTable) (name : String) : Bool := (t.lookup? name).isSome

def size (t : SlotTable) : Nat := t.slots.length

/-- The offset of a name. A new name needs room in the frame, and gets a slot below all others. -/
def resolve (name : String) (location : Option Location) (sourceLine : Option String) :
    EStateM Diagnostic SlotTable Nat := do
  let t ← get
  match t.lookup? name with
  | some slot => pure slot.offset
  | none =>
    if t.capacity ≤ t.size then
      throw ⟨.tooMany (some "variables") (some t.capacity), location, sourceLine⟩
    let slot : Slot := ⟨name, t.maxOffset + t.wordSize⟩
    modify fun t => { t with slots := t.slots ++ [slot] }
    modify fun t => { t with maxOffset := slot.offset }
    pure slot.offset

/-- Bytes that the frame takes: room for every slot, rounded up to the alignment. -/
def frameSize (t : SlotTable) : Nat :=
  (t.capacity * t.wordSize + alignment - 1) / alignment * alignment

end SlotTable

end WordLang
