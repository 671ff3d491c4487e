import WordLang.Proofs.Evaluation
import WordLang.Proofs.Machine.Instruction
import WordLang.Proofs.Machine.Run
import WordLang.Slots

/-! The frame of a running program: the return address, the saved frame pointer, one word for each
variable and below them the operands. Variables and operands never share a word. -/
namespace WordLang

/-- The address in the frame pointer while a program runs. -/
def framePointer : Nat := stackTop - 2 * wordBytes

/-- The address of a variable. -/
def Slot.address (slot : Slot) : Nat := framePointer - slot.offset

/-- The address behind the operands. -/
def SlotTable.base (t : SlotTable) : Nat := framePointer - t.frameSize

/-- Each slot is a word of the frame, and different names have different words. -/
structure SlotTable.LaidOut (t : SlotTable) : Prop where
  pos : ∀ slot ∈ t.slots, 0 < slot.offset
  le_frameSize : ∀ slot ∈ t.slots, slot.offset ≤ t.frameSize
  aligned : ∀ slot ∈ t.slots, slot.offset % wordBytes = 0
  offset_eq_iff : ∀ a ∈ t.slots, ∀ b ∈ t.slots, a.offset = b.offset ↔ a.name = b.name

theorem SlotTable.frameSize_mod (t : SlotTable) : t.frameSize % wordBytes = 0 := by
  unfold SlotTable.frameSize SlotTable.alignment wordBytes
  omega

/-- A number of operands fits below the frame. -/
def SlotTable.Room (t : SlotTable) (n : Nat) : Prop :=
  2 * wordBytes + t.frameSize + wordBytes * n ≤ stackSize

theorem SlotTable.Room.mono {t : SlotTable} {m n : Nat} (h : t.Room n) (hle : m ≤ n) :
    t.Room m := by
  have : wordBytes * m ≤ wordBytes * n := Nat.mul_le_mul_left _ hle
  unfold SlotTable.Room at *
  omega

/-- Operands from an address upward, the latest first. -/
def OnStack (m : Memory) : Nat → List Word → Prop
  | _, [] => True
  | address, w :: ws => m.get address = w ∧ OnStack m (address + wordBytes) ws

/-- A running program has its variables in their slots and its operands below the frame. -/
structure Represents (t : SlotTable) (env : Env) (ops : List Word) (s : State) : Prop where
  running : s.halted = false
  room : t.Room ops.length
  rbp : s.rbp.toNat = framePointer
  rsp : s.rsp.toNat = t.base - wordBytes * ops.length
  operands : OnStack s.memory s.rsp.toNat ops
  slots : ∀ slot ∈ t.slots, s.memory.get slot.address = Word.ofInt (env slot.name)
  saved : s.memory.get? framePointer = some 0
  returns : s.memory.get? (framePointer + wordBytes) = some sentinel

/-- An instruction writes below the saved words only, and pushes below the variables. -/
def Confined (t : SlotTable) (e : Entry) (s : State) : Prop :=
  ∀ address, Action.target? e s = some address →
    address < framePointer ∧ (Mnemonic.ofName? e.mnemonic = some .push → address < t.base)

theorem addressFault?_eq_none {a : Nat} (hm : a % wordBytes = 0) (hl : stackTop - stackSize ≤ a)
    (hu : a < stackTop) : Action.addressFault? a = none := by
  rw [Action.addressFault?, if_neg (by omega), if_neg (by omega)]

theorem Memory.get_set_self (m : Memory) (a : Nat) (w : Word) : (m.set a w).get a = w := by
  rw [Memory.get, Memory.get?_set_self]
  rfl

theorem Memory.get_set_ne (m : Memory) {a b : Nat} (h : b ≠ a) (w : Word) :
    (m.set a w).get b = m.get b := by
  rw [Memory.get, Memory.get?_set_ne m h, Memory.get]

theorem OnStack.set {m : Memory} {a address : Nat} {ops : List Word} (h : OnStack m address ops)
    (ha : ∀ i < ops.length, address + wordBytes * i ≠ a) (w : Word) :
    OnStack (m.set a w) address ops := by
  induction ops generalizing address with
  | nil => trivial
  | cons v ops ih =>
    obtain ⟨hv, h⟩ := h
    refine ⟨?_, ih h fun i hi => ?_⟩
    · have : address ≠ a := ha 0 (by simp)
      rw [Memory.get_set_ne m this, hv]
    · have := ha (i + 1) (by simpa using hi)
      rw [Nat.mul_succ] at this
      omega

namespace Represents

variable {t : SlotTable} {env : Env} {ops : List Word} {s s' : State} {w : Word}

/-- The invariant reads four parts of the state only. -/
theorem congr (h : Represents t env ops s) (hh : s'.halted = s.halted) (hb : s'.rbp = s.rbp)
    (hp : s'.rsp = s.rsp) (hm : s'.memory = s.memory) : Represents t env ops s' where
  running := hh.trans h.running
  room := h.room
  rbp := hb ▸ h.rbp
  rsp := hp ▸ h.rsp
  operands := by rw [hm, hp]; exact h.operands
  slots := by rw [hm]; exact h.slots
  saved := by rw [hm]; exact h.saved
  returns := by rw [hm]; exact h.returns

theorem ticked (h : Represents t env ops s) : Represents t env ops s.ticked :=
  h.congr rfl rfl rfl rfl

/-- Scratch registers are no part of the frame. -/
theorem set (h : Represents t env ops s) (w : Word) {r : Register} (hb : r ≠ .rbp)
    (hp : r ≠ .rsp) : Represents t env ops (s.set w r) := by
  cases r with
  | rbp => exact absurd rfl hb
  | rsp => exact absurd rfl hp
  | _ => exact h.congr rfl rfl rfl rfl

theorem rsp_add (h : Represents t env ops s) :
    s.rsp.toNat + wordBytes * ops.length = t.base ∧ t.base + t.frameSize = framePointer ∧
      stackTop - stackSize ≤ s.rsp.toNat := by
  have hroom := h.room
  have hrsp := h.rsp
  simp only [SlotTable.Room, SlotTable.base, framePointer, stackTop, stackSize, wordBytes] at *
  omega

theorem rsp_mod (h : Represents t env ops s) : s.rsp.toNat % wordBytes = 0 := by
  obtain ⟨h₁, h₂, -⟩ := h.rsp_add
  have := t.frameSize_mod
  simp only [framePointer, stackTop, wordBytes] at *
  omega

theorem toNat_sub_word (h : Represents t env ops s) :
    (s.rsp - BitVec.ofNat 64 wordBytes).toNat = s.rsp.toNat - wordBytes := by
  obtain ⟨-, -, hl⟩ := h.rsp_add
  simp only [stackTop, stackSize, wordBytes] at *
  bv_omega

theorem addressFault?_push (h : Represents t env ops s) (hr : t.Room (ops.length + 1)) :
    Action.addressFault? (s.rsp - BitVec.ofNat 64 wordBytes).toNat = none := by
  obtain ⟨h₁, h₂, -⟩ := h.rsp_add
  have hm := h.rsp_mod
  rw [h.toNat_sub_word]
  simp only [SlotTable.Room, framePointer, stackTop, stackSize, wordBytes] at hr h₁ h₂ hm
  apply addressFault?_eq_none <;> simp only [stackTop, stackSize, wordBytes] <;> omega

theorem pushed (h : Represents t env ops s) (ht : t.LaidOut) (hr : t.Room (ops.length + 1))
    (w : Word) : Represents t env (w :: ops) (s.pushed w) := by
  obtain ⟨h₁, h₂, h₃⟩ := h.rsp_add
  have hsub := h.toNat_sub_word
  have hw : 0 < wordBytes := by decide
  have hlow : wordBytes ≤ stackTop - stackSize := by decide
  have hlt : (s.rsp - BitVec.ofNat 64 wordBytes).toNat < t.base := by omega
  constructor
  case running => exact h.running
  case room => exact hr
  case rbp => exact h.rbp
  case rsp =>
    show (s.rsp - BitVec.ofNat 64 wordBytes).toNat = _
    rw [List.length_cons, Nat.mul_succ]
    omega
  case operands =>
    refine ⟨Memory.get_set_self _ _ _, ?_⟩
    have haddress : (s.pushed w).rsp.toNat + wordBytes = s.rsp.toNat := by
      show (s.rsp - BitVec.ofNat 64 wordBytes).toNat + wordBytes = _
      omega
    rw [haddress]
    exact h.operands.set (fun i _ => by omega) w
  case slots =>
    intro slot hs
    have hle := ht.le_frameSize slot hs
    have hne : slot.address ≠ (s.rsp - BitVec.ofNat 64 wordBytes).toNat := by
      unfold Slot.address
      omega
    exact (Memory.get_set_ne _ hne w).trans (h.slots slot hs)
  case saved => exact (Memory.get?_set_ne _ (by omega) w).trans h.saved
  case returns => exact (Memory.get?_set_ne _ (by omega) w).trans h.returns

theorem addressFault?_pop (h : Represents t env (w :: ops) s) :
    Action.addressFault? s.rsp.toNat = none := by
  obtain ⟨h₁, h₂, h₃⟩ := h.rsp_add
  have hp : framePointer < stackTop := by decide
  exact addressFault?_eq_none h.rsp_mod h₃ (by omega)

theorem top_eq (h : Represents t env (w :: ops) s) : s.top = w := h.operands.1

theorem popped (h : Represents t env (w :: ops) s) : Represents t env ops s.popped := by
  obtain ⟨h₁, h₂, h₃⟩ := h.rsp_add
  rw [List.length_cons, Nat.mul_succ] at h₁
  have hadd : s.popped.rsp.toNat = s.rsp.toNat + wordBytes := by
    show (s.rsp + BitVec.ofNat 64 wordBytes).toNat = _
    simp only [framePointer, stackTop, wordBytes] at *
    bv_omega
  constructor
  case running => exact h.running
  case room => exact h.room.mono (Nat.le_succ _)
  case rbp => exact h.rbp
  case rsp => omega
  case operands =>
    rw [hadd]
    exact h.operands.2
  case slots => exact h.slots
  case saved => exact h.saved
  case returns => exact h.returns

theorem addressFault?_slot (h : Represents t env ops s) (ht : t.LaidOut) {slot : Slot}
    (hs : slot ∈ t.slots) : Action.addressFault? slot.address = none := by
  obtain ⟨-, h₂, -⟩ := h.rsp_add
  have hroom := h.room
  have hle := ht.le_frameSize slot hs
  have hm := ht.aligned slot hs
  simp only [SlotTable.Room, framePointer, stackTop, stackSize, wordBytes] at hroom h₂ hm
  apply addressFault?_eq_none <;>
    simp only [Slot.address, framePointer, stackTop, stackSize, wordBytes] <;> omega

/-- A store to the slot of a variable changes that variable and nothing else. -/
theorem store (h : Represents t env ops s) (ht : t.LaidOut) {slot : Slot} (hs : slot ∈ t.slots)
    (v : Int) : Represents t (Function.update env slot.name v) ops
      { s with memory := s.memory.set slot.address (Word.ofInt v) } := by
  obtain ⟨h₁, h₂, -⟩ := h.rsp_add
  have hpos := ht.pos slot hs
  have hle := ht.le_frameSize slot hs
  have hlt : slot.address < framePointer := by
    unfold Slot.address
    omega
  have hge : t.base ≤ slot.address := by
    unfold Slot.address
    omega
  constructor
  case running => exact h.running
  case room => exact h.room
  case rbp => exact h.rbp
  case rsp => exact h.rsp
  case operands =>
    refine h.operands.set (fun i hi => ?_) _
    have := Nat.mul_lt_mul_of_pos_left hi (show 0 < wordBytes by decide)
    omega
  case slots =>
    intro other ho
    by_cases hname : other.name = slot.name
    · have haddress : other.address = slot.address := by
        rw [Slot.address, (ht.offset_eq_iff other ho slot hs).mpr hname, Slot.address]
      rw [hname, Function.update_self, haddress]
      exact Memory.get_set_self _ _ _
    · have hne : other.address ≠ slot.address := by
        intro heq
        have hother := ht.le_frameSize other ho
        refine hname ((ht.offset_eq_iff other ho slot hs).mp ?_)
        unfold Slot.address at heq
        omega
      rw [Function.update_of_ne hname]
      exact (Memory.get_set_ne _ hne _).trans (h.slots other ho)
  case saved => exact (Memory.get?_set_ne _ (by omega) _).trans h.saved
  case returns => exact (Memory.get?_set_ne _ (by omega) _).trans h.returns

end Represents

end WordLang
