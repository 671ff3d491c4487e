import Mathlib.Algebra.Order.Ring.Int
import WordLang.Proofs.Assembly
import WordLang.Proofs.Computation
import WordLang.Proofs.Machine.Arithmetic

/-! What the instructions of compiled programs do, told on the state alone. An entry that spells an
instruction with readable operands performs it, and only an address or a divisor can stop it. -/
namespace WordLang

/-- The state with a word pushed. -/
def State.pushed (s : State) (w : Word) : State :=
  { s with rsp := s.rsp - BitVec.ofNat 64 wordBytes,
           memory := s.memory.set (s.rsp - BitVec.ofNat 64 wordBytes).toNat w }

/-- The state with the topmost word popped and dropped. -/
def State.popped (s : State) : State := { s with rsp := s.rsp + BitVec.ofNat 64 wordBytes }

/-- The topmost word. -/
def State.top (s : State) : Word := s.memory.get s.rsp.toNat

/-- An integer whose numeral is short enough to be read. -/
def Text.Readable (n : Int) : Prop := (Nat.toDigits 10 n.natAbs).length ≤ Text.maxDecimalDigits

theorem Text.readable_of_natAbs_lt {n : Int} (h : n.natAbs < 10 ^ 20) : Text.Readable n := by
  have hlen : (Nat.toDigits 10 n.natAbs).length ≤ 20 :=
    (Nat.length_toDigits_le_iff (by decide) (by decide)).mpr h
  exact Nat.le_trans hlen (by decide)

namespace Action

/-! ### Operands -/

theorem addressName?_eq_none {operand : String} (h : operand.toList.head? ≠ some '[') :
    addressName? operand = none := by
  rw [addressName?]
  exact if_neg fun hc => h hc.1

theorem addressName?_register (r : Register) : addressName? r.name = none := by
  cases r <;> decide

theorem addressName?_indirect (r : Register) :
    addressName? (Operand.indirect r).render = some r.name := by
  cases r <;> decide

theorem readOperand_register (e : Entry) (r : Register) (s : State) :
    readOperand e (Operand.register r).render s = .ok (s.get r) s := by
  rw [Operand.render, readOperand, addressName?_register, Register.ofName?_name]

theorem readOperand_indirect (e : Entry) (r : Register) {s : State}
    (ha : addressFault? (s.get r).toNat = none) :
    readOperand e (Operand.indirect r).render s = .ok (s.memory.get (s.get r).toNat) s := by
  rw [readOperand, addressName?_indirect]
  simp only [bind, EStateM.bind, readRegister, Register.ofName?_name, readMemory, ha]

theorem head?_decimal (n : Int) : ∃ c, (Text.decimal n).toList.head? = some c ∧
    (c = '-' ∨ c.isDigit) := by
  obtain ⟨c, cs, hc⟩ := List.exists_cons_of_ne_nil (Text.decimal_ne_nil n)
  exact ⟨c, by rw [hc]; rfl, Text.mem_decimal (hc ▸ List.mem_cons_self)⟩

/-- A numeral is no register. -/
theorem ofName?_decimal (n : Int) : Register.ofName? (Text.decimal n) = none := by
  obtain ⟨c, hc, hd⟩ := head?_decimal n
  rw [Register.ofName?, List.find?_eq_none]
  intro r hr hname
  have hrc : r.name.toList.head? = some c := by rw [← hc, of_decide_eq_true hname]
  have hletter : ∀ r ∈ Register.all,
      r.name.toList.head?.all (fun c => c != '-' && !c.isDigit) = true := by decide
  have hcd := hletter r hr
  rw [hrc, Option.all_some, Bool.and_eq_true, bne_iff_ne, Bool.not_eq_true'] at hcd
  rcases hd with hd | hd
  · exact hcd.1 hd
  · exact absurd hd (by simp [hcd.2])

theorem addressName?_immediate (n : Int) : addressName? (Operand.immediate n).render = none := by
  obtain ⟨c, hc, hd⟩ := head?_decimal n
  apply addressName?_eq_none
  rw [Operand.render, hc]
  rintro ⟨rfl⟩
  revert hd
  decide

theorem readOperand_immediate (e : Entry) {n : Int} (h : Text.Readable n) (s : State) :
    readOperand e (Operand.immediate n).render s = .ok (Word.ofInt n) s := by
  rw [readOperand, addressName?_immediate, Operand.render, ofName?_decimal, Text.integer?_decimal h]
  rfl

/-! ### Instructions -/

theorem execute_of_spells {e : Entry} {i : Instruction} (he : e.Spells i) :
    execute e = perform e i.mnemonic := by
  rw [execute, he.1, Mnemonic.ofName?_name]

theorem execute_push {e : Entry} {x : Operand} {s : State} {w : Word}
    (he : e.Spells ⟨.push, [x]⟩) (hx : readOperand e x.render s = .ok w s)
    (ha : addressFault? (s.rsp - BitVec.ofNat 64 wordBytes).toNat = none) :
    execute e s = .ok () (s.pushed w) := by
  rw [execute_of_spells he, perform, withOne, he.2]
  show (readOperand e x.render >>= pushWord e) s = _
  rw [bind_of_ok hx, pushWord]
  simp only [writeMemory, ha]
  rfl

theorem popWord_of_ok {e : Entry} {s : State} (ha : addressFault? s.rsp.toNat = none) :
    popWord e s = .ok s.top s.popped := by
  have hr : readMemory e s.rsp s = .ok s.top s := by
    rw [readMemory, ha]
    rfl
  rw [popWord, bind_of_ok (show (get : Action State) s = .ok s s from rfl), bind_of_ok hr]
  rfl

theorem execute_pop {e : Entry} {r : Register} {s : State} {w : Word} (he : e.Spells (.pop r))
    (ha : addressFault? s.rsp.toNat = none) (hw : s.top = w) :
    execute e s = .ok () (s.popped.set w r) := by
  subst hw
  rw [execute_of_spells he, Instruction.pop, perform, withOne, he.2]
  show (popWord e >>= writeRegister e r.name) s = _
  rw [bind_of_ok (popWord_of_ok ha), writeRegister, Register.ofName?_name]

theorem execute_mov {e : Entry} {r : Register} {x : Operand} {s : State} {w : Word}
    (he : e.Spells ⟨.mov, [.register r, x]⟩) (hx : readOperand e x.render s = .ok w s) :
    execute e s = .ok () (s.set w r) := by
  have hr : addressName? (Operand.register r).render = none := addressName?_register r
  rw [execute_of_spells he, perform, withTwo, he.2]
  simp only [List.map_cons, List.map_nil, hr, Option.isSome_none, Bool.false_eq_true, false_and,
    ↓reduceIte]
  rw [bind_of_ok hx, writeOperand, hr]
  simp only [writeRegister, Operand.render, Register.ofName?_name]

theorem execute_store {e : Entry} {r t : Register} {s : State} {address : Nat}
    (he : e.Spells ⟨.mov, [.indirect r, .register t]⟩) (hr : (s.get r).toNat = address)
    (ha : addressFault? address = none) :
    execute e s = .ok () { s with memory := s.memory.set address (s.get t) } := by
  subst hr
  have ht : addressName? (Operand.register t).render = none := addressName?_register t
  have hr : readRegister e r.name s = .ok (s.get r) s := by rw [readRegister, Register.ofName?_name]
  rw [execute_of_spells he, perform, withTwo, he.2]
  simp only [List.map_cons, List.map_nil, ht, Option.isSome_none, Bool.false_eq_true, and_false,
    ↓reduceIte]
  rw [bind_of_ok (readOperand_register e t s), writeOperand, addressName?_indirect]
  simp only [bind_of_ok hr, writeMemory, ha]

theorem execute_arithmetic {e : Entry} {m : Mnemonic} {r : Register} {x : Operand} {s : State}
    {w : Word} {f : Word → Word → Word} (hm : perform e m = arithmetic e f)
    (he : e.Spells ⟨m, [.register r, x]⟩) (hx : readOperand e x.render s = .ok w s) :
    execute e s = .ok () (s.set (f (s.get r) w) r) := by
  have hr : readRegister e (Operand.register r).render s = .ok (s.get r) s := by
    rw [Operand.render, readRegister, Register.ofName?_name]
  rw [execute_of_spells he, hm, arithmetic, withTwo, he.2]
  simp only [List.map_cons, List.map_nil]
  rw [bind_of_ok hr, bind_of_ok hx]
  simp only [writeRegister, Operand.render, Register.ofName?_name]

theorem execute_cqo {e : Entry} {s : State} (he : e.Spells ⟨.cqo, []⟩) :
    execute e s = .ok () { s with rdx := if s.rax.msb then -1 else 0 } := by
  rw [execute_of_spells he, perform, withNone, he.2]
  rfl

/-- A division either leaves quotient and remainder, or it stops with its cause and keeps the
state. -/
theorem execute_idiv_of_read {e : Entry} {x : String} {s : State} {w : Word}
    (hm : e.mnemonic = Mnemonic.idiv.name) (ho : e.operands = [x])
    (hx : readOperand e x s = .ok w s) :
    execute e s = match divide s.rdx s.rax w.toInt with
      | .error cause => .error ⟨cause, some e.line⟩ s
      | .ok (quotient, remainder) => .ok () { s with rax := quotient, rdx := remainder } := by
  rw [execute, hm, Mnemonic.ofName?_name]
  simp only [perform, withOne, ho]
  exact bind_of_ok hx _

theorem execute_idiv {e : Entry} {r : Register} {s : State}
    (he : e.Spells ⟨.idiv, [.register r]⟩) :
    execute e s = match divide s.rdx s.rax (s.get r).toInt with
      | .error cause => .error ⟨cause, some e.line⟩ s
      | .ok (quotient, remainder) => .ok () { s with rax := quotient, rdx := remainder } :=
  execute_idiv_of_read he.1 he.2 (readOperand_register e r s)

theorem execute_idiv_of_ok {e : Entry} {r : Register} {s : State} {quotient remainder : Word}
    (he : e.Spells ⟨.idiv, [.register r]⟩)
    (hd : divide s.rdx s.rax (s.get r).toInt = .ok (quotient, remainder)) :
    execute e s = .ok () { s with rax := quotient, rdx := remainder } := by
  rw [execute_idiv he, hd]

theorem execute_idiv_of_error {e : Entry} {r : Register} {s : State} {cause : FaultCause}
    (he : e.Spells ⟨.idiv, [.register r]⟩)
    (hd : divide s.rdx s.rax (s.get r).toInt = .error cause) :
    execute e s = .error ⟨cause, some e.line⟩ s := by
  rw [execute_idiv he, hd]

theorem execute_cmp {e : Entry} {r t : Register} {s : State}
    (he : e.Spells (.binary .cmp r t)) :
    execute e s = .ok () { s with cmpLeft := s.get r, cmpRight := s.get t } := by
  rw [execute_of_spells he, Instruction.binary, perform, withTwo, he.2]
  simp only [Instruction.binary, List.map_cons, List.map_nil]
  rw [bind_of_ok (readOperand_register e r s)]
  have hl : (modify fun s' => { s' with cmpLeft := s.get r } : Action Unit) s =
      .ok () { s with cmpLeft := s.get r } := rfl
  rw [bind_of_ok hl, bind_of_ok (readOperand_register e t _)]
  cases t <;> rfl

theorem execute_setIf {e : Entry} {m : Mnemonic} {s : State} {test : Int → Int → Bool}
    (hm : perform e m = setIf e test) (he : e.Spells ⟨m, [.register .al]⟩) :
    execute e s =
      .ok () (s.set (if test s.cmpLeft.toInt s.cmpRight.toInt then 1 else 0) .al) := by
  rw [execute_of_spells he, hm, setIf, withOne, he.2]
  simp only [List.map_cons, List.map_nil]
  rw [bind_of_ok (show (get : Action State) s = .ok s s from rfl)]
  rfl

theorem execute_movzb {e : Entry} {r t : Register} {s : State}
    (he : e.Spells (.binary .movzb r t)) : execute e s = .ok () (s.set (s.get t &&& 0xff) r) := by
  rw [execute_of_spells he, Instruction.binary, perform, withTwo, he.2]
  simp only [Instruction.binary, List.map_cons, List.map_nil]
  rw [bind_of_ok (readOperand_register e t s)]
  simp only [writeRegister, Operand.render, Register.ofName?_name]

theorem execute_ret {e : Entry} {s : State} (he : e.Spells ⟨.ret, []⟩)
    (ha : addressFault? s.rsp.toNat = none) (ht : s.top = sentinel) :
    execute e s = .ok () { s.popped with halted := true } := by
  rw [execute_of_spells he, perform, withNone, he.2]
  simp only [List.map_nil, returnFrom]
  rw [bind_of_ok (popWord_of_ok ha), if_pos ht]
  rfl

end Action

end WordLang
