import WordLang.Proofs.Generation
import WordLang.Proofs.Machine.Frame

/-! Compiled code does what the trees mean. The code of an expression pushes its value and changes
the variables as the evaluation does, or faults where the evaluation is trapped. -/
namespace WordLang

open WordLang.Action (target? execute addressFault? readOperand)
open Instruction (push pop move binary)

/-! ### Code and evaluation -/

/-- The address that an instruction is about to write, if it writes memory at all. -/
def Instruction.target? (i : Instruction) (s : State) : Option Nat :=
  match i.mnemonic, i.operands with
  | .push, _ => some (s.rsp - BitVec.ofNat 64 wordBytes).toNat
  | .mov, .indirect r :: _ => some (s.get r).toNat
  | _, _ => none

theorem Instruction.target?_register {m : Mnemonic} (hp : m ≠ .push) {r : Register}
    {os : List Operand} {s : State} : Instruction.target? ⟨m, .register r :: os⟩ s = none := by
  cases m with
  | push => exact absurd rfl hp
  | _ => rfl

theorem Entry.Spells.target?_eq {e : Entry} {i : Instruction} (he : e.Spells i) (s : State) :
    Action.target? e s = i.target? s := by
  obtain ⟨m, os⟩ := i
  obtain ⟨hm, ho⟩ := he
  rw [Action.target?, hm, Mnemonic.ofName?_name, ho]
  cases m with
  | mov =>
    cases os with
    | nil => rfl
    | cons x os =>
      simp only [List.map_cons, Instruction.target?]
      cases x with
      | register r =>
        have hname := Action.addressName?_register r
        simp only [Operand.render, hname, Option.bind_none]
      | indirect r =>
        simp only [Action.addressName?_indirect, Option.bind_some, Register.ofName?_name,
          Option.map_some]
      | immediate n => simp only [Action.addressName?_immediate, Option.bind_none]
  | _ => rfl

/-- Entries that spell code walk to a state fit for the result, or fault as the result is
trapped. -/
def Performs {α : Type} (t : SlotTable) (code : List Instruction) (s : State)
    (r : Except Trap α) (post : α → State → Prop) : Prop :=
  ∀ es, List.Forall₂ Entry.Spells es code →
    match r with
    | .ok a => ∃ s', Walks (Confined t) es s s' ∧ post a s'
    | .error trap => ∃ f, trap.cause? = some f.cause ∧ Faults (Confined t) es s f

namespace Performs

variable {α β : Type} {t : SlotTable} {code more : List Instruction} {i : Instruction}
  {s s' : State} {r : Except Trap α} {post : α → State → Prop} {a : α}

theorem nil (h : post a s) : Performs t [] s (.ok a) post := by
  intro es he
  cases he
  exact ⟨s, .nil s, h⟩

theorem cons (hs : s.halted = false)
    (h : ∀ e : Entry, e.Spells i → Confined t e s ∧ execute e s.ticked = .ok () s')
    (hrest : Performs t code s' r post) : Performs t (i :: code) s r post := by
  intro es he
  cases he with
  | cons he hes =>
    obtain ⟨hc, hx⟩ := h _ he
    have hgo := hrest _ hes
    cases r with
    | ok a =>
      obtain ⟨u, hu, hp⟩ := hgo
      exact ⟨u, .cons hs hc hx hu, hp⟩
    | error trap =>
      obtain ⟨f, hf, hu⟩ := hgo
      exact ⟨f, hf, .later hs hc hx hu⟩

theorem confined_of_quiet {e : Entry} (he : e.Spells i) (hq : i.target? s = none) :
    Confined t e s := by
  intro address ha
  rw [he.target?_eq, hq] at ha
  cases ha

/-- An instruction that writes no memory. -/
theorem cons_quiet (hs : s.halted = false) (hq : i.target? s = none)
    (h : ∀ e : Entry, e.Spells i → execute e s.ticked = .ok () s')
    (hrest : Performs t code s' r post) : Performs t (i :: code) s r post :=
  cons hs (fun e he => ⟨confined_of_quiet he hq, h e he⟩) hrest

theorem imp {b : β} {post' : β → State → Prop} (h : Performs t code s (.ok a) post)
    (hp : ∀ s', post a s' → post' b s') : Performs t code s (.ok b) post' := by
  intro es he
  obtain ⟨s', hw, ha⟩ := h es he
  exact ⟨s', hw, hp s' ha⟩

/-- The last instruction, which may fault. -/
theorem last (hs : s.halted = false) (hq : i.target? s = none)
    (h : ∀ e : Entry, e.Spells i → match r with
      | .ok a => ∃ s', execute e s.ticked = .ok () s' ∧ post a s'
      | .error trap => ∃ f s', trap.cause? = some f.cause ∧ execute e s.ticked = .error f s') :
    Performs t [i] s r post := by
  intro es he
  cases he with
  | @cons e _ es _ he hes =>
    cases hes
    have hc : Confined t e s := confined_of_quiet he hq
    have hgo := h e he
    cases r with
    | ok a =>
      obtain ⟨s', hx, hp⟩ := hgo
      exact ⟨s', .cons hs hc hx (.nil s'), hp⟩
    | error trap =>
      obtain ⟨f, s', hf, hx⟩ := hgo
      exact ⟨f, hf, .here hs hc hx⟩

/-- Code after code goes with an evaluation after an evaluation. -/
theorem bind {k : α → Except Trap β} {post' : β → State → Prop} (h : Performs t code s r post)
    (hk : ∀ a s', r = .ok a → post a s' → Performs t more s' (k a) post') :
    Performs t (code ++ more) s (r >>= k) post' := by
  intro es he
  have hlen := he.length_eq
  have h₁ := List.forall₂_take_append _ _ _ he
  have h₂ := List.forall₂_drop_append _ _ _ he
  rw [← List.take_append_drop code.length es]
  have hgo := h _ h₁
  cases r with
  | error trap =>
    obtain ⟨f, hf, hu⟩ := hgo
    exact ⟨f, hf, hu.append _⟩
  | ok a =>
    obtain ⟨u, hu, hp⟩ := hgo
    have hnext := hk a u rfl hp _ h₂
    show match k a with
      | .ok b => _
      | .error trap => _
    cases hka : k a with
    | ok b =>
      rw [hka] at hnext
      obtain ⟨v, hv, hb⟩ := hnext
      exact ⟨v, hu.append hv, hb⟩
    | error trap =>
      rw [hka] at hnext
      obtain ⟨f, hf, hv⟩ := hnext
      exact ⟨f, hf, hu.faults hv⟩

/-- Code after code that cannot fault. -/
theorem followed {r' : Except Trap β} {post' : β → State → Prop}
    (h : Performs t code s (.ok a) post) (hk : ∀ s', post a s' → Performs t more s' r' post') :
    Performs t (code ++ more) s r' post' := by
  refine h.bind (k := fun _ => r') fun b s' hb hp => hk s' ?_
  cases hb
  exact hp

end Performs

/-! ### Operands and variables -/

theorem Slot.toNat_word (slot : Slot) : (BitVec.ofNat 64 slot.address).toNat = slot.address := by
  have : slot.address ≤ framePointer := Nat.sub_le _ _
  have : framePointer < 2 ^ 64 := by decide
  rw [BitVec.toNat_ofNat, Nat.mod_eq_of_lt (by omega)]

namespace Represents

variable {α : Type} {t : SlotTable} {env : Env} {ops : List Word} {s : State} {w : Word}
  {code : List Instruction} {r : Except Trap α} {post : α → State → Prop}

theorem performs_push {x : Operand} (h : Represents t env ops s) (hr : t.Room (ops.length + 1))
    (hx : ∀ e, readOperand e x.render s.ticked = .ok w s.ticked)
    (hrest : Performs t code (s.ticked.pushed w) r post) :
    Performs t (⟨.push, [x]⟩ :: code) s r post := by
  refine Performs.cons h.running (fun e he => ⟨?_, Action.execute_push he (hx e)
    (h.ticked.addressFault?_push hr)⟩) hrest
  intro address ha
  obtain ⟨h₁, h₂, h₃⟩ := h.rsp_add
  have hsub := h.toNat_sub_word
  have hw : 0 < wordBytes ∧ wordBytes ≤ stackTop - stackSize := by decide
  have haddress : (s.rsp - BitVec.ofNat 64 wordBytes).toNat = address := by
    rw [he.target?_eq] at ha
    exact Option.some.inj ha
  exact ⟨by omega, fun _ => by omega⟩

theorem performs_pop {q : Register} (h : Represents t env (w :: ops) s)
    (hrest : Performs t code (s.ticked.popped.set w q) r post) :
    Performs t (pop q :: code) s r post :=
  Performs.cons_quiet h.running rfl (fun _ he => Action.execute_pop he h.ticked.addressFault?_pop
    h.ticked.top_eq) hrest

theorem performs_pushNumber (h : Represents t env ops s) (ht : t.LaidOut)
    (hr : t.Room (ops.length + 1)) {n : Int} (hn : Text.Readable n) :
    Performs t (pushNumber n) s (.ok ())
      fun _ s' => Represents t env (Word.ofInt n :: ops) s' := by
  rw [pushNumber]
  split
  · exact h.performs_push hr (fun e => Action.readOperand_immediate e hn _)
      (.nil (h.ticked.pushed ht hr _))
  · have h₁ : Represents t env ops (s.ticked.set (Word.ofInt n) .rax) :=
      h.ticked.set _ (by decide) (by decide)
    refine Performs.cons_quiet h.running rfl (fun e he => Action.execute_mov he
      (Action.readOperand_immediate e hn _)) ?_
    exact h₁.performs_push hr (fun e => Action.readOperand_register e .rax _)
      (.nil (h₁.ticked.pushed ht hr _))

theorem sub_offset_eq (h : Represents t env ops s) (ht : t.LaidOut) {slot : Slot}
    (hs : slot ∈ t.slots) : s.rbp - Word.ofInt slot.offset = BitVec.ofNat 64 slot.address := by
  have hle := ht.le_frameSize slot hs
  have hb := h.rbp
  obtain ⟨-, h₂, -⟩ := h.rsp_add
  apply BitVec.eq_of_toNat_eq
  rw [Slot.toNat_word, Word.ofInt, BitVec.ofInt_natCast, Slot.address, ← hb]
  rw [← hb] at h₂
  have : s.rbp.toNat < 2 ^ 64 := s.rbp.isLt
  bv_omega

theorem readable_offset (h : Represents t env ops s) (ht : t.LaidOut) {slot : Slot}
    (hs : slot ∈ t.slots) : Text.Readable slot.offset := by
  have hle := ht.le_frameSize slot hs
  have hroom := h.room
  have : stackSize < 10 ^ 20 := by decide
  unfold SlotTable.Room at hroom
  exact Text.readable_of_natAbs_lt (by omega)

theorem readOperand_slot (h : Represents t env ops s) (ht : t.LaidOut) {slot : Slot}
    (hs : slot ∈ t.slots) {q : Register} (hq : s.get q = BitVec.ofNat 64 slot.address) (e : Entry) :
    readOperand e (Operand.indirect q).render s = .ok (Word.ofInt (env slot.name)) s := by
  have haddress : (s.get q).toNat = slot.address := by rw [hq, Slot.toNat_word]
  rw [Action.readOperand_indirect e q (haddress ▸ h.addressFault?_slot ht hs), haddress,
    h.slots slot hs]

theorem performs_pushAddress (h : Represents t env ops s) (ht : t.LaidOut)
    (hr : t.Room (ops.length + 1)) {slot : Slot} (hs : slot ∈ t.slots) :
    Performs t (pushAddress slot.offset) s (.ok ())
      fun _ s' => Represents t env (BitVec.ofNat 64 slot.address :: ops) s' := by
  have h₁ := h.ticked.set s.rbp (show Register.rax ≠ .rbp by decide) (by decide)
  have h₂ := h₁.ticked.set (s.rbp - Word.ofInt slot.offset) (show Register.rax ≠ .rbp by decide)
    (by decide)
  refine Performs.cons_quiet h.running rfl (fun e he => Action.execute_mov he
    (Action.readOperand_register e .rbp _)) ?_
  refine Performs.cons_quiet h₁.running rfl (fun e he => Action.execute_arithmetic rfl he
    (Action.readOperand_immediate e (h.readable_offset ht hs) _)) ?_
  rw [← h.sub_offset_eq ht hs]
  exact h₂.performs_push hr (fun e => Action.readOperand_register e .rax _)
    (.nil (h₂.ticked.pushed ht hr _))

theorem performs_loadWord {slot : Slot}
    (h : Represents t env (BitVec.ofNat 64 slot.address :: ops) s) (ht : t.LaidOut)
    (hs : slot ∈ t.slots) :
    Performs t loadWord s (.ok ())
      fun _ s' => Represents t env (Word.ofInt (env slot.name) :: ops) s' := by
  have h₁ := h.ticked.popped.set (BitVec.ofNat 64 slot.address)
    (show Register.rax ≠ .rbp by decide) (by decide)
  have h₂ := h₁.ticked.set (Word.ofInt (env slot.name)) (show Register.rax ≠ .rbp by decide)
    (by decide)
  refine h.performs_pop ?_
  refine Performs.cons_quiet h₁.running rfl (fun e he => Action.execute_mov he
    (h₁.ticked.readOperand_slot ht hs rfl e)) ?_
  exact h₂.performs_push h.room (fun e => Action.readOperand_register e .rax _)
    (.nil (h₂.ticked.pushed ht h.room _))

theorem performs_storeWord {slot : Slot} {v : Int}
    (h : Represents t env (Word.ofInt v :: BitVec.ofNat 64 slot.address :: ops) s)
    (ht : t.LaidOut) (hs : slot ∈ t.slots) :
    Performs t storeWord s (.ok ())
      fun _ s' => Represents t (Function.update env slot.name v) (Word.ofInt v :: ops) s' := by
  have h₁ := h.ticked.popped.set (Word.ofInt v) (show Register.rdi ≠ .rbp by decide) (by decide)
  have h₂ := h₁.ticked.popped.set (BitVec.ofNat 64 slot.address)
    (show Register.rax ≠ .rbp by decide) (by decide)
  have h₃ := h₂.ticked.store ht hs v
  have hr : t.Room (ops.length + 1) := h.room.mono (by simp)
  refine h.performs_pop (h₁.performs_pop ?_)
  refine Performs.cons h₂.running (fun e he => ⟨?_, ?_⟩)
    (h₃.performs_push hr (fun e => Action.readOperand_register e .rdi _)
      (.nil (h₃.ticked.pushed ht hr _)))
  · intro address ha
    have haddress : (BitVec.ofNat 64 slot.address).toNat = address := by
      rw [he.target?_eq] at ha
      exact Option.some.inj ha
    rw [Slot.toNat_word, Slot.address] at haddress
    have hpos := ht.pos slot hs
    have : 0 < framePointer := by decide
    refine ⟨by omega, fun hpush => ?_⟩
    rw [he.1, Mnemonic.ofName?_name] at hpush
    cases hpush
  · exact Action.execute_store he slot.toNat_word (h₂.ticked.addressFault?_slot ht hs)

end Represents

/-! ### Operators -/

theorem toInt_signExtend (w : Word) :
    (if w.msb then -1 else 0 : Word).toInt * 0x10000000000000000 + w.toNat = w.toInt := by
  rw [BitVec.toInt_eq_msb_cond w]
  cases w.msb with
  | true =>
    have : (-1 : Word).toInt = -1 := by decide
    simp only [if_true, this]
    omega
  | false => simp

/-- Division of a sign-extended word is division of its signed value. -/
theorem divide_signExtend {x : Int} (hx : IsSigned x) (y : Int) :
    Action.divide (if (Word.ofInt x).msb then -1 else 0) (Word.ofInt x) y =
      if y = 0 then .error .divisionByZero
      else if x = -(2 ^ 63) ∧ y = -1 then .error .divisionOverflow
      else .ok (Word.ofInt (x.tdiv y), Word.ofInt (x - x.tdiv y * y)) := by
  rw [Action.divide_eq]
  by_cases hy : y = 0
  · rw [if_pos hy, if_pos hy]
  · have hq := isSigned_tdiv_iff hx hy
    rw [isSigned_iff] at hq
    rw [if_neg hy, if_neg hy, toInt_signExtend, hx.toInt_ofInt]
    by_cases hover : x = -(2 ^ 63) ∧ y = -1
    · rw [if_pos hover]
      exact if_pos (by omega)
    · rw [if_neg hover]
      exact if_neg (by omega)

/-- The byte register takes a bit whole, and the extension clears the rest. -/
theorem byte_of_bit (a : Word) (b : Bool) :
    (a &&& ~~~0xff ||| (if b then 1 else 0) &&& 0xff) &&& 0xff &&& 0xff = if b then 1 else 0 := by
  rw [BitVec.and_assoc _ 0xff 0xff, BitVec.and_self, BitVec.and_or_distrib_right,
    BitVec.and_assoc a, BitVec.not_and_self]
  cases b <;> simp

namespace Represents

variable {t : SlotTable} {env : Env} {ops : List Word} {s : State} {x y : Int}

theorem performs_arithmetic (h : Represents t env ops s) {m : Mnemonic} (hp : m ≠ .push)
    {f : Word → Word → Word} (hm : ∀ e, Action.perform e m = Action.arithmetic e f) {v : Int}
    (hv : f s.rax s.rdi = Word.ofInt v) :
    Performs t [binary m .rax .rdi] s (.ok v)
      fun v s' => Represents t env ops s' ∧ s'.rax = Word.ofInt v := by
  refine Performs.cons_quiet h.running (Instruction.target?_register hp) (fun e he =>
    Action.execute_arithmetic (hm e) he (Action.readOperand_register e .rdi _)) (.nil ⟨?_, hv⟩)
  exact h.ticked.set _ (by decide) (by decide)

theorem performs_compareBy (h : Represents t env ops s) {m : Mnemonic} (hp : m ≠ .push)
    (test : Int → Int → Bool) (hm : ∀ e, Action.perform e m = Action.setIf e test) :
    Performs t (compareBy m) s (.ok (truth (test s.rax.toInt s.rdi.toInt)))
      fun v s' => Represents t env ops s' ∧ s'.rax = Word.ofInt v := by
  have h₁ : Represents t env ops { s.ticked with cmpLeft := s.rax, cmpRight := s.rdi } :=
    h.congr rfl rfl rfl rfl
  have h₂ := h₁.ticked.set (if test s.rax.toInt s.rdi.toInt then 1 else 0)
    (show Register.al ≠ .rbp by decide) (by decide)
  refine Performs.cons_quiet h.running rfl (fun e he => Action.execute_cmp he) ?_
  refine Performs.cons_quiet h₁.running (Instruction.target?_register hp)
    (fun e he => Action.execute_setIf (hm e) he) ?_
  refine Performs.cons_quiet h₂.running rfl (fun e he => Action.execute_movzb he) (.nil ⟨?_, ?_⟩)
  · exact h₂.ticked.set _ (by decide) (by decide)
  · rw [ofInt_truth]
    exact byte_of_bit s.rax _

theorem performs_division (h : Represents t env ops s) (hx : IsSigned x)
    (hax : s.rax = Word.ofInt x) (hdi : s.rdi.toInt = y) :
    Performs t [⟨.cqo, []⟩, ⟨.idiv, [.register .rdi]⟩] s (Operator.div.apply x y)
      fun v s' => Represents t env ops s' ∧ s'.rax = Word.ofInt v := by
  have h₁ := h.ticked.set (if s.rax.msb then -1 else 0) (show Register.rdx ≠ .rbp by decide)
    (by decide)
  have hd := divide_signExtend hx y
  rw [← hax, ← hdi] at hd
  refine Performs.cons_quiet h.running rfl (fun e he => Action.execute_cqo he) ?_
  refine Performs.last h₁.running rfl fun e he => ?_
  rw [Operator.apply, ← hdi]
  by_cases hy : s.rdi.toInt = 0
  · rw [if_pos hy] at hd ⊢
    exact ⟨_, _, rfl, Action.execute_idiv_of_error he hd⟩
  rw [if_neg hy] at hd ⊢
  by_cases hover : x = -(2 ^ 63) ∧ s.rdi.toInt = -1
  · rw [if_pos hover] at hd ⊢
    exact ⟨_, _, rfl, Action.execute_idiv_of_error he hd⟩
  · rw [if_neg hover] at hd ⊢
    exact ⟨_, Action.execute_idiv_of_ok he hd, h₁.congr rfl rfl rfl rfl, rfl⟩

theorem performs_operator (h : Represents t env ops s) (hx : IsSigned x) (hy : IsSigned y)
    (hax : s.rax = Word.ofInt x) (hdi : s.rdi = Word.ofInt y) {op : Operator}
    {code : List Instruction} (hc : op.code? = some code) :
    Performs t code s (op.apply x y)
      fun v s' => Represents t env ops s' ∧ s'.rax = Word.ofInt v := by
  have htx : s.rax.toInt = x := hax ▸ hx.toInt_ofInt
  have hty : s.rdi.toInt = y := hdi ▸ hy.toInt_ofInt
  cases op <;> cases hc
  case add =>
    refine h.performs_arithmetic (by decide) (fun _ => rfl) ?_
    rw [hax, hdi, ofInt_wrap, Word.ofInt_add]
  case sub =>
    refine h.performs_arithmetic (by decide) (fun _ => rfl) ?_
    rw [hax, hdi, ofInt_wrap, Word.ofInt_sub]
  case mul =>
    refine h.performs_arithmetic (by decide) (fun _ => rfl) ?_
    rw [hax, hdi, ofInt_wrap, Word.ofInt_mul]
  case div => exact h.performs_division hx hax hty
  all_goals rw [Operator.apply, ← htx, ← hty]
  case equal => exact h.performs_compareBy (by decide) (fun l r => l == r) (fun _ => rfl)
  case notEqual => exact h.performs_compareBy (by decide) (fun l r => l != r) (fun _ => rfl)
  case less => exact h.performs_compareBy (by decide) (fun l r => decide (l < r)) (fun _ => rfl)
  case lessEqual =>
    exact h.performs_compareBy (by decide) (fun l r => decide (l ≤ r)) (fun _ => rfl)

end Represents

/-! ### Expressions -/

/-- A tree of the language whose variables are slots of a table. -/
inductive Expression (t : SlotTable) : Node → Prop
  | number {v : Int} {l : Option Location} (hv : Text.Readable v) : Expression t (.number v l)
  | var {slot : Slot} {l : Option Location} (hs : slot ∈ t.slots) :
      Expression t (.var slot.name slot.offset l)
  | assign {slot : Slot} {value : Node} {l l' : Option Location} (hs : slot ∈ t.slots)
      (hv : Expression t value) : Expression t (.assign (.var slot.name slot.offset l) value l')
  | binary {op : Operator} {left right : Node} {l : Option Location} (ho : op ∈ Operator.known)
      (hl : Expression t left) (hr : Expression t right) : Expression t (.binary op left right l)

namespace Expression

variable {t : SlotTable} {n : Node}

theorem isExpression (hn : Expression t n) : n.IsExpression := by
  induction hn with
  | number _ => exact .number
  | var _ => exact .var
  | assign _ _ ih => exact .assign ih
  | binary ho _ _ ihl ihr => exact .binary ho ihl ihr

theorem exists_code (hn : Expression t n) : ∃ code, n.code = .ok code := hn.isExpression.exists_code

/-- The code of an expression simulates its evaluation on top of any operands. -/
theorem performs (hn : Expression t n) (ht : t.LaidOut) {code : List Instruction}
    (hc : n.code = .ok code) {env : Env} {ops : List Word} {s : State}
    (h : Represents t env ops s) (henv : ∀ x, IsSigned (env x))
    (hr : t.Room (ops.length + n.depth)) :
    Performs t code s (n.eval env)
      fun r s' => Represents t r.2 (Word.ofInt r.1 :: ops) s' := by
  induction hn generalizing code env ops s with
  | number hv =>
    cases hc
    refine (h.performs_pushNumber ht hr hv).imp fun s' hs' => ?_
    rw [ofInt_wrap]
    exact hs'
  | var hs =>
    cases hc
    exact (h.performs_pushAddress ht hr hs).followed fun s₁ h₁ =>
      (h₁.performs_loadWord ht hs).imp fun _ h₂ => h₂
  | @assign slot value l l' hs hv ih =>
    obtain ⟨c, hcv⟩ := hv.exists_code
    rw [Node.code, hcv] at hc
    cases hc
    rw [List.append_assoc]
    have hroom : t.Room (ops.length + 1 + value.depth) := hr.mono (by rw [Node.depth]; omega)
    refine (h.performs_pushAddress ht (hroom.mono (by omega)) hs).followed fun s₁ h₁ => ?_
    refine (ih hcv h₁ henv hroom).bind ?_
    rintro ⟨v, env₁⟩ s₂ - h₂
    exact (h₂.performs_storeWord ht hs).imp fun _ h₃ => h₃
  | @binary op left right l ho hl hr' ihl ihr =>
    obtain ⟨c, hcl⟩ := hl.exists_code
    obtain ⟨c', hcr⟩ := hr'.exists_code
    obtain ⟨compute, ho⟩ := Operator.exists_code ho
    rw [Node.code, hcl, hcr, ho] at hc
    cases hc
    simp only [List.append_assoc]
    have hroomx : t.Room (ops.length + left.depth) :=
      hr.mono (by simp only [Node.depth]; omega)
    refine (ihl hcl h henv hroomx).bind ?_
    rintro ⟨x, env₁⟩ s₁ hx h₁
    obtain ⟨hsx, henv₁⟩ := Node.eval_isSigned henv hx
    have hroomy : t.Room ((Word.ofInt x :: ops).length + right.depth) :=
      hr.mono (by simp only [Node.depth, List.length_cons]; omega)
    refine (ihr hcr h₁ henv₁ hroomy).bind ?_
    rintro ⟨y, env₂⟩ s₂ hy h₂
    have hsy := (Node.eval_isSigned henv₁ hy).1
    have h₃ := h₂.ticked.popped.set (Word.ofInt y) (show Register.rdi ≠ .rbp by decide) (by decide)
    have h₄ := h₃.ticked.popped.set (Word.ofInt x) (show Register.rax ≠ .rbp by decide) (by decide)
    refine h₂.performs_pop (h₃.performs_pop ?_)
    refine (h₄.performs_operator hsx hsy rfl rfl ho).bind ?_
    rintro v s₅ - ⟨h₅, hax⟩
    have hroom : t.Room (ops.length + 1) := h₁.room
    exact h₅.performs_push hroom (fun e => Action.readOperand_register e .rax _)
      (.nil (hax ▸ h₅.ticked.pushed ht hroom _))

end Expression

end WordLang
