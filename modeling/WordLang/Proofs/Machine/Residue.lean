import WordLang.Proofs.Machine.StraightLine

/-! What a fault leaves behind. Most instructions check everything before they change anything; a
push, a pop, a return and a comparison have begun to change the state when they find that they
cannot go on. -/
namespace WordLang

theorem Mnemonic.name_of_ofName? {s : String} {m : Mnemonic} (h : ofName? s = some m) :
    m.name = s := by
  have hfound := List.find?_some h
  exact of_decide_eq_true hfound

/-- What of an instruction is done when it faults: nothing, the move of the stack pointer, or the
left side of a comparison. -/
inductive Residue : Mnemonic → State → State → Prop
  | nothing (m : Mnemonic) (s : State) : Residue m s s
  | lowered (s : State) : Residue .push s { s with rsp := s.rsp - BitVec.ofNat 64 wordBytes }
  | raised {m : Mnemonic} (hm : m = .pop ∨ m = .ret) (s : State) : Residue m s s.popped
  | compared (s : State) (w : Word) : Residue .cmp s { s with cmpLeft := w }

namespace Action

/-- Every fault of an action leads from a state to one in relation to it. -/
def FaultsTo {α : Type} (R : State → State → Prop) (act : Action α) : Prop :=
  ∀ s f t, act s = .error f t → R s t

section FaultsTo

variable {α β : Type} {R : State → State → Prop} (hR : ∀ s, R s s)
include hR

theorem faultsTo_fault (e : Entry) (cause : FaultCause) :
    FaultsTo R (fault e cause : Action α) := by
  intro s f t h
  cases h
  exact hR s

/-- What only reads leaves everything as it was, and what follows starts there. -/
theorem Keeps.faultsTo_bind {act : Action α} {next : α → Action β} (h : Keeps id act)
    (hn : ∀ a, FaultsTo R (next a)) : FaultsTo R (act >>= next) := by
  intro s f t hf
  have hs : endState (act s) = s := h s
  rcases exists_of_bind_error hf with hact | ⟨a, s₁, hact, hnext⟩
  · rw [hact] at hs
    subst hs
    exact hR t
  · rw [hact] at hs
    subst hs
    exact hn a s₁ f t hnext

theorem faultsTo_withNone {e : Entry} {act : Action Unit} (h : FaultsTo R act) :
    FaultsTo R (withNone e act) := by
  rw [withNone]
  split
  · exact h
  · exact faultsTo_fault hR e _

theorem faultsTo_withOne {e : Entry} {act : String → Action Unit}
    (h : ∀ x, FaultsTo R (act x)) : FaultsTo R (withOne e act) := by
  rw [withOne]
  split
  · exact h _
  · exact faultsTo_fault hR e _

theorem faultsTo_withTwo {e : Entry} {act : String → String → Action Unit}
    (h : ∀ x y, FaultsTo R (act x y)) : FaultsTo R (withTwo e act) := by
  rw [withTwo]
  split
  · exact h _ _
  · exact faultsTo_fault hR e _

/-! ### Checks before changes -/

theorem faultsTo_writeRegister (e : Entry) (name : String) (w : Word) :
    FaultsTo R (writeRegister e name w) := by
  intro s f t h
  rw [writeRegister] at h
  split at h
  · cases h
  · exact faultsTo_fault hR e _ s f t h

theorem faultsTo_writeMemory (e : Entry) (address w : Word) :
    FaultsTo R (writeMemory e address w) := by
  intro s f t h
  rw [writeMemory] at h
  split at h
  · exact faultsTo_fault hR e _ s f t h
  · cases h

theorem faultsTo_popWord (e : Entry) : FaultsTo R (popWord e) :=
  keeps_get.faultsTo_bind hR fun _ => (keeps_readMemory e _).faultsTo_bind hR fun _ s f t h => by
    cases h

theorem faultsTo_writeOperand (e : Entry) (operand : String) (w : Word) :
    FaultsTo R (writeOperand e operand w) := by
  rw [writeOperand]
  split
  · exact (keeps_readRegister e _).faultsTo_bind hR fun _ => faultsTo_writeMemory hR e _ w
  · exact faultsTo_writeRegister hR e operand w

theorem faultsTo_arithmetic (e : Entry) (g : Word → Word → Word) :
    FaultsTo R (arithmetic e g) :=
  faultsTo_withTwo hR fun _ _ => (keeps_readRegister e _).faultsTo_bind hR fun _ =>
    (keeps_readOperand e _).faultsTo_bind hR fun _ => faultsTo_writeRegister hR e _ _

theorem faultsTo_setIf (e : Entry) (test : Int → Int → Bool) : FaultsTo R (setIf e test) :=
  faultsTo_withOne hR fun _ => keeps_get.faultsTo_bind hR fun _ =>
    faultsTo_writeRegister hR e _ _

theorem faultsTo_divideBy (e : Entry) (operand : String) : FaultsTo R (divideBy e operand) := by
  refine (keeps_readOperand e operand).faultsTo_bind hR fun divisor s f t h => ?_
  cases hd : divide s.rdx s.rax divisor.toInt with
  | error cause =>
    simp only [hd] at h
    exact faultsTo_fault hR e cause s f t h
  | ok result =>
    simp only [hd] at h
    cases h

end FaultsTo

/-! ### Changes before checks -/

variable {e : Entry}

/-- A push moves the stack pointer before it looks at the address there. -/
theorem faultsTo_pushWord (w : Word) : FaultsTo (Residue .push) (pushWord e w) := by
  intro s f t h
  obtain rfl : { s with rsp := s.rsp - BitVec.ofNat 64 wordBytes } = t :=
    faultsTo_writeMemory (R := Eq) (fun _ => rfl) e _ w _ f t h
  exact .lowered s

/-- A pop that is done has moved the stack pointer when what follows faults. -/
theorem faultsTo_popWord_bind {m : Mnemonic} (hm : m = .pop ∨ m = .ret)
    {next : Word → Action Unit} (hn : ∀ w, FaultsTo Eq (next w)) :
    FaultsTo (Residue m) (popWord e >>= next) := by
  intro s f t h
  rcases exists_of_bind_error h with hpop | ⟨w, s₁, hpop, hnext⟩
  · obtain rfl : s = t := faultsTo_popWord (fun _ => rfl) e s f t hpop
    exact .nothing m s
  · obtain ⟨-, rfl⟩ := popWord_ok hpop
    obtain rfl := hn w _ f t hnext
    exact .raised hm s

/-- A comparison keeps its left side when its right side cannot be read. -/
theorem faultsTo_compare (x y : String) : FaultsTo (Residue .cmp) (do
    let left ← readOperand e x
    modify fun s => { s with cmpLeft := left }
    let right ← readOperand e y
    modify fun s => { s with cmpRight := right }) := by
  refine (keeps_readOperand e x).faultsTo_bind (.nothing .cmp) fun left s f t h => ?_
  rcases exists_of_bind_error h with hset | ⟨_, s₁, hset, h⟩
  · cases hset
  · cases hset
    obtain rfl : { s with cmpLeft := left } = t :=
      (keeps_readOperand e y).faultsTo_bind (R := Eq) (fun _ => rfl)
        (fun right s' f' t' h' => by cases h') _ f t h
    exact .compared s left

/-- What a fault of an instruction leaves. -/
theorem faultsTo_perform (e : Entry) (m : Mnemonic) : FaultsTo (Residue m) (perform e m) := by
  have hR := Residue.nothing m
  cases m with
  | push =>
    exact faultsTo_withOne hR fun x => (keeps_readOperand e x).faultsTo_bind hR fun w =>
      faultsTo_pushWord w
  | pop =>
    exact faultsTo_withOne hR fun x => faultsTo_popWord_bind (.inl rfl) fun w =>
      faultsTo_writeRegister (fun _ => rfl) e x w
  | mov =>
    refine faultsTo_withTwo hR fun dest src => ?_
    split
    · exact faultsTo_fault hR e _
    · exact (keeps_readOperand e src).faultsTo_bind hR fun w => faultsTo_writeOperand hR e dest w
  | movzb =>
    exact faultsTo_withTwo hR fun dest src => (keeps_readOperand e src).faultsTo_bind hR fun w =>
      faultsTo_writeRegister hR e dest _
  | add | sub | imul => exact faultsTo_arithmetic hR e _
  | cqo => exact faultsTo_withNone hR fun s f t h => by cases h
  | idiv => exact faultsTo_withOne hR fun x => faultsTo_divideBy hR e x
  | cmp => exact faultsTo_withTwo hR fun x y => faultsTo_compare x y
  | sete | setne => exact faultsTo_setIf hR e _
  | setl => exact faultsTo_setIf hR e fun l r => decide (l < r)
  | setle => exact faultsTo_setIf hR e fun l r => decide (l ≤ r)
  | ret =>
    refine faultsTo_withNone hR (faultsTo_popWord_bind (.inr rfl) fun address => ?_)
    split
    · exact fun s f t h => by cases h
    · exact faultsTo_fault (fun _ => rfl) e _

/-- A fault of an instruction leaves a residue of it, and nothing if no instruction is so called. -/
theorem residue_of_execute {s t : State} {f : Fault} (h : execute e s = .error f t) :
    t = s ∨ ∃ m, m.name = e.mnemonic ∧ Residue m s t := by
  rw [execute] at h
  cases hm : Mnemonic.ofName? e.mnemonic with
  | none =>
    rw [hm] at h
    cases h
    exact .inl rfl
  | some m =>
    rw [hm] at h
    exact .inr ⟨m, Mnemonic.name_of_ofName? hm, faultsTo_perform e m s f t h⟩

/-- A step faults where there is no instruction, or in one. -/
theorem step_error {code : Array Entry} {s t : State} {f : Fault}
    (h : step code s = .error f t) :
    (entryAt? code s.ip = none ∧ f = ⟨.pastEnd, none⟩ ∧ t = s) ∨
      ∃ e, entryAt? code s.ip = some e ∧ execute e s.ticked = .error f t := by
  rw [step] at h
  split at h
  · cases h
  split at h
  · rename_i hnone
    cases h
    exact .inl ⟨hnone, rfl, rfl⟩
  · rename_i e he
    exact .inr ⟨e, he, h⟩

end Action

theorem Machine.exists_of_step_error {m m' : Machine} {f : Fault} (h : m.step = (.error f, m')) :
    ∃ t, Action.step m.listing.entries m.state = .error f t ∧ m' = { m with state := t } := by
  rw [step] at h
  split at h
  · cases h
  · rename_i f' t hf
    cases h
    exact ⟨t, hf, rfl⟩

/-- What a step that faults leaves behind. Where there is no instruction, nothing has changed.
Otherwise the instruction counts as begun, and of all else only the stack pointer can have moved,
one word down in a push or one word up in a pop or a return, and the left side of a comparison can
be set. -/
theorem fault_leaves_residue {m m' : Machine} {f : Fault} (h : m.step = (.error f, m')) :
    (Action.entryAt? m.listing.entries m.state.ip = none → f = ⟨.pastEnd, none⟩ ∧ m' = m) ∧
    ∀ e, Action.entryAt? m.listing.entries m.state.ip = some e →
      let s := m.state
      let t := m'.state
      f.line = some e.line ∧ m'.listing = m.listing ∧ m'.stepLimit = m.stepLimit ∧
      t.memory = s.memory ∧ t.rax = s.rax ∧ t.rdi = s.rdi ∧ t.rdx = s.rdx ∧ t.rbp = s.rbp ∧
      t.cmpRight = s.cmpRight ∧ t.halted = s.halted ∧
      (t.rsp = s.rsp ∨ e.mnemonic = "push" ∧ t.rsp = s.rsp - 8 ∨
        (e.mnemonic = "pop" ∨ e.mnemonic = "ret") ∧ t.rsp = s.rsp + 8) ∧
      (t.cmpLeft = s.cmpLeft ∨ e.mnemonic = "cmp") ∧
      t.ip = s.ip + 1 ∧ t.steps = s.steps + 1 := by
  obtain ⟨t, hfault, rfl⟩ := Machine.exists_of_step_error h
  rcases Action.step_error hfault with ⟨hnone, rfl, rfl⟩ | ⟨e, he, hexecute⟩
  · exact ⟨fun _ => ⟨rfl, rfl⟩, fun e he => absurd (hnone.symm.trans he) (by simp)⟩
  refine ⟨fun hnone => absurd (hnone.symm.trans he) (by simp), fun e' he' => ?_⟩
  obtain rfl := Option.some.inj (he.symm.trans he')
  refine ⟨Action.line_of_execute hexecute, rfl, rfl, ?_⟩
  rcases Action.residue_of_execute hexecute with rfl | ⟨mnemonic, hm, hresidue⟩
  · simp [State.ticked]
  rw [← hm]
  cases hresidue with
  | nothing => simp [State.ticked]
  | lowered => simp [State.ticked, Mnemonic.name, wordBytes]
  | raised hr =>
    rcases hr with rfl | rfl <;> simp [State.ticked, State.popped, Mnemonic.name, wordBytes]
  | compared => simp [State.ticked, Mnemonic.name]

/-- A pop into something that is no register, a push below the lowest address, a comparison with
nothing, and then no more instructions. -/
theorem fault_leaves_residue_in_passing :
    let text := "main:\n pop [rax]\n mov rsp, 0\n push 1\n cmp 5, x"
    ∃ m₀ m₁ m₂ m₃ m₄, Machine.load (.read text) 9 = .ok m₀ ∧
      m₀.step = (.error ⟨.unknownRegister "[rax]", some 2⟩, m₁) ∧ m₁.step = (.ok (), m₂) ∧
      m₂.step = (.error ⟨.outsideStack 0xfffffffffffffff8, some 4⟩, m₃) ∧
      m₃.step = (.error ⟨.unknownOperand "x", some 5⟩, m₄) ∧
      m₄.step = (.error ⟨.pastEnd, none⟩, m₄) ∧
      (m₁.state.memory = m₀.state.memory ∧ m₁.state.rsp = m₀.state.rsp + 8) ∧
      (m₃.state.memory = m₂.state.memory ∧ m₃.state.rsp = m₂.state.rsp - 8) ∧
      m₄.state.memory = m₃.state.memory ∧ m₃.state.cmpLeft = 0 ∧ m₄.state.cmpLeft = 5 := by
  intro text
  let next (m : Machine) : Option Entry := Action.entryAt? m.listing.entries m.state.ip
  obtain ⟨m, hm, htest⟩ := exists_of_any_toOption (x := Machine.load (.read text) 9)
    (p := fun m =>
      let m₁ := m.step.2
      let m₂ := m₁.step.2
      let m₃ := m₂.step.2
      let m₄ := m₃.step.2
      decide ((m.step.1 = .error ⟨.unknownRegister "[rax]", some 2⟩ ∧
          next m = some ⟨"pop", ["[rax]"], 2⟩ ∧ m₁.state.rsp = m.state.rsp + 8) ∧
        m₁.step.1 = .ok () ∧
        (m₂.step.1 = .error ⟨.outsideStack 0xfffffffffffffff8, some 4⟩ ∧
          next m₂ = some ⟨"push", ["1"], 4⟩ ∧ m₃.state.rsp = m₂.state.rsp - 8) ∧
        (m₃.step.1 = .error ⟨.unknownOperand "x", some 5⟩ ∧
          next m₃ = some ⟨"cmp", ["5", "x"], 5⟩ ∧ m₃.state.cmpLeft = 0 ∧ m₄.state.cmpLeft = 5) ∧
        m₄.step.1 = .error ⟨.pastEnd, none⟩ ∧ next m₄ = none))
    (by decide +kernel)
  have hstep {m : Machine} {r : Except Fault Unit} (h : m.step.1 = r) : m.step = (r, m.step.2) :=
    Prod.ext h rfl
  have hmemory {m : Machine} {f : Fault} {e : Entry} (h : m.step.1 = .error f)
      (he : next m = some e) : m.step.2.state.memory = m.state.memory :=
    ((fault_leaves_residue (hstep h)).2 e he).2.2.2.1
  obtain ⟨⟨hpop, epop, hup⟩, hmov, ⟨hpush, epush, hdown⟩, ⟨hcmp, ecmp, hleft⟩, hend, eend⟩ :=
    of_decide_eq_true htest
  have hrest := hstep hend
  rw [((fault_leaves_residue hrest).1 eend).2] at hrest
  exact ⟨m, _, _, _, _, hm, hstep hpop, hstep hmov, hstep hpush, hstep hcmp, hrest,
    ⟨hmemory hpop epop, hup⟩, ⟨hmemory hpush epush, hdown⟩, hmemory hcmp ecmp, hleft⟩

end WordLang
