import WordLang.Machine
import WordLang.Proofs.Computation

/-! Straight-line runs. An instruction moves no place but the next one, so a run performs the
entries of the program one after the other; what holds at every step of such a walk holds in the
run. -/
namespace WordLang

/-- The state with the current instruction counted as begun. -/
def State.ticked (s : State) : State := { s with ip := s.ip + 1, steps := s.steps + 1 }

theorem State.get_ticked (s : State) (r : Register) : s.ticked.get r = s.get r := by
  cases r <;> rfl

namespace Action

/-! ### What actions keep -/

/-- The state that an action ends in, well or not. -/
def endState {α : Type} : EStateM.Result Fault State α → State
  | .ok _ s => s
  | .error _ s => s

/-- An action leaves a part of the state as it was. -/
def Keeps {α β : Type} (part : State → β) (act : Action α) : Prop :=
  ∀ s, part (endState (act s)) = part s

section Keeps

variable {α β γ : Type} {part : State → γ}

theorem keeps_pure (a : α) : Keeps part (pure a : Action α) := fun _ => rfl

theorem keeps_fault (e : Entry) (cause : FaultCause) : Keeps part (fault e cause : Action α) :=
  fun _ => rfl

theorem Keeps.bind {act : Action α} {next : α → Action β} (h : Keeps part act)
    (hn : ∀ a, Keeps part (next a)) : Keeps part (act >>= next) := by
  intro s
  have hs := h s
  cases hr : act s with
  | ok a s' =>
    rw [bind_of_ok hr, hn a s']
    rwa [hr] at hs
  | error d s' =>
    rw [bind_of_error hr]
    rwa [hr] at hs

theorem keeps_modify {f : State → State} (h : ∀ s, part (f s) = part s) :
    Keeps part (modify f : Action Unit) := h

theorem keeps_get : Keeps part (get : Action State) := fun _ => rfl

theorem keeps_readRegister (e : Entry) (name : String) : Keeps part (readRegister e name) := by
  intro s
  rw [readRegister]
  split <;> rfl

theorem keeps_readMemory (e : Entry) (address : Word) : Keeps part (readMemory e address) := by
  intro s
  rw [readMemory]
  split <;> rfl

theorem keeps_readOperand (e : Entry) (operand : String) : Keeps part (readOperand e operand) := by
  rw [readOperand]
  split
  · exact (keeps_readRegister e _).bind fun _ => keeps_readMemory e _
  · split
    · exact fun _ => rfl
    · split
      · exact keeps_pure _
      · exact keeps_fault e _

/-- A part of the state that lies outside the registers and the last comparison. -/
structure Aside (part : State → γ) : Prop where
  set : ∀ s w r, part (State.set s w r) = part s
  cmpLeft : ∀ s w, part { s with cmpLeft := w } = part s
  cmpRight : ∀ s w, part { s with cmpRight := w } = part s

theorem Aside.keeps_writeRegister (h : Aside part) (e : Entry) (name : String) (w : Word) :
    Keeps part (writeRegister e name w) := by
  intro s
  rw [writeRegister]
  split
  · exact h.set s w _
  · rfl

theorem Aside.keeps_popWord (h : Aside part) (e : Entry) : Keeps part (popWord e) := by
  intro s
  have hr : part (endState (readMemory e s.rsp s)) = part s := keeps_readMemory e s.rsp s
  rw [popWord, bind_of_ok (show (get : Action State) s = .ok s s from rfl)]
  cases hm : readMemory e s.rsp s with
  | ok w s' =>
    rw [bind_of_ok hm]
    exact h.set s _ .rsp
  | error d s' =>
    rw [bind_of_error hm]
    rwa [hm] at hr

theorem Aside.keeps_divideBy (h : Aside part) (e : Entry) (operand : String) :
    Keeps part (divideBy e operand) := by
  refine (keeps_readOperand e operand).bind fun divisor s => ?_
  cases divide s.rdx s.rax divisor.toInt with
  | error cause => rfl
  | ok result => exact (h.set _ _ .rdx).trans (h.set s _ .rax)

theorem Aside.keeps_returnFrom (h : Aside part)
    (hhalted : ∀ s b, part { s with halted := b } = part s) (e : Entry) :
    Keeps part (returnFrom e) := by
  refine (h.keeps_popWord e).bind fun address => ?_
  split
  · exact keeps_modify fun s => hhalted s true
  · exact keeps_fault e _

theorem keeps_withNone {e : Entry} {act : Action Unit} (h : Keeps part act) :
    Keeps part (withNone e act) := by
  rw [withNone]
  split
  · exact h
  · exact keeps_fault e _

theorem keeps_withOne {e : Entry} {act : String → Action Unit} (h : ∀ x, Keeps part (act x)) :
    Keeps part (withOne e act) := by
  rw [withOne]
  split
  · exact h _
  · exact keeps_fault e _

theorem keeps_withTwo {e : Entry} {act : String → String → Action Unit}
    (h : ∀ x y, Keeps part (act x y)) : Keeps part (withTwo e act) := by
  rw [withTwo]
  split
  · exact h _ _
  · exact keeps_fault e _

theorem Aside.keeps_arithmetic (h : Aside part) (e : Entry) (f : Word → Word → Word) :
    Keeps part (arithmetic e f) :=
  keeps_withTwo fun _ _ => (keeps_readRegister e _).bind fun _ =>
    (keeps_readOperand e _).bind fun _ => h.keeps_writeRegister e _ _

theorem Aside.keeps_setIf (h : Aside part) (e : Entry) (test : Int → Int → Bool) :
    Keeps part (setIf e test) :=
  keeps_withOne fun _ => keeps_get.bind fun _ => h.keeps_writeRegister e _ _

/-- Only pushes and moves reach beyond the registers, and only returns halt. -/
theorem Aside.keeps_perform (h : Aside part) (e : Entry) {m : Mnemonic} (hp : m ≠ .push)
    (hm : m ≠ .mov) (hret : m = .ret → ∀ s b, part { s with halted := b } = part s) :
    Keeps part (perform e m) := by
  cases m with
  | push => exact absurd rfl hp
  | mov => exact absurd rfl hm
  | pop =>
    exact keeps_withOne fun _ => (h.keeps_popWord e).bind fun _ => h.keeps_writeRegister e _ _
  | movzb =>
    exact keeps_withTwo fun _ _ => (keeps_readOperand e _).bind fun _ => h.keeps_writeRegister e _ _
  | add | sub | imul => exact h.keeps_arithmetic e _
  | cqo => exact keeps_withNone (keeps_modify fun s => h.set s _ .rdx)
  | idiv => exact keeps_withOne fun _ => h.keeps_divideBy e _
  | cmp =>
    exact keeps_withTwo fun _ _ => (keeps_readOperand e _).bind fun _ =>
      (keeps_modify fun s => h.cmpLeft s _).bind fun _ => (keeps_readOperand e _).bind fun _ =>
        keeps_modify fun s => h.cmpRight s _
  | sete | setne => exact h.keeps_setIf e _
  | setl => exact h.keeps_setIf e fun l r => decide (l < r)
  | setle => exact h.keeps_setIf e fun l r => decide (l ≤ r)
  | ret => exact keeps_withNone (h.keeps_returnFrom (hret rfl) e)

/-- A part of the state aside of memory too is kept by every instruction, but for a return if the
part tells whether the machine has halted. -/
theorem Aside.keeps_execute (h : Aside part)
    (hmemory : ∀ s cells, part { s with memory := cells } = part s) (e : Entry)
    (hret : Mnemonic.ofName? e.mnemonic = some .ret →
      ∀ s b, part { s with halted := b } = part s) :
    Keeps part (execute e) := by
  have hwrite (address w : Word) : Keeps part (writeMemory e address w) := by
    intro s
    rw [writeMemory]
    split
    · rfl
    · exact hmemory s _
  rw [execute]
  split
  · rename_i m hname
    by_cases hp : m = .push
    · subst hp
      exact keeps_withOne fun _ => (keeps_readOperand e _).bind fun w s =>
        (hwrite _ w _).trans (h.set s _ .rsp)
    by_cases hm : m = .mov
    · subst hm
      refine keeps_withTwo fun dest src => ?_
      split
      · exact keeps_fault e _
      · refine (keeps_readOperand e _).bind fun w => ?_
        rw [writeOperand]
        split
        · exact (keeps_readRegister e _).bind fun _ => hwrite _ _
        · exact h.keeps_writeRegister e _ _
    · exact h.keeps_perform e hp hm fun hm' => hret (hm' ▸ hname)
  · exact keeps_fault e _

end Keeps

/-! ### Counters -/

/-- The index of the next instruction and the number of instructions begun. -/
def counters (s : State) : Int × Nat := (s.ip, s.steps)

theorem aside_counters : Aside counters where
  set _ _ r := by cases r <;> rfl
  cmpLeft _ _ := rfl
  cmpRight _ _ := rfl

/-- No instruction moves the counters. -/
theorem keeps_counters_execute (e : Entry) : Keeps counters (execute e) :=
  aside_counters.keeps_execute (fun _ _ => rfl) e fun _ _ _ => rfl

theorem counters_of_execute {e : Entry} {s s' : State} (h : execute e s = .ok () s') :
    s'.ip = s.ip ∧ s'.steps = s.steps := by
  have hk := keeps_counters_execute e s
  rw [h] at hk
  exact ⟨congrArg Prod.fst hk, congrArg Prod.snd hk⟩

/-! ### Writes to memory -/

/-- The address that an instruction is about to write, if it writes memory at all. -/
def target? (e : Entry) (s : State) : Option Nat :=
  match Mnemonic.ofName? e.mnemonic, e.operands with
  | some .push, _ => some (s.rsp - BitVec.ofNat 64 wordBytes).toNat
  | some .mov, dest :: _ =>
    (addressName? dest).bind fun name => (Register.ofName? name).map fun r => (s.get r).toNat
  | _, _ => none

theorem aside_memory : Aside State.memory where
  set _ _ r := by cases r <;> rfl
  cmpLeft _ _ := rfl
  cmpRight _ _ := rfl

theorem memory_writeMemory {e : Entry} {address w : Word} {s s' : State}
    (h : writeMemory e address w s = .ok () s') : s'.memory = s.memory.set address.toNat w := by
  rw [writeMemory] at h
  split at h
  · cases h
  · cases h
    rfl

theorem withOne_ok {e : Entry} {act : String → Action Unit} {s s' : State}
    (h : withOne e act s = .ok () s') : ∃ x, e.operands = [x] ∧ act x s = .ok () s' := by
  obtain ⟨m, os, line⟩ := e
  match os with
  | [x] => exact ⟨x, rfl, h⟩
  | [] => cases h
  | _ :: _ :: _ => cases h

theorem withTwo_ok {e : Entry} {act : String → String → Action Unit} {s s' : State}
    (h : withTwo e act s = .ok () s') : ∃ x y, e.operands = [x, y] ∧ act x y s = .ok () s' := by
  obtain ⟨m, os, line⟩ := e
  match os with
  | [x, y] => exact ⟨x, y, rfl, h⟩
  | [] => cases h
  | [_] => cases h
  | _ :: _ :: _ :: _ => cases h

/-- An operand that is read well leaves the state as it is. -/
theorem readOperand_bind_ok {e : Entry} {x : String} {next : Word → Action Unit} {s s' : State}
    (h : (readOperand e x >>= next) s = .ok () s') : ∃ w, next w s = .ok () s' := by
  have hk : endState (readOperand e x s) = s := @keeps_readOperand State id e x s
  cases hx : readOperand e x s with
  | ok w t =>
    rw [bind_of_ok hx] at h
    rw [hx] at hk
    exact ⟨w, by rw [← hk]; exact h⟩
  | error d t =>
    rw [bind_of_error hx] at h
    cases h

/-- Memory changes at the target of an instruction and nowhere else. -/
theorem memory_execute {e : Entry} {s s' : State} (h : execute e s = .ok () s') :
    match target? e s with
    | none => s'.memory = s.memory
    | some address => ∃ w, s'.memory = s.memory.set address w := by
  rw [execute] at h
  cases hm : Mnemonic.ofName? e.mnemonic with
  | none =>
    rw [hm] at h
    cases h
  | some m =>
    rw [hm] at h
    replace h : perform e m s = .ok () s' := h
    by_cases hpush : m = .push
    · subst hpush
      obtain ⟨x, ho, hx⟩ := withOne_ok h
      obtain ⟨w, hw⟩ := readOperand_bind_ok hx
      simp only [target?, hm, ho]
      let lowered : State := { s with rsp := s.rsp - BitVec.ofNat 64 wordBytes }
      have hwrite : s'.memory = lowered.memory.set lowered.rsp.toNat w := memory_writeMemory hw
      exact ⟨w, hwrite⟩
    by_cases hmov : m = .mov
    · subst hmov
      obtain ⟨dest, src, ho, hx⟩ := withTwo_ok h
      simp only [target?, hm, ho]
      split at hx
      · cases hx
      · obtain ⟨w, hw⟩ := readOperand_bind_ok hx
        cases hd : addressName? dest with
        | none =>
          rw [writeOperand, hd] at hw
          replace hw : writeRegister e dest w s = .ok () s' := hw
          have hk := aside_memory.keeps_writeRegister e dest w s
          rw [hw] at hk
          exact hk
        | some name =>
          rw [writeOperand, hd] at hw
          replace hw : (readRegister e name >>= (writeMemory e · w)) s = .ok () s' := hw
          cases hr : Register.ofName? name with
          | none =>
            have he : readRegister e name s = .error ⟨.unknownRegister name, some e.line⟩ s := by
              rw [readRegister, hr]
              rfl
            rw [bind_of_error he] at hw
            cases hw
          | some r =>
            have he : readRegister e name s = .ok (s.get r) s := by rw [readRegister, hr]
            rw [bind_of_ok he] at hw
            simp only [Option.bind_some, hr, Option.map_some]
            exact ⟨w, memory_writeMemory hw⟩
    · have hk := aside_memory.keeps_perform e hpush hmov (fun _ _ _ => rfl) s
      rw [h] at hk
      have ht : target? e s = none := by
        rw [target?, hm]
        cases m with
        | push => exact absurd rfl hpush
        | mov => exact absurd rfl hmov
        | _ => rfl
      rw [ht]
      exact hk

end Action

/-! ### Walks -/

/-- Entries are performed one after the other, each in a state that a condition admits. -/
inductive Walks (P : Entry → State → Prop) : List Entry → State → State → Prop
  | nil (s : State) : Walks P [] s s
  | cons {e : Entry} {es : List Entry} {s t u : State} (hs : s.halted = false) (hp : P e s)
      (he : Action.execute e s.ticked = .ok () t) (h : Walks P es t u) : Walks P (e :: es) s u

/-- Entries are performed one after the other up to one that faults. -/
inductive Faults (P : Entry → State → Prop) : List Entry → State → Fault → Prop
  | here {e : Entry} {es : List Entry} {s t : State} {f : Fault} (hs : s.halted = false)
      (hp : P e s) (he : Action.execute e s.ticked = .error f t) : Faults P (e :: es) s f
  | later {e : Entry} {es : List Entry} {s t : State} {f : Fault} (hs : s.halted = false)
      (hp : P e s) (he : Action.execute e s.ticked = .ok () t) (h : Faults P es t f) :
      Faults P (e :: es) s f

section Walks

variable {P : Entry → State → Prop} {es more : List Entry} {s t u : State} {f : Fault}

theorem Walks.append (h : Walks P es s t) (h' : Walks P more t u) : Walks P (es ++ more) s u := by
  induction h with
  | nil s => exact h'
  | cons hs hp he _ ih => exact .cons hs hp he (ih h')

theorem Walks.faults (h : Walks P es s t) (h' : Faults P more t f) : Faults P (es ++ more) s f := by
  induction h with
  | nil s => exact h'
  | cons hs hp he _ ih => exact .later hs hp he (ih h')

theorem Faults.append (h : Faults P es s f) (more : List Entry) : Faults P (es ++ more) s f := by
  induction h with
  | here hs hp he => exact .here hs hp he
  | later hs hp he _ ih => exact .later hs hp he ih

/-- A walk can be cut anywhere. -/
theorem Walks.split (h : Walks P (es ++ more) s u) : ∃ t, Walks P es s t ∧ Walks P more t u := by
  induction es generalizing s with
  | nil => exact ⟨s, .nil s, h⟩
  | cons e es ih =>
    cases h with
    | cons hs hp he h =>
      obtain ⟨t, h₁, h₂⟩ := ih h
      exact ⟨t, .cons hs hp he h₁, h₂⟩

theorem Walks.counters (h : Walks P es s t) :
    t.ip = s.ip + es.length ∧ t.steps = s.steps + es.length := by
  induction h with
  | nil s => simp
  | @cons e es s t u hs hp he _ ih =>
    have hc := Action.counters_of_execute he
    simp only [State.ticked] at hc
    rw [List.length_cons]
    omega

variable {code : Array Entry} {limit : Int} {e : Entry} {before after : List Entry}

theorem entryAt?_eq (hc : code.toList = before ++ e :: es ++ after)
    (hip : s.ip = before.length) : Action.entryAt? code s.ip = some e := by
  rw [Action.entryAt?, if_pos (by omega), ← Array.getElem?_toList, hc, hip, Int.toNat_natCast]
  simp

/-- One step at a place in the code performs the entry there. -/
theorem step_eq (hc : code.toList = before ++ e :: es ++ after) (hip : s.ip = before.length)
    (hs : s.halted = false) : Action.step code s = Action.execute e s.ticked := by
  rw [Action.step, if_neg (by simp [hs]), entryAt?_eq hc hip]
  rfl

/-- An entry that is performed leads to the place behind it. -/
theorem place_of_execute (hc : code.toList = before ++ e :: es ++ after)
    (hip : s.ip = before.length) (he : Action.execute e s.ticked = .ok () t) :
    code.toList = before ++ [e] ++ es ++ after ∧ t.ip = (before ++ [e]).length ∧
      t.steps = s.steps + 1 := by
  obtain ⟨hti, hts⟩ := Action.counters_of_execute he
  refine ⟨by simpa using hc, ?_, hts⟩
  rw [hti, State.ticked, hip]
  simp

open Machine (runWithin)

theorem runWithin_succ (hs : s.halted = false) (hl : s.steps < limit) (n : Nat)
    (seen : List (Int × Entry)) :
    runWithin code limit none (n + 1) s seen = match Action.step code s with
      | .error f s' => ⟨.error (.fault f), s', seen.reverse⟩
      | .ok _ s' => runWithin code limit none n s' seen := by
  conv => lhs; unfold runWithin
  rw [if_neg (by simp [hs]), if_neg (by omega)]
  rfl

/-- A run passes through the walks of its code. -/
theorem Walks.runWithin_eq (h : Walks P es s t) (hc : code.toList = before ++ es ++ after)
    (hip : s.ip = before.length) (hl : (s.steps + es.length : Nat) ≤ limit) (n : Nat)
    (seen : List (Int × Entry)) :
    runWithin code limit none (n + es.length) s seen = runWithin code limit none n t seen := by
  induction h generalizing before with
  | nil s => rfl
  | @cons e es s t u hs hp he _ ih =>
    obtain ⟨hc', hip', hsteps⟩ := place_of_execute hc hip he
    rw [List.length_cons] at hl ⊢
    rw [← Nat.add_assoc, runWithin_succ hs (by omega), step_eq hc hip hs, he]
    exact ih hc' hip' (by omega)

/-- A run ends where its code faults. -/
theorem Faults.runWithin_outcome (h : Faults P es s f) (hc : code.toList = before ++ es ++ after)
    (hip : s.ip = before.length) (hl : (s.steps + es.length : Nat) ≤ limit) (n : Nat)
    (seen : List (Int × Entry)) :
    (runWithin code limit none (n + es.length) s seen).outcome = .error (.fault f) := by
  induction h generalizing before with
  | here hs hp he =>
    rw [List.length_cons] at hl ⊢
    rw [← Nat.add_assoc, runWithin_succ hs (by omega), step_eq hc hip hs, he]
  | later hs hp he _ ih =>
    obtain ⟨hc', hip', hsteps⟩ := place_of_execute hc hip he
    rw [List.length_cons] at hl ⊢
    rw [← Nat.add_assoc, runWithin_succ hs (by omega), step_eq hc hip hs, he]
    exact ih hc' hip' (by omega)

/-- As many single steps as a walk has entries lead to its end. -/
theorem Walks.stepMany_eq {m : Machine} (h : Walks P es m.state t)
    (hc : m.listing.entries.toList = before ++ es ++ after) (hip : m.state.ip = before.length) :
    m.stepMany es.length = (.ok (), { m with state := t }) := by
  induction es generalizing m before with
  | nil => cases h; rfl
  | cons e es ih =>
    cases h with
    | @cons _ _ _ u _ hs hp he h =>
      obtain ⟨hc', hip', -⟩ := place_of_execute hc hip he
      have hrest := ih (m := { m with state := u }) h hc' hip'
      rw [List.length_cons, Machine.stepMany, Machine.step, step_eq hc hip hs, he]
      exact hrest

/-- A walk passes through one state at every number of steps. -/
theorem Walks.exists_stepMany {m : Machine} (h : Walks P es m.state t)
    (hc : m.listing.entries.toList = before ++ es ++ after) (hip : m.state.ip = before.length)
    {n : Nat} (hn : n ≤ es.length) :
    ∃ u, m.stepMany n = (.ok (), { m with state := u }) ∧ Walks P (es.take n) m.state u ∧
      Walks P (es.drop n) u t := by
  rw [← List.take_append_drop n es] at h
  obtain ⟨u, h₁, h₂⟩ := h.split
  refine ⟨u, ?_, h₁, h₂⟩
  have hcut : m.listing.entries.toList = before ++ es.take n ++ (es.drop n ++ after) := by
    rw [hc, List.append_assoc, List.append_assoc, ← List.append_assoc (es.take n),
      List.take_append_drop]
  have := h₁.stepMany_eq hcut hip
  rwa [List.length_take_of_le hn] at this

/-- What holds on a walk holds of the next instruction. -/
theorem Walks.next (h : Walks P es s t) (hc : code.toList = before ++ es ++ after)
    (hip : s.ip = before.length) (hs : es ≠ []) {e : Entry}
    (he : Action.entryAt? code s.ip = some e) : P e s := by
  cases h with
  | nil s => exact absurd rfl hs
  | cons _ hp _ _ =>
    obtain rfl := Option.some.inj ((entryAt?_eq hc hip).symm.trans he)
    exact hp

end Walks

namespace Machine

theorem stepMany_add {m m' : Machine} {n : Nat} (h : m.stepMany n = (.ok (), m')) (k : Nat) :
    m.stepMany (n + k) = m'.stepMany k := by
  induction n generalizing m with
  | zero =>
    cases h
    rw [Nat.zero_add]
  | succ n ih =>
    rw [Nat.succ_add]
    rw [stepMany] at h ⊢
    split at h
    · exact ih h
    · cases h

/-- A halted machine rests. -/
theorem stepMany_of_halted {m : Machine} (h : m.state.halted = true) (n : Nat) :
    m.stepMany n = (.ok (), m) := by
  induction n with
  | zero => rfl
  | succ n ih =>
    have hstep : m.step = (.ok (), m) := by
      rw [step, Action.step, if_pos h]
    rw [stepMany, hstep]
    exact ih

end Machine

end WordLang
