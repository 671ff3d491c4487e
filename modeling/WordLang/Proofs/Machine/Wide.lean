import WordLang.Machine.Wide
import WordLang.Proofs.Machine.Invariant

/-! The machine on integers holds patterns of words. Started on the patterns of a state it does what
the machine on words does, fault for fault; so nothing that it ever stores is out of bounds. -/
namespace WordLang

/-! ### States as patterns -/

def Memory.patterns (m : Memory) : List (Int × Int) :=
  m.cells.map fun cell => ((cell.1 : Int), cell.2.pattern)

/-- A state of words as a state of integers: compared operands with their sign, all else without. -/
def State.patterns (s : State) : WideState where
  rax := s.rax.pattern
  rdi := s.rdi.pattern
  rdx := s.rdx.pattern
  rbp := s.rbp.pattern
  rsp := s.rsp.pattern
  ip := s.ip
  cmpLeft := s.cmpLeft.toInt
  cmpRight := s.cmpRight.toInt
  halted := s.halted
  steps := s.steps
  memory := s.memory.patterns

namespace Memory

theorem patterns_set (m : Memory) (address : Nat) (w : Word) :
    (m.set address w).patterns = setCell (address : Int) w.pattern m.patterns := by
  obtain ⟨cells⟩ := m
  show (setCell address w cells).map _ = setCell _ _ (cells.map _)
  induction cells with
  | nil => rfl
  | cons cell rest ih =>
    rw [setCell, List.map_cons, setCell]
    simp only [Int.ofNat_lt, Int.natCast_inj]
    split
    · rfl
    split
    · rfl
    · rw [List.map_cons, ih]

theorem lookup_patterns (m : Memory) (address : Nat) :
    (m.patterns.lookup (address : Int)).getD 0 = (m.get address).pattern := by
  obtain ⟨cells⟩ := m
  rw [get, get?, patterns]
  induction cells with
  | nil => rfl
  | cons cell rest ih =>
    rw [List.map_cons, List.lookup_cons, List.lookup_cons]
    by_cases h : address = cell.1
    · simp [h]
    · simpa [beq_false_of_ne h, show ((address : Int) == (cell.1 : Int)) = false by simpa using h]
        using ih

end Memory

namespace State

theorem get_patterns (s : State) (r : Register) : s.patterns.get r = (s.get r).pattern := by
  cases r with
  | al =>
    show Bits.and s.rax.pattern byteMask = _
    rw [Bits.and_byteMask, Word.ofInt_pattern]
    rfl
  | _ => rfl

/-- A value of any size is cut down as it is stored. -/
theorem set_patterns (s : State) (value : Int) (r : Register) :
    s.patterns.set value r = (s.set (Word.ofInt value) r).patterns := by
  cases r with
  | al => simp only [WideState.set, set, patterns, Bits.or_lowByte]
  | _ => simp only [WideState.set, set, patterns, Bits.and_wordMask]

theorem result_patterns (s : State) : s.patterns.result = s.result := by
  rw [WideState.result, toSigned_eq]
  exact congrArg BitVec.toInt s.rax.ofInt_pattern

end State

/-! ### Actions -/

namespace WideAction

open WordLang.Action (fault addressFault? withNone withOne withTwo)

variable {α β α' β' : Type}

/-- The end of an action on words, told in patterns. -/
def told (f : α → β) : EStateM.Result Fault State α → EStateM.Result Fault WideState β
  | .ok a s => .ok (f a) s.patterns
  | .error d s => .error d s.patterns

/-- An action on integers does to patterns what an action on words does to words. -/
def Carries (f : α → β) (wide : WideAction β) (act : Action α) : Prop :=
  ∀ s : State, wide s.patterns = told f (act s)

theorem Carries.bind {f : α → β} {g : α' → β'} {wide : WideAction β} {act : Action α}
    {wideNext : β → WideAction β'} {next : α → Action α'} (h : Carries f wide act)
    (hn : ∀ a, Carries g (wideNext (f a)) (next a)) :
    Carries g (wide >>= wideNext) (act >>= next) := by
  intro s
  have hs := h s
  cases hr : act s with
  | ok a s' =>
    rw [hr] at hs
    rw [bind_of_ok hr, bind_of_ok hs, hn a s']
  | error d s' =>
    rw [hr] at hs
    rw [bind_of_error hr, bind_of_error hs]
    rfl

theorem carries_fault (f : α → β) (e : Entry) (cause : FaultCause) :
    Carries f (fault e cause) (fault e cause) := fun _ => rfl

theorem carries_withNone {e : Entry} {wide : WideAction Unit} {act : Action Unit}
    (h : Carries id wide act) : Carries id (withNone e wide) (withNone e act) := by
  rw [withNone, withNone]
  split
  · exact h
  · exact carries_fault id e _

theorem carries_withOne {e : Entry} {wide : String → WideAction Unit} {act : String → Action Unit}
    (h : ∀ x, Carries id (wide x) (act x)) : Carries id (withOne e wide) (withOne e act) := by
  rw [withOne, withOne]
  split
  · exact h _
  · exact carries_fault id e _

theorem carries_withTwo {e : Entry} {wide : String → String → WideAction Unit}
    {act : String → String → Action Unit} (h : ∀ x y, Carries id (wide x y) (act x y)) :
    Carries id (withTwo e wide) (withTwo e act) := by
  rw [withTwo, withTwo]
  split
  · exact h _ _
  · exact carries_fault id e _

/-! Registers, memory and operands. -/

theorem carries_readRegister (e : Entry) (name : String) :
    Carries Word.pattern (readRegister e name) (Action.readRegister e name) := by
  intro s
  rw [readRegister, Action.readRegister]
  cases Register.ofName? name with
  | some r => exact congrArg (EStateM.Result.ok · s.patterns) (s.get_patterns r)
  | none => rfl

theorem carries_writeRegister (e : Entry) (name : String) (value : Int) :
    Carries id (writeRegister e name value)
      (Action.writeRegister e name (Word.ofInt value)) := by
  intro s
  rw [writeRegister, Action.writeRegister]
  cases Register.ofName? name with
  | some r => exact congrArg (EStateM.Result.ok ()) (s.set_patterns value r)
  | none => rfl

theorem carries_readMemory (e : Entry) (address : Word) :
    Carries Word.pattern (readMemory e address.pattern) (Action.readMemory e address) := by
  intro s
  rw [readMemory, Action.readMemory, Word.pattern]
  cases addressFault? address.toNat with
  | some cause => rfl
  | none => exact congrArg (EStateM.Result.ok · s.patterns) (s.memory.lookup_patterns address.toNat)

theorem carries_writeMemory (e : Entry) (address : Word) (value : Int) :
    Carries id (writeMemory e address.pattern value)
      (Action.writeMemory e address (Word.ofInt value)) := by
  intro s
  rw [writeMemory, Action.writeMemory, Word.pattern]
  cases addressFault? address.toNat with
  | some cause => rfl
  | none => simp only [State.patterns, Bits.and_wordMask, told, Memory.patterns_set, id]

/-- The stack pointer moves by a word, and wraps. -/
theorem and_wordMask_sub (w : Word) :
    Bits.and (w.pattern - wordBytes) wordMask = (w - BitVec.ofNat 64 wordBytes).pattern := by
  rw [Bits.and_wordMask, Word.ofInt_sub, w.ofInt_pattern]
  rfl

theorem and_wordMask_add (w : Word) :
    Bits.and (w.pattern + wordBytes) wordMask = (w + BitVec.ofNat 64 wordBytes).pattern := by
  rw [Bits.and_wordMask, Word.ofInt_add, w.ofInt_pattern]
  rfl

theorem carries_get : Carries State.patterns (get : WideAction WideState) (get : Action State) :=
  fun _ => rfl

theorem carries_set {wide : WideState} {s : State} (h : wide = s.patterns) :
    Carries id (set wide : WideAction PUnit) (set s : Action PUnit) := by
  subst h
  exact fun _ => rfl

theorem carries_modify {g : WideState → WideState} {f : State → State}
    (h : ∀ s, g s.patterns = (f s).patterns) :
    Carries id (modify g : WideAction PUnit) (modify f : Action PUnit) :=
  fun s => congrArg (EStateM.Result.ok ()) (h s)

theorem carries_pushWord (e : Entry) (value : Int) :
    Carries id (pushWord e value) (Action.pushWord e (Word.ofInt value)) := by
  intro s
  have hrsp : Bits.and (s.patterns.rsp - wordBytes) wordMask =
      (s.rsp - BitVec.ofNat 64 wordBytes).pattern := and_wordMask_sub s.rsp
  rw [pushWord, Action.pushWord, hrsp]
  exact carries_writeMemory e _ value { s with rsp := s.rsp - BitVec.ofNat 64 wordBytes }

theorem carries_popWord (e : Entry) : Carries Word.pattern (popWord e) (Action.popWord e) := by
  refine carries_get.bind fun s => ?_
  refine (carries_readMemory e s.rsp).bind fun w => ?_
  refine (carries_set ?_).bind fun _ _ => rfl
  show { s.patterns with rsp := Bits.and (s.rsp.pattern + wordBytes) wordMask } = _
  rw [and_wordMask_add]
  rfl

theorem carries_readOperand (e : Entry) (operand : String) :
    Carries Word.pattern (readOperand e operand) (Action.readOperand e operand) := by
  rw [readOperand, Action.readOperand]
  cases Action.addressName? operand with
  | some name =>
    exact (carries_readRegister e name).bind fun address => carries_readMemory e address
  | none =>
    cases Register.ofName? operand with
    | some r => exact fun s => congrArg (EStateM.Result.ok · s.patterns) (s.get_patterns r)
    | none =>
      cases Text.integer? operand.toList with
      | some n => exact fun s => congrArg (EStateM.Result.ok · s.patterns) (Bits.and_wordMask n)
      | none => exact carries_fault _ e _

theorem carries_writeOperand (e : Entry) (operand : String) (value : Int) :
    Carries id (writeOperand e operand value)
      (Action.writeOperand e operand (Word.ofInt value)) := by
  rw [writeOperand, Action.writeOperand]
  cases Action.addressName? operand with
  | some name =>
    exact (carries_readRegister e name).bind fun address => carries_writeMemory e address value
  | none => exact carries_writeRegister e operand value

/-! Instructions. -/

theorem toSigned_pattern (w : Word) : toSigned w.pattern = w.toInt := by
  rw [toSigned_eq, Word.ofInt_pattern]

/-- Arithmetic on signed values wraps to arithmetic on words. -/
theorem carries_arithmetic {e : Entry} {f : Int → Int → Int} {g : Word → Word → Word}
    (h : ∀ v w : Word, Word.ofInt (f v.toInt w.toInt) = g v w) :
    Carries id (arithmetic e f) (Action.arithmetic e g) := by
  refine carries_withTwo fun dest src => ?_
  refine (carries_readRegister e dest).bind fun left => ?_
  refine (carries_readOperand e src).bind fun right => ?_
  rw [toSigned_pattern, toSigned_pattern, ← h]
  exact carries_writeRegister e dest _

theorem carries_divideBy (e : Entry) (operand : String) :
    Carries id (divideBy e operand) (Action.divideBy e operand) := by
  refine (carries_readOperand e operand).bind fun divisor s => ?_
  rw [toSigned_pattern, show s.patterns.rdx = s.rdx.pattern from rfl,
    show s.patterns.rax = s.rax.pattern from rfl, Action.divideDouble_eq_map]
  cases Action.divide s.rdx s.rax divisor.toInt with
  | error cause => rfl
  | ok p => rfl

theorem carries_setIf (e : Entry) (test : Int → Int → Bool) :
    Carries id (setIf e test) (Action.setIf e test) := by
  refine carries_withOne fun dest => carries_get.bind fun s => ?_
  show Carries id (writeRegister e dest (if test s.cmpLeft.toInt s.cmpRight.toInt then 1 else 0)) _
  split
  · exact carries_writeRegister e dest 1
  · exact carries_writeRegister e dest 0

theorem carries_returnFrom (e : Entry) : Carries id (returnFrom e) (Action.returnFrom e) := by
  refine (carries_popWord e).bind fun address => ?_
  have hsentinel : address.pattern = sentinel.toNat ↔ address = sentinel := Word.pattern_inj
  simp only [hsentinel]
  split
  · exact carries_modify fun _ => rfl
  · exact carries_fault id e _

/-- What is read from a word and stored again is not cut down. -/
theorem Carries.of_pattern {w : Word} {wide : WideAction β} {f : α → β} {act : Word → Action α}
    (h : Carries f wide (act (Word.ofInt w.pattern))) : Carries f wide (act w) := by
  rwa [w.ofInt_pattern] at h

theorem carries_perform (e : Entry) (m : Mnemonic) :
    Carries id (perform e m) (Action.perform e m) := by
  cases m with
  | push =>
    exact carries_withOne fun x => (carries_readOperand e x).bind fun w =>
      (carries_pushWord e w.pattern).of_pattern
  | pop =>
    exact carries_withOne fun x => (carries_popWord e).bind fun w =>
      (carries_writeRegister e x w.pattern).of_pattern
  | mov =>
    refine carries_withTwo fun dest src => ?_
    split
    · exact carries_fault id e _
    · exact (carries_readOperand e src).bind fun w =>
        (carries_writeOperand e dest w.pattern).of_pattern
  | movzb =>
    refine carries_withTwo fun dest src => (carries_readOperand e src).bind fun w => ?_
    rw [Bits.and_byteMask, w.ofInt_pattern]
    exact (carries_writeRegister e dest _).of_pattern
  | add =>
    refine carries_arithmetic fun v w => ?_
    rw [Word.ofInt_add, v.ofInt_toInt, w.ofInt_toInt]
  | sub =>
    refine carries_arithmetic fun v w => ?_
    rw [Word.ofInt_sub, v.ofInt_toInt, w.ofInt_toInt]
  | imul =>
    refine carries_arithmetic fun v w => ?_
    rw [Word.ofInt_mul, v.ofInt_toInt, w.ofInt_toInt]
  | cqo =>
    refine carries_withNone (carries_modify fun s => ?_)
    have hsign : Bits.and s.patterns.rax signBit ≠ 0 ↔ s.rax.msb = true := by
      rw [BitVec.msb_eq_decide, decide_eq_true_iff]
      exact (Bits.and_signBit s.rax).trans (by rw [Word.pattern]; omega)
    simp only [hsign]
    cases s.rax.msb <;> rfl
  | idiv => exact carries_withOne (carries_divideBy e)
  | cmp =>
    refine carries_withTwo fun x y => (carries_readOperand e x).bind fun left => ?_
    rw [toSigned_pattern]
    refine (carries_modify fun _ => rfl).bind fun _ => (carries_readOperand e y).bind fun right => ?_
    rw [toSigned_pattern]
    exact carries_modify fun _ => rfl
  | sete => exact carries_setIf e _
  | setne => exact carries_setIf e _
  | setl =>
    rw [perform, Action.perform]
    exact carries_setIf e _
  | setle =>
    rw [perform, Action.perform]
    exact carries_setIf e _
  | ret => exact carries_withNone (carries_returnFrom e)

theorem carries_execute (e : Entry) : Carries id (execute e) (Action.execute e) := by
  rw [execute, Action.execute]
  cases Mnemonic.ofName? e.mnemonic with
  | some m => exact carries_perform e m
  | none => exact carries_fault id e _

theorem carries_step (code : Array Entry) : Carries id (step code) (Action.step code) := by
  intro s
  rw [step, Action.step, show s.patterns.halted = s.halted from rfl,
    show s.patterns.ip = s.ip from rfl]
  split
  · rfl
  cases Action.entryAt? code s.ip with
  | none => rfl
  | some e => exact carries_execute e { s with ip := s.ip + 1, steps := s.steps + 1 }

end WideAction

/-! ### Machines -/

def Run.patterns (r : Run) : WideRun := ⟨r.outcome, r.state.patterns, r.shown⟩

def Machine.patterns (m : Machine) : WideMachine := ⟨m.listing, m.stepLimit, m.state.patterns⟩

/-- The machine that a call leaves, well or not. -/
def WideMachine.after (m : WideMachine) : Call → WideMachine
  | .step => m.step.2
  | .run limit observer =>
    let m' := { m with stepLimit := limit }
    { m' with state := (m'.run observer).state }
  | .reset =>
    match m.reset with
    | .ok m' => m'
    | .error _ => m

namespace WideMachine

theorem entryState_eq (l : Listing) :
    entryState l = (Machine.entryState l).map State.patterns := by
  rw [entryState, Machine.entryState]
  cases l.labels.find? Machine.entryLabel with
  | none => rfl
  | some index =>
    have htop : Bits.and ((WideState.start index).rsp - wordBytes) wordMask =
        Word.pattern (BitVec.ofNat 64 stackTop - BitVec.ofNat 64 wordBytes) :=
      WideAction.and_wordMask_sub (BitVec.ofNat 64 stackTop)
    simp only [htop]
    rfl

theorem runWithin_patterns (code : Array Entry) (limit : Int) (observer : Option Observer) (n : Nat)
    (s : State) (seen : List (Int × Entry)) :
    runWithin code limit observer n s.patterns seen =
      (Machine.runWithin code limit observer n s seen).patterns := by
  induction n generalizing s seen with
  | zero =>
    unfold runWithin Machine.runWithin
    rw [show s.patterns.halted = s.halted from rfl, show s.patterns.steps = s.steps from rfl,
      show s.patterns.ip = s.ip from rfl, s.result_patterns, Machine.consult]
    split
    · rfl
    split
    · rfl
    cases Machine.consultAt code observer s.ip <;> rfl
  | succ n ih =>
    unfold runWithin Machine.runWithin
    rw [show s.patterns.halted = s.halted from rfl, show s.patterns.steps = s.steps from rfl,
      show s.patterns.ip = s.ip from rfl, s.result_patterns, Machine.consult]
    split
    · rfl
    split
    · rfl
    cases Machine.consultAt code observer s.ip with
    | outOfRange => rfl
    | stop shown => rfl
    | proceed shown =>
      rw [WideAction.carries_step]
      cases Action.step code s with
      | error f s' => rfl
      | ok _ s' => exact ih s' _

theorem run_patterns (m : Machine) (observer : Option Observer) :
    m.patterns.run observer = (m.run observer).patterns :=
  runWithin_patterns _ _ _ _ _ _

theorem step_patterns (m : Machine) : m.patterns.step = (m.step.1, m.step.2.patterns) := by
  rw [step, Machine.step, show m.patterns.listing = m.listing from rfl,
    show m.patterns.state = m.state.patterns from rfl, WideAction.carries_step]
  cases Action.step m.listing.entries m.state <;> rfl

theorem load_eq (l : Listing) (stepLimit : Int) :
    load l stepLimit = (Machine.load l stepLimit).map Machine.patterns := by
  rw [load, Machine.load, entryState_eq]
  cases Machine.entryState l <;> rfl

theorem reset_patterns (m : Machine) : m.patterns.reset = m.reset.map Machine.patterns := by
  rw [reset, Machine.reset, entryState_eq, show m.patterns.listing = m.listing from rfl]
  cases Machine.entryState m.listing <;> rfl

/-- A call does to the machine on integers what it does to the machine on words. -/
theorem after_patterns (m : Machine) (call : Call) :
    m.patterns.after call = (m.after call).patterns := by
  cases call with
  | step => rw [after, step_patterns, Machine.after]
  | run limit observer =>
    have hrun := run_patterns { m with stepLimit := limit } observer
    exact congrArg (fun r => (⟨m.listing, limit, r.state⟩ : WideMachine)) hrun
  | reset =>
    rw [after, Machine.after, reset_patterns]
    cases m.reset <;> rfl

theorem afterAll_patterns (m : Machine) (calls : List Call) :
    calls.foldl after m.patterns = (calls.foldl Machine.after m).patterns := by
  induction calls generalizing m with
  | nil => rfl
  | cons call calls ih => rw [List.foldl_cons, List.foldl_cons, after_patterns, ih]

end WideMachine

/-! ### Bounds -/

/-- What holds of every state of a machine on integers whose program starts at an index and has so
many instructions. -/
structure WideState.InBounds (s : WideState) (main : Int) (size : Nat) : Prop where
  registers : ∀ r, 0 ≤ s.get r ∧ s.get r < 2 ^ 64
  rising : s.memory.Pairwise fun x y => x.1 < y.1
  addresses : ∀ cell ∈ s.memory,
    cell.1 % 8 = 0 ∧ stackTop - stackSize ≤ cell.1 ∧ cell.1 < stackTop
  cells : ∀ cell ∈ s.memory, 0 ≤ cell.2 ∧ cell.2 < 2 ^ 64
  cmpLeft : -2 ^ 63 ≤ s.cmpLeft ∧ s.cmpLeft < 2 ^ 63
  cmpRight : -2 ^ 63 ≤ s.cmpRight ∧ s.cmpRight < 2 ^ 63
  ip : s.ip = main + s.steps
  ip_le : s.ip ≤ size

theorem State.InPlace.inBounds {s : State} {main : Int} {size : Nat} (h : s.InPlace main size) :
    s.patterns.InBounds main size where
  registers r := by
    rw [s.get_patterns]
    exact Word.pattern_bounds _
  rising := List.pairwise_map.mpr (h.memory.rising.imp fun hlt => Int.ofNat_lt.mpr hlt)
  addresses cell hc := by
    obtain ⟨c, hmem, rfl⟩ := List.mem_map.mp hc
    have haligned := h.memory.aligned c hmem
    have hwithin := h.memory.within c hmem
    simp only [stackTop, stackSize] at hwithin ⊢
    omega
  cells cell hc := by
    obtain ⟨c, -, rfl⟩ := List.mem_map.mp hc
    exact Word.pattern_bounds _
  cmpLeft := Word.toInt_bounds _
  cmpRight := Word.toInt_bounds _
  ip := h.ip
  ip_le := h.ip_le

/-- Whatever a machine is asked to do one after the other, and whatever of it faults: registers and
cells of memory stay in the range of unsigned words and compared operands in that of signed ones,
memory has addresses of words of the stack only, each once, and the next instruction is as many
places behind the start of the program as instructions were begun, at most behind the last. At every
moment the machine holds the patterns of the machine on words, asked the same. An observer is asked
about an instruction once in a run, so that observers stand for all sequences of verdicts. -/
theorem inBounds_after_calls (text : String) (limit : Int) {main : Int}
    (hmain : (Listing.read text).labels.find? "main" = some main) :
    ∃ m n, WideMachine.load (.read text) limit = .ok m ∧ Machine.load (.read text) limit = .ok n ∧
      ∀ calls : List Call,
        let m' := calls.foldl WideMachine.after m
        m'.listing = .read text ∧ m'.state.InBounds main (Listing.read text).entries.size ∧
        m' = (calls.foldl Machine.after n).patterns ∧
        ∀ limit' observer, ({ m' with stepLimit := limit' }.run observer).shown.Pairwise
          fun (x y : Int × Entry) => x.1 < y.1 := by
  have hl := Listing.labelled_read text
  obtain ⟨s, hstart, hs⟩ := Machine.exists_entryState_inPlace hl hmain
  let n : Machine := ⟨.read text, limit, s⟩
  have hload : Machine.load (.read text) limit = .ok n := by
    rw [Machine.load, hstart]
    rfl
  refine ⟨n.patterns, n, by rw [WideMachine.load_eq, hload]; rfl, hload, fun calls => ?_⟩
  have hstable : Machine.Stable (.read text) main n := ⟨rfl, hs⟩
  obtain ⟨hlisting, hstate⟩ := hstable.afterAll hl hmain calls
  rw [WideMachine.afterAll_patterns]
  refine ⟨hlisting, hstate.inBounds, rfl, fun limit' observer => ?_⟩
  have hrun := WideMachine.run_patterns { calls.foldl Machine.after n with stepLimit := limit' }
    observer
  exact congrArg WideRun.shown hrun ▸ Machine.runWithin_shown _ ⟨.nil, by simp⟩

/-- A push beyond the stack, arithmetic that wraps and a pop into a register that does not exist,
gone over twice. -/
theorem inBounds_after_faults :
    let text := "main:\n mov rsp, 3\n sub rax, rsp\n push 1\n pop r9\n ret"
    let calls : List Call := [.run 3 none, .step, .step, .run 9 (some (.untilMnemonic "ret")),
      .reset, .run 2 (some .watch)]
    (Listing.read text).labels.find? "main" = some 0 ∧
      ∃ m, WideMachine.load (.read text) 7 = .ok m ∧
        (calls.foldl WideMachine.after m).state.InBounds 0 5 ∧
        (calls.foldl WideMachine.after m).state.rax = 0xfffffffffffffffd := by
  intro text calls
  have hmain : (Listing.read text).labels.find? "main" = some 0 := by decide +kernel
  have hsize : (Listing.read text).entries.size = 5 := by decide +kernel
  have hend : (WideMachine.load (.read text) 7).toOption.any (fun m =>
      decide ((calls.foldl WideMachine.after m).state.rax = 0xfffffffffffffffd)) = true := by
    decide +kernel
  obtain ⟨m, _, hm, -, hcalls⟩ := inBounds_after_calls text 7 hmain
  rw [hm] at hend
  exact ⟨hmain, m, hm, hsize ▸ (hcalls calls).2.1, of_decide_eq_true hend⟩

end WordLang
