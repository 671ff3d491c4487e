import WordLang.Machine
import WordLang.Proofs.Computation

/-! The line of an instruction shows in its faults and nowhere else. Programs that differ in lines
only run alike, and where one of them faults the other does for the same cause. -/
namespace WordLang

/-- An entry without its line. -/
def Entry.content (e : Entry) : String × List String := (e.mnemonic, e.operands)

/-- The same instruction on another line. -/
def Entry.movedTo (e : Entry) (line : Int) : Entry := { e with line := line }

@[simp] theorem Entry.mnemonic_movedTo (e : Entry) (line : Int) :
    (e.movedTo line).mnemonic = e.mnemonic := rfl

@[simp] theorem Entry.operands_movedTo (e : Entry) (line : Int) :
    (e.movedTo line).operands = e.operands := rfl

theorem Entry.eq_movedTo {e₁ e₂ : Entry} (h : e₁.content = e₂.content) :
    e₂ = e₁.movedTo e₂.line := by
  obtain ⟨m₁, os₁, l₁⟩ := e₁
  obtain ⟨m₂, os₂, l₂⟩ := e₂
  obtain ⟨rfl, rfl⟩ := Prod.mk.inj h
  rfl

namespace Action

variable {α β : Type} (line : Int) (e : Entry)

/-- An action whose faults are told at a line. -/
def toldAt (act : Action α) : Action α := fun s =>
  match act s with
  | .ok a s' => .ok a s'
  | .error f s' => .error ⟨f.cause, some line⟩ s'

@[simp] theorem toldAt_pure (a : α) : toldAt line (pure a) = pure a := rfl

@[simp] theorem toldAt_get : toldAt line get = get := rfl

@[simp] theorem toldAt_set (s : State) : toldAt line (set s) = set s := rfl

@[simp] theorem toldAt_modify (f : State → State) : toldAt line (modify f) = modify f := rfl

@[simp] theorem toldAt_fault (cause : FaultCause) :
    toldAt line (fault e cause : Action α) = fault (e.movedTo line) cause := rfl

@[simp] theorem toldAt_bind (act : Action α) (next : α → Action β) :
    toldAt line (act >>= next) = toldAt line act >>= fun a => toldAt line (next a) := by
  funext s
  simp only [toldAt, bind, EStateM.bind]
  cases act s <;> rfl

@[simp] theorem toldAt_map (f : α → β) (act : Action α) :
    toldAt line (f <$> act) = f <$> toldAt line act := by
  rw [← bind_pure_comp, ← bind_pure_comp, toldAt_bind]
  rfl

@[simp] theorem toldAt_ite (p : Prop) [Decidable p] (act more : Action α) :
    toldAt line (if p then act else more) =
      if p then toldAt line act else toldAt line more := by
  split <;> rfl

@[simp] theorem toldAt_readRegister (name : String) :
    toldAt line (readRegister e name) = readRegister (e.movedTo line) name := by
  funext s
  simp only [toldAt, readRegister]
  cases Register.ofName? name <;> rfl

@[simp] theorem toldAt_writeRegister (name : String) (w : Word) :
    toldAt line (writeRegister e name w) = writeRegister (e.movedTo line) name w := by
  funext s
  simp only [toldAt, writeRegister]
  cases Register.ofName? name <;> rfl

@[simp] theorem toldAt_readMemory (address : Word) :
    toldAt line (readMemory e address) = readMemory (e.movedTo line) address := by
  funext s
  simp only [toldAt, readMemory]
  cases addressFault? address.toNat <;> rfl

@[simp] theorem toldAt_writeMemory (address w : Word) :
    toldAt line (writeMemory e address w) = writeMemory (e.movedTo line) address w := by
  funext s
  simp only [toldAt, writeMemory]
  cases addressFault? address.toNat <;> rfl

@[simp] theorem toldAt_pushWord (w : Word) :
    toldAt line (pushWord e w) = pushWord (e.movedTo line) w := by
  funext s
  exact congrFun (toldAt_writeMemory line e _ w) _

@[simp] theorem toldAt_popWord : toldAt line (popWord e) = popWord (e.movedTo line) := by
  simp [popWord]

@[simp] theorem toldAt_readOperand (operand : String) :
    toldAt line (readOperand e operand) = readOperand (e.movedTo line) operand := by
  rw [readOperand, readOperand]
  split
  · simp
  split
  · rfl
  split
  · simp
  · simp

@[simp] theorem toldAt_writeOperand (operand : String) (w : Word) :
    toldAt line (writeOperand e operand w) = writeOperand (e.movedTo line) operand w := by
  rw [writeOperand, writeOperand]
  split <;> simp

@[simp] theorem toldAt_divideBy (operand : String) :
    toldAt line (divideBy e operand) = divideBy (e.movedTo line) operand := by
  refine (toldAt_bind line _ _).trans ?_
  rw [toldAt_readOperand]
  congr 1
  funext divisor s
  simp only [toldAt]
  cases divide s.rdx s.rax divisor.toInt <;> rfl

@[simp] theorem toldAt_returnFrom :
    toldAt line (returnFrom e) = returnFrom (e.movedTo line) := by
  simp [returnFrom]

@[simp] theorem toldAt_withNone (act : Action Unit) :
    toldAt line (withNone e act) = withNone (e.movedTo line) (toldAt line act) := by
  rw [withNone, withNone, Entry.operands_movedTo]
  split <;> rfl

@[simp] theorem toldAt_withOne (act : String → Action Unit) :
    toldAt line (withOne e act) = withOne (e.movedTo line) fun x => toldAt line (act x) := by
  rw [withOne, withOne, Entry.operands_movedTo]
  split <;> rfl

@[simp] theorem toldAt_withTwo (act : String → String → Action Unit) :
    toldAt line (withTwo e act) = withTwo (e.movedTo line) fun x y => toldAt line (act x y) := by
  rw [withTwo, withTwo, Entry.operands_movedTo]
  split <;> rfl

theorem toldAt_perform (m : Mnemonic) :
    toldAt line (perform e m) = perform (e.movedTo line) m := by
  cases m <;> simp [perform, arithmetic, setIf]

/-- An instruction on another line does the same, and faults there. -/
theorem execute_movedTo : execute (e.movedTo line) = toldAt line (execute e) := by
  rw [execute, execute, Entry.mnemonic_movedTo]
  cases Mnemonic.ofName? e.mnemonic with
  | none => rfl
  | some m => exact (toldAt_perform line e m).symm

end Action

/-! ### Programs that differ in lines -/

/-- Two faults with one cause, at the lines of instructions with the same index or at none. -/
structure Fault.SameCause (code₁ code₂ : Array Entry) (f₁ f₂ : Fault) : Prop where
  cause : f₁.cause = f₂.cause
  line : (f₁.line = none ∧ f₂.line = none) ∨
    ∃ (i : Nat) (e₁ e₂ : Entry), code₁[i]? = some e₁ ∧ code₂[i]? = some e₂ ∧
      f₁.line = some e₁.line ∧ f₂.line = some e₂.line

/-- Two ends of a step in the same state, with faults of one cause if they are faults. -/
inductive Action.SameEnd (code₁ code₂ : Array Entry) :
    EStateM.Result Fault State Unit → EStateM.Result Fault State Unit → Prop
  | ok (s : State) : SameEnd code₁ code₂ (.ok () s) (.ok () s)
  | error {f₁ f₂ : Fault} (h : f₁.SameCause code₁ code₂ f₂) (s : State) :
      SameEnd code₁ code₂ (.error f₁ s) (.error f₂ s)

/-- Two runs that end in the same state, with the same value or with faults of one cause. -/
inductive Run.SameEnd (code₁ code₂ : Array Entry) : Run → Run → Prop
  | value (v : Int) (s : State) : SameEnd code₁ code₂ ⟨.ok (some v), s, []⟩ ⟨.ok (some v), s, []⟩
  | fault {f₁ f₂ : Fault} (h : f₁.SameCause code₁ code₂ f₂) (s : State) :
      SameEnd code₁ code₂ ⟨.error (.fault f₁), s, []⟩ ⟨.error (.fault f₂), s, []⟩

namespace Action

variable {code₁ code₂ : Array Entry}

theorem execute_sameEnd {i : Nat} {e₁ e₂ : Entry} (h₁ : code₁[i]? = some e₁)
    (h₂ : code₂[i]? = some e₂) (h : e₁.content = e₂.content) (s : State) :
    SameEnd code₁ code₂ (execute e₁ s) (execute e₂ s) := by
  have hx₁ : execute e₁ s = toldAt e₁.line (execute e₁) s :=
    congrFun (execute_movedTo e₁.line e₁) s
  have hx₂ : execute e₂ s = toldAt e₂.line (execute e₁) s := by
    rw [← execute_movedTo, ← Entry.eq_movedTo h]
  rw [hx₂, hx₁]
  unfold toldAt
  cases execute e₁ s with
  | ok _ s' => exact .ok s'
  | error f s' =>
    have hf : Fault.SameCause code₁ code₂ ⟨f.cause, some e₁.line⟩ ⟨f.cause, some e₂.line⟩ :=
      ⟨rfl, .inr ⟨i, e₁, e₂, h₁, h₂, rfl, rfl⟩⟩
    exact .error hf s'

section SameContent

variable (h : code₁.map Entry.content = code₂.map Entry.content)
include h

/-- At an index both programs have an instruction, the same up to its line, or neither has one. -/
theorem entryAt?_cases (index : Int) :
    (entryAt? code₁ index = none ∧ entryAt? code₂ index = none) ∨
      ∃ (i : Nat) (e₁ e₂ : Entry), entryAt? code₁ index = some e₁ ∧ entryAt? code₂ index = some e₂ ∧
        code₁[i]? = some e₁ ∧ code₂[i]? = some e₂ ∧ e₁.content = e₂.content := by
  have hi : code₁[index.toNat]?.map Entry.content = code₂[index.toNat]?.map Entry.content := by
    rw [← Array.getElem?_map, ← Array.getElem?_map, h]
  rw [entryAt?, entryAt?]
  split
  · cases h₁ : code₁[index.toNat]? with
    | none =>
      rw [h₁, Option.map_none, eq_comm, Option.map_eq_none_iff] at hi
      exact .inl ⟨rfl, hi⟩
    | some e₁ =>
      rw [h₁, Option.map_some, eq_comm, Option.map_eq_some_iff] at hi
      obtain ⟨e₂, h₂, hcontent⟩ := hi
      exact .inr ⟨index.toNat, e₁, e₂, rfl, h₂, h₁, h₂, hcontent.symm⟩
  · exact .inl ⟨rfl, rfl⟩

/-- One step is the same in both programs, up to the line of a fault. -/
theorem step_sameEnd (s : State) : SameEnd code₁ code₂ (step code₁ s) (step code₂ s) := by
  rw [step, step]
  split
  · exact .ok s
  obtain ⟨h₁, h₂⟩ | ⟨i, e₁, e₂, h₁, h₂, hi₁, hi₂, hcontent⟩ := entryAt?_cases h s.ip
  · rw [h₁, h₂]
    exact .error ⟨rfl, .inl ⟨rfl, rfl⟩⟩ s
  · rw [h₁, h₂]
    exact execute_sameEnd hi₁ hi₂ hcontent _

end SameContent

end Action

namespace Machine

variable {code₁ code₂ : Array Entry} (h : code₁.map Entry.content = code₂.map Entry.content)
include h

/-- Runs go alike, step by step. -/
theorem runWithin_sameEnd (limit : Int) (n : Nat) (s : State) :
    Run.SameEnd code₁ code₂ (runWithin code₁ limit none n s [])
      (runWithin code₂ limit none n s []) := by
  induction n generalizing s with
  | zero =>
    unfold runWithin
    split
    · exact .value _ s
    split
    · exact .fault ⟨rfl, .inl ⟨rfl, rfl⟩⟩ s
    · exact .fault ⟨rfl, .inl ⟨rfl, rfl⟩⟩ s
  | succ n ih =>
    unfold runWithin
    split
    · exact .value _ s
    split
    · exact .fault ⟨rfl, .inl ⟨rfl, rfl⟩⟩ s
    have hstep := Action.step_sameEnd h s
    simp only [consult]
    generalize Action.step code₁ s = x₁ at hstep
    generalize Action.step code₂ s = x₂ at hstep
    cases hstep with
    | ok s' => exact ih s'
    | error hf s' => exact .fault hf s'

end Machine

/-- Two texts with the same instructions and labels run alike, whatever else stands in them. -/
theorem runAssembly_sameEnd {text₁ text₂ : String}
    (he : (Listing.read text₁).entries.map Entry.content =
      (Listing.read text₂).entries.map Entry.content)
    (hl : (Listing.read text₁).labels = (Listing.read text₂).labels) (limit : Int) {index : Int}
    (hmain : (Listing.read text₁).labels.find? Machine.entryLabel = some index) :
    ∃ run₁ run₂, runAssembly text₁ limit = .ok run₁ ∧ runAssembly text₂ limit = .ok run₂ ∧
      Run.SameEnd (Listing.read text₁).entries (Listing.read text₂).entries run₁ run₂ := by
  have hsize : (Listing.read text₁).entries.size = (Listing.read text₂).entries.size := by
    simpa using congrArg Array.size he
  have hstart : Machine.entryState (.read text₂) = Machine.entryState (.read text₁) := by
    rw [Machine.entryState, Machine.entryState, hl]
  obtain ⟨s, hs⟩ : ∃ s, Machine.entryState (.read text₁) = .ok s :=
    ⟨_, by rw [Machine.entryState, hmain]⟩
  refine ⟨Machine.run ⟨.read text₁, limit, s⟩ none, Machine.run ⟨.read text₂, limit, s⟩ none,
    by rw [runAssembly, Machine.load, hs]; rfl, by rw [runAssembly, Machine.load, hstart, hs]; rfl,
    ?_⟩
  rw [Machine.run, Machine.run, hsize]
  exact Machine.runWithin_sameEnd he limit _ s

end WordLang
