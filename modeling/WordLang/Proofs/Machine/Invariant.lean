import WordLang.Proofs.Machine.Instruction
import WordLang.Proofs.Machine.Run

/-! What holds of a machine whatever it is asked to do. A call may fault and leave an instruction
half done; the next call starts from there. -/
namespace WordLang

namespace Action

/-! ### Conditions on memory -/

/-- An action leads from states of one sort to states of that sort, well or not. -/
def Maintains {α : Type} (P : State → Prop) (act : Action α) : Prop :=
  ∀ s, P s → P (endState (act s))

section Maintains

variable {α β γ : Type} {P : State → Prop}

theorem Keeps.maintains {part : State → γ} {Q : γ → Prop} {act : Action α} (h : Keeps part act) :
    Maintains (fun s => Q (part s)) act := by
  intro s hs
  rwa [h s]

theorem Maintains.bind {act : Action α} {next : α → Action β} (h : Maintains P act)
    (hn : ∀ a, Maintains P (next a)) : Maintains P (act >>= next) := by
  intro s hs
  have hact := h s hs
  cases hr : act s with
  | ok a s' =>
    rw [hr] at hact
    rw [bind_of_ok hr]
    exact hn a s' hact
  | error f s' =>
    rw [hr] at hact
    rwa [bind_of_error hr]

theorem maintains_withOne {e : Entry} {act : String → Action Unit} (h : ∀ x, Maintains P (act x)) :
    Maintains P (withOne e act) := by
  rw [withOne]
  split
  · exact h _
  · exact fun _ hs => hs

theorem maintains_withTwo {e : Entry} {act : String → String → Action Unit}
    (h : ∀ x y, Maintains P (act x y)) : Maintains P (withTwo e act) := by
  rw [withTwo]
  split
  · exact h _ _
  · exact fun _ hs => hs

end Maintains

section Memory

variable {Q : Memory → Prop}
  (hQ : ∀ m (address : Nat) w, addressFault? address = none → Q m → Q (m.set address w))
include hQ

/-- An address is checked before it is written. -/
theorem maintains_writeMemory (e : Entry) (address w : Word) :
    Maintains (fun s => Q s.memory) (writeMemory e address w) := by
  intro s hs
  rw [writeMemory]
  split
  · exact hs
  · rename_i hfault
    exact hQ s.memory address.toNat w hfault hs

theorem maintains_writeOperand (e : Entry) (operand : String) (w : Word) :
    Maintains (fun s => Q s.memory) (writeOperand e operand w) := by
  rw [writeOperand]
  split
  · exact (keeps_readRegister e _).maintains.bind fun address =>
      maintains_writeMemory hQ e address w
  · exact (aside_memory.keeps_writeRegister e operand w).maintains

/-- Whatever an instruction comes to, it has written to memory at checked addresses only. -/
theorem maintains_execute (e : Entry) : Maintains (fun s => Q s.memory) (execute e) := by
  rw [execute]
  split
  · rename_i m _
    by_cases hpush : m = .push
    · subst hpush
      refine maintains_withOne fun x => (keeps_readOperand e x).maintains.bind fun w s hs => ?_
      exact maintains_writeMemory hQ e _ w _ hs
    by_cases hmov : m = .mov
    · subst hmov
      refine maintains_withTwo fun dest src => ?_
      split
      · exact fun _ hs => hs
      · exact (keeps_readOperand e src).maintains.bind fun w => maintains_writeOperand hQ e dest w
    · exact (aside_memory.keeps_perform e hpush hmov fun _ _ _ => rfl).maintains
  · exact fun _ hs => hs

end Memory

end Action

/-! ### Cells of the stack -/

namespace Memory

theorem mem_setCell {address : Nat} {word : Word} {cells : List (Nat × Word)} {cell : Nat × Word}
    (h : cell ∈ setCell address word cells) : cell = (address, word) ∨ cell ∈ cells := by
  induction cells with
  | nil => simpa [setCell] using h
  | cons first rest ih =>
    rw [setCell] at h
    grind

theorem pairwise_setCell (address : Nat) (word : Word) {cells : List (Nat × Word)}
    (h : cells.Pairwise fun x y => x.1 < y.1) :
    (setCell address word cells).Pairwise fun x y => x.1 < y.1 := by
  induction cells with
  | nil => simp [setCell]
  | cons first rest ih =>
    obtain ⟨hfirst, hrest⟩ := List.pairwise_cons.mp h
    rw [setCell]
    split
    · rename_i hlt
      refine List.pairwise_cons.mpr ⟨fun cell hc => ?_, h⟩
      rcases List.mem_cons.mp hc with rfl | hc
      · exact hlt
      · exact Nat.lt_trans hlt (hfirst cell hc)
    split
    · rename_i heq
      exact List.pairwise_cons.mpr ⟨heq ▸ hfirst, hrest⟩
    · refine List.pairwise_cons.mpr ⟨fun cell hc => ?_, ih hrest⟩
      rcases mem_setCell hc with rfl | hc
      · show first.1 < address
        omega
      · exact hfirst cell hc

/-- Each word that was written stands once, at the address of a word of the stack. -/
structure InStack (m : Memory) : Prop where
  rising : m.cells.Pairwise fun x y => x.1 < y.1
  aligned : ∀ cell ∈ m.cells, cell.1 % 8 = 0
  within : ∀ cell ∈ m.cells, stackTop - stackSize ≤ cell.1 ∧ cell.1 < stackTop

theorem inStack_empty : InStack empty := ⟨.nil, by simp [empty], by simp [empty]⟩

theorem addressFault?_none {address : Nat} (h : Action.addressFault? address = none) :
    address % 8 = 0 ∧ stackTop - stackSize ≤ address ∧ address < stackTop := by
  rw [Action.addressFault?] at h
  split at h
  · cases h
  split at h
  · cases h
  rename_i haligned hwithin
  simp only [wordBytes, stackTop, stackSize] at haligned hwithin ⊢
  omega

theorem InStack.set {m : Memory} {address : Nat} (hm : m.InStack)
    (h : Action.addressFault? address = none) (w : Word) : (m.set address w).InStack := by
  obtain ⟨haligned, hwithin⟩ := addressFault?_none h
  refine ⟨pairwise_setCell address w hm.rising, fun cell hc => ?_, fun cell hc => ?_⟩
  · rcases mem_setCell hc with rfl | hc
    · exact haligned
    · exact hm.aligned cell hc
  · rcases mem_setCell hc with rfl | hc
    · exact hwithin
    · exact hm.within cell hc

end Memory

/-! ### Labels -/

/-- Every label stands before an instruction or behind the last one. -/
def Listing.Labelled (l : Listing) : Prop :=
  ∀ label ∈ l.labels, 0 ≤ label.2 ∧ label.2 ≤ l.entries.size

theorem Labels.mem_set {labels : Labels} {name : String} {index : Int} {label : String × Int}
    (h : label ∈ labels.set name index) : label.2 = index ∨ label ∈ labels := by
  induction labels with
  | nil => exact .inl (by rw [List.mem_singleton.mp h])
  | cons first rest ih =>
    rw [Labels.set] at h
    grind

namespace Listing

theorem Labelled.add {l : Listing} (h : l.Labelled) (content : LineContent) (line : Nat) :
    (l.add content line).Labelled := by
  intro label hlabel
  cases content with
  | nothing => exact h label hlabel
  | label name =>
    rcases Labels.mem_set hlabel with hindex | hold
    · rw [hindex]
      exact ⟨Int.natCast_nonneg _, Int.le_refl _⟩
    · exact h label hold
  | instruction mnemonic operands =>
    obtain ⟨hnonneg, hle⟩ := h label hlabel
    refine ⟨hnonneg, Int.le_trans hle ?_⟩
    simp [Listing.add]

theorem Labelled.readFrom {l : Listing} (h : l.Labelled) (number : Nat) (lines : List (List Char)) :
    (l.readFrom number lines).Labelled := by
  induction lines generalizing l number with
  | nil => exact h
  | cons line lines ih => exact ih (h.add _ number) (number + 1)

theorem labelled_read (text : String) : (read text).Labelled :=
  Labelled.readFrom (by simp [Labelled, empty]) 1 _

theorem Labelled.find? {l : Listing} (h : l.Labelled) {name : String} {index : Int}
    (hfind : l.labels.find? name = some index) : 0 ≤ index ∧ index ≤ l.entries.size := by
  obtain ⟨before, after, hlabels, -⟩ := List.lookup_eq_some_iff.mp hfind
  exact h (name, index) (by simp [hlabels])

end Listing

/-! ### States -/

/-- What holds of every state of a machine whose program starts at an index and has so many
instructions. -/
structure State.InPlace (s : State) (main : Int) (size : Nat) : Prop where
  memory : s.memory.InStack
  ip : s.ip = main + s.steps
  ip_le : s.ip ≤ size

namespace State

variable {s : State} {main : Int} {size : Nat}

theorem entryAt?_lt {code : Array Entry} {index : Int} {e : Entry}
    (h : Action.entryAt? code index = some e) : index < code.size := by
  rw [Action.entryAt?] at h
  split at h
  · have := (Array.getElem?_eq_some_iff.mp h).1
    omega
  · cases h

/-- A step leads from states in place to states in place, also one that faults. -/
theorem InPlace.step {code : Array Entry} (h : s.InPlace main code.size) :
    (Action.endState (Action.step code s)).InPlace main code.size := by
  rw [Action.step]
  split
  · exact h
  split
  · exact h
  · rename_i e he
    have hlt := entryAt?_lt he
    have hcounters := Action.keeps_counters_execute e s.ticked
    obtain ⟨hip, hsteps⟩ := Prod.mk.inj hcounters
    have hmemory : (Action.endState (Action.execute e s.ticked)).memory.InStack :=
      Action.maintains_execute (fun _ _ w hf hm => hm.set hf w) e s.ticked h.memory
    have hplace := h.ip
    refine ⟨hmemory, ?_, ?_⟩
    · show (Action.endState (Action.execute e s.ticked)).ip =
        main + (Action.endState (Action.execute e s.ticked)).steps
      rw [hip, hsteps]
      simp only [ticked]
      omega
    · show (Action.endState (Action.execute e s.ticked)).ip ≤ code.size
      rw [hip]
      simp only [ticked]
      omega

end State

/-! ### Runs -/

namespace Machine

variable {code : Array Entry} {limit : Int} {observer : Option Observer}

/-- What every step keeps, a run keeps. -/
theorem runWithin_maintains {P : State → Prop} (hstep : Action.Maintains P (Action.step code))
    (n : Nat) {s : State} (hs : P s) (seen : List (Int × Entry)) :
    P (runWithin code limit observer n s seen).state := by
  induction n generalizing s seen with
  | zero =>
    unfold runWithin
    split
    · exact hs
    split
    · exact hs
    cases consult code observer s <;> exact hs
  | succ n ih =>
    unfold runWithin
    split
    · exact hs
    split
    · exact hs
    cases consult code observer s with
    | proceed shown =>
      have hnext := hstep s hs
      cases hr : Action.step code s with
      | ok _ s' =>
        rw [hr] at hnext
        exact ih hnext _
      | error f s' =>
        rw [hr] at hnext
        exact hnext
    | stop shown => exact hs
    | outOfRange => exact hs

theorem ip_of_step_ok {s s' : State} (hs : s.halted = false)
    (h : Action.step code s = .ok () s') : s'.ip = s.ip + 1 := by
  rw [Action.step, if_neg (by simp [hs])] at h
  split at h
  · cases h
  · exact (Action.counters_of_execute h).1

/-- What an observer is shown at a state is at most the instruction there. -/
theorem consult_shown {s : State} {shown : List (Int × Entry)}
    (h : consult code observer s = .proceed shown ∨ consult code observer s = .stop shown) :
    shown = [] ∨ ∃ e, shown = [(s.ip, e)] := by
  cases observer with
  | none =>
    obtain rfl : [] = shown := by simpa [consult, consultAt] using h
    exact .inl rfl
  | some f =>
    unfold consult consultAt at h
    grind

/-- Instructions shown before the one at an index, the latest first. -/
def ShownBefore (index : Int) (seen : List (Int × Entry)) : Prop :=
  seen.Pairwise (fun x y => y.1 < x.1) ∧ ∀ x ∈ seen, x.1 < index

theorem ShownBefore.append {index : Int} {seen shown : List (Int × Entry)}
    (h : ShownBefore index seen) (hs : shown = [] ∨ ∃ e, shown = [(index, e)]) :
    ShownBefore (index + 1) (shown ++ seen) := by
  obtain ⟨hpair, hlt⟩ := h
  rcases hs with rfl | ⟨e, rfl⟩
  · exact ⟨hpair, fun x hx => Int.lt_trans (hlt x hx) (Int.lt_succ index)⟩
  · refine ⟨List.pairwise_cons.mpr ⟨hlt, hpair⟩, fun x hx => ?_⟩
    rcases List.mem_cons.mp hx with rfl | hx
    · exact Int.lt_succ index
    · exact Int.lt_trans (hlt x hx) (Int.lt_succ index)

/-- A run shows its observer instructions in the order of the program, none of them twice. -/
theorem runWithin_shown (n : Nat) {s : State} {seen : List (Int × Entry)}
    (h : ShownBefore s.ip seen) :
    (runWithin code limit observer n s seen).shown.Pairwise fun x y => x.1 < y.1 := by
  have hsorted {index : Int} {seen : List (Int × Entry)} (h : ShownBefore index seen) :
      seen.reverse.Pairwise fun x y => x.1 < y.1 := List.pairwise_reverse.mpr h.1
  induction n generalizing s seen with
  | zero =>
    unfold runWithin
    split
    · exact hsorted h
    split
    · exact hsorted h
    cases hc : consult code observer s with
    | proceed shown => exact hsorted (h.append (consult_shown (.inl hc)))
    | stop shown => exact hsorted (h.append (consult_shown (.inr hc)))
    | outOfRange => exact hsorted h
  | succ n ih =>
    unfold runWithin
    split
    · exact hsorted h
    split
    · exact hsorted h
    rename_i hs _
    cases hc : consult code observer s with
    | proceed shown =>
      have hnext := h.append (consult_shown (.inl hc))
      cases hr : Action.step code s with
      | ok _ s' =>
        exact ih (by rwa [ip_of_step_ok (by simpa using hs) hr])
      | error f s' =>
        exact hsorted hnext
    | stop shown => exact hsorted (h.append (consult_shown (.inr hc)))
    | outOfRange => exact hsorted h

end Machine

/-! ### Calls -/

/-- What a machine can be asked to do. A run is given its limit of steps and its observer. -/
inductive Call where
  | step
  | run (limit : Int) (observer : Option Observer)
  | reset

namespace Machine

/-- The machine that a call leaves, well or not. -/
def after (m : Machine) : Call → Machine
  | .step => m.step.2
  | .run limit observer =>
    let m' := { m with stepLimit := limit }
    { m' with state := (m'.run observer).state }
  | .reset =>
    match m.reset with
    | .ok m' => m'
    | .error _ => m

/-- The machine is in place in the program it was given. -/
def Stable (l : Listing) (main : Int) (m : Machine) : Prop :=
  m.listing = l ∧ m.state.InPlace main l.entries.size

variable {l : Listing} {main : Int} {m : Machine}

theorem step_snd (m : Machine) :
    m.step.2 = { m with state := Action.endState (Action.step m.listing.entries m.state) } := by
  rw [step]
  cases Action.step m.listing.entries m.state <;> rfl

theorem exists_entryState_inPlace (hl : l.Labelled)
    (hmain : l.labels.find? entryLabel = some main) :
    ∃ s, entryState l = .ok s ∧ s.InPlace main l.entries.size := by
  refine ⟨_, by rw [entryState, hmain], ?_, ?_, (hl.find? hmain).2⟩
  · have htop : Action.addressFault? (BitVec.ofNat 64 stackTop - BitVec.ofNat 64 wordBytes).toNat =
        none := by decide
    exact Memory.inStack_empty.set htop sentinel
  · exact (Int.add_zero main).symm

theorem inPlace_run (h : m.state.InPlace main m.listing.entries.size)
    (observer : Option Observer) :
    (m.run observer).state.InPlace main m.listing.entries.size := by
  have hstep : Action.Maintains (fun s => s.InPlace main m.listing.entries.size)
      (Action.step m.listing.entries) := fun _ h => h.step
  exact runWithin_maintains hstep _ h []

/-- A call leaves the machine in place, wherever it starts. -/
theorem Stable.after (hl : l.Labelled) (hmain : l.labels.find? entryLabel = some main)
    (h : m.Stable l main) (call : Call) : (m.after call).Stable l main := by
  obtain ⟨rfl, hs⟩ := h
  cases call with
  | step =>
    rw [Machine.after, step_snd]
    exact ⟨rfl, hs.step⟩
  | run limit observer => exact ⟨rfl, inPlace_run (m := { m with stepLimit := limit }) hs observer⟩
  | reset =>
    obtain ⟨s, hstart, hs'⟩ := exists_entryState_inPlace hl hmain
    rw [Machine.after, reset, hstart]
    exact ⟨rfl, hs'⟩

theorem Stable.afterAll (hl : l.Labelled) (hmain : l.labels.find? entryLabel = some main)
    (h : m.Stable l main) (calls : List Call) : (calls.foldl Machine.after m).Stable l main := by
  induction calls generalizing m with
  | nil => exact h
  | cons call calls ih => exact ih (h.after hl hmain call)

end Machine

end WordLang
