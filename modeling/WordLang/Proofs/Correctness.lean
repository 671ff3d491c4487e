import WordLang.Machine
import WordLang.Proofs.Compilation

/-! Compiled programs from end to end: their text is read back and run, and the run goes as the
evaluation does. -/
namespace WordLang

open Instruction (push)

/-! ### Loading -/

/-- A machine at the start of the code of a compilation. -/
structure Compilation.Loaded (c : Compilation) (limit : Int) (m : Machine) : Prop where
  load : Machine.load (.read c.assembly) limit = .ok m
  limit : m.stepLimit = limit
  spells : List.Forall₂ Entry.Spells m.listing.entries.toList (instructionsOf c.lines)
  ip : m.state.ip = 0
  steps : m.state.steps = 0
  entered : Entered m.state

theorem exists_entryState {l : Listing} (h : l.labels.find? Machine.entryLabel = some 0) :
    ∃ s, Machine.entryState l = .ok s ∧ s.ip = 0 ∧ s.steps = 0 ∧ Entered s := by
  have htop : (BitVec.ofNat 64 stackTop - BitVec.ofNat 64 wordBytes).toNat =
      framePointer + wordBytes := by decide
  refine ⟨_, by rw [Machine.entryState, h], rfl, rfl, rfl, htop, rfl, rfl, ?_⟩
  exact congrArg (Memory.empty.set · sentinel) htop

namespace Compilation.WellFormed

variable {c : Compilation} {comments : Bool} (h : c.WellFormed comments)
include h

theorem exists_loaded (limit : Int) : ∃ m, c.Loaded limit m := by
  obtain ⟨entries, hread, hspells⟩ := h.exists_entries
  have hmain : (Listing.read c.assembly).labels.find? Machine.entryLabel = some 0 := by
    rw [hread]
    rfl
  obtain ⟨s, hs, hip, hsteps, hentered⟩ := exists_entryState hmain
  refine ⟨⟨.read c.assembly, limit, s⟩, ?_, rfl, ?_, hip, hsteps, hentered⟩
  · rw [Machine.load, hs]
    rfl
  · show List.Forall₂ _ (Listing.read c.assembly).entries.toList _
    rw [hread]
    exact hspells

end Compilation.WellFormed

/-! ### Running -/

section Running

variable {c : Compilation} {comments : Bool} {limit : Int} {m : Machine}

/-- How the code of a compilation is passed: an instruction that saves the frame pointer, those that
are reached after it, and the rest. -/
structure Compilation.Passage (c : Compilation) (m : Machine) (e : Entry)
    (reached rest : List Entry) (s : State) : Prop where
  entries : m.listing.entries.toList = [e] ++ reached ++ rest
  walk : Walks (fun e _ => e.Spells (push .rbp)) [e] m.state s
  linked : Linked s
  returns : ∀ r, c.program.evaluate = .ok r →
    ∃ s', Walks (Confined c.slots) reached s s' ∧ Returned c.slots r.2 r.1 s'
  faults : ∀ trap, c.program.evaluate = .error trap →
    ∃ f, trap.cause? = some f.cause ∧ Faults (Confined c.slots) reached s f

theorem Compilation.WellFormed.exists_passage (h : c.WellFormed comments)
    (hm : c.Loaded limit m) (hroom : c.slots.Room c.program.depth) :
    ∃ e reached rest s, c.Passage m e reached rest s := by
  obtain ⟨reached, rest, hcode, hperforms⟩ :=
    Program.exists_performs h.laidOut h.statements hroom h.generated
  have hspells := hm.spells
  rw [hcode] at hspells
  obtain ⟨e, es, he, hes, hentries⟩ := List.forall₂_cons_right_iff.mp hspells
  obtain ⟨s, hx, hlinked⟩ := hm.entered.execute_push he
  have hgo := hperforms s hlinked _ (List.forall₂_take_append _ _ _ hes)
  refine ⟨e, es.take reached.length, es.drop reached.length, s, ?_,
    .cons hm.entered.running he hx (.nil s), hlinked, fun r hr => ?_, fun trap hr => ?_⟩
  · rw [List.append_assoc, List.take_append_drop, hentries]
    rfl
  · rw [hr] at hgo
    exact hgo
  · rw [hr] at hgo
    exact hgo

theorem runWithin_of_halted {code : Array Entry} {s : State} (h : s.halted = true) (n : Nat) :
    Machine.runWithin code limit none n s [] = ⟨.ok (some s.result), s, []⟩ := by
  unfold Machine.runWithin
  rw [if_pos h]
  rfl

section Passage

variable {e : Entry} {reached rest : List Entry} {s : State} (hp : c.Passage m e reached rest s)
include hp

theorem Compilation.Passage.entries_first :
    m.listing.entries.toList = [] ++ [e] ++ (reached ++ rest) := by
  rw [hp.entries, List.nil_append, List.append_assoc]

variable (hm : c.Loaded limit m)
include hm

theorem Compilation.Passage.counters : s.ip = 1 ∧ s.steps = 1 := by
  obtain ⟨hip, hsteps⟩ := hp.walk.counters
  rw [hm.ip] at hip
  rw [hm.steps] at hsteps
  exact ⟨hip, hsteps⟩

variable (hlimit : (instructionsOf c.lines).length ≤ limit)
include hlimit

theorem Compilation.Passage.bound : ((s.steps + reached.length : Nat) : Int) ≤ limit := by
  have hcount := hm.spells.length_eq
  rw [hp.entries, List.length_append, List.length_append, List.length_singleton] at hcount
  have := (hp.counters hm).2
  omega

theorem Compilation.Passage.run_eq :
    m.run none = Machine.runWithin m.listing.entries limit none (rest.length + reached.length) s
      [] := by
  have hsize : ((m.listing.entries.size : Int) - m.state.ip).toNat =
      rest.length + reached.length + [e].length := by
    rw [← Array.length_toList, hp.entries, hm.ip, List.length_append, List.length_append,
      List.length_singleton]
    omega
  rw [Machine.run, hsize, hm.limit]
  refine hp.walk.runWithin_eq hp.entries_first hm.ip ?_ _ _
  have := hp.bound hm hlimit
  have := (hp.counters hm).2
  rw [hm.steps, List.length_singleton]
  omega

theorem Compilation.Passage.run_of_returned {r : Int × Env} (hr : c.program.evaluate = .ok r)
    {s' : State} (hreached : Walks (Confined c.slots) reached s s')
    (hreturned : Returned c.slots r.2 r.1 s') : m.run none = ⟨.ok (some r.1), s', []⟩ := by
  have hzero : IsSigned 0 := rfl
  have hresult : s'.result = r.1 := by
    rw [State.result, hreturned.rax]
    exact (evalStatements_isSigned hzero (fun _ => hzero) hr).1.toInt_ofInt
  rw [hp.run_eq hm hlimit, hreached.runWithin_eq hp.entries (hp.counters hm).1
    (hp.bound hm hlimit), runWithin_of_halted hreturned.halted, hresult]

theorem Compilation.Passage.outcome_of_faults {f : Fault}
    (hf : Faults (Confined c.slots) reached s f) : (m.run none).outcome = .error (.fault f) := by
  rw [hp.run_eq hm hlimit]
  exact hf.runWithin_outcome hp.entries (hp.counters hm).1 (hp.bound hm hlimit) _ _

end Passage

namespace Compilation.WellFormed

variable (h : c.WellFormed comments) (hroom : c.slots.Room c.program.depth)
  (hlimit : (instructionsOf c.lines).length ≤ limit)
include h hroom hlimit

theorem runAssembly_of_ok {r : Int × Env} (hr : c.program.evaluate = .ok r) :
    ∃ run, runAssembly c.assembly limit = .ok run ∧ run.outcome = .ok (some r.1) := by
  obtain ⟨m, hm⟩ := h.exists_loaded limit
  obtain ⟨e, reached, rest, s, hp⟩ := h.exists_passage hm hroom
  obtain ⟨s', hreached, hreturned⟩ := hp.returns r hr
  refine ⟨m.run none, by rw [runAssembly, hm.load]; rfl, ?_⟩
  rw [hp.run_of_returned hm hlimit hr hreached hreturned]

theorem runAssembly_of_error {trap : Trap} (hr : c.program.evaluate = .error trap) :
    ∃ run f, runAssembly c.assembly limit = .ok run ∧ trap.cause? = some f.cause ∧
      run.outcome = .error (.fault f) := by
  obtain ⟨m, hm⟩ := h.exists_loaded limit
  obtain ⟨e, reached, rest, s, hp⟩ := h.exists_passage hm hroom
  obtain ⟨f, hcause, hf⟩ := hp.faults trap hr
  exact ⟨m.run none, f, by rw [runAssembly, hm.load]; rfl, hcause,
    hp.outcome_of_faults hm hlimit hf⟩

end Compilation.WellFormed

end Running

/-- A compiled program, read back from its text and run with enough steps on a stack that is large
enough, ends as its evaluation does: with its value, or with the fault for the division that traps
it. -/
theorem runAssembly_eq_evaluate (o : Options) (s : Source) {c : Compilation}
    (hc : (o.compile s).outcome = .ok c) (hw : 8 ∣ o.wordSize)
    (hroom : 16 + c.frameSize + 8 * c.program.depth ≤ 2 ^ 20) (limit : Int)
    (hlimit : (instructionsOf c.lines).length ≤ limit) :
    ∃ run, runAssembly c.assembly limit = .ok run ∧
      match c.program.evaluate with
      | .ok (v, _) => run.outcome = .ok (some v)
      | .error .divisionByZero => ∃ line, run.outcome = .error (.fault ⟨.divisionByZero, line⟩)
      | .error .divisionOverflow => ∃ line, run.outcome = .error (.fault ⟨.divisionOverflow, line⟩)
      | .error .meaningless => False := by
  have h := Options.compile_wellFormed hc hw
  cases hevaluate : c.program.evaluate with
  | ok r => exact h.runAssembly_of_ok hroom hlimit hevaluate
  | error trap =>
    obtain ⟨run, ⟨cause, line⟩, hrun, hcause, hf⟩ := h.runAssembly_of_error hroom hlimit hevaluate
    refine ⟨run, hrun, ?_⟩
    cases trap with
    | divisionByZero =>
      cases hcause
      exact ⟨line, hf⟩
    | divisionOverflow =>
      cases hcause
      exact ⟨line, hf⟩
    | meaningless => cases hcause

/-- The least value divided by minus one, in a statement behind which there is more. -/
theorem runAssembly_division_overflow :
    let s : Source := ⟨none, "a = 9223372036854775807 + 1; return a / -1; a"⟩
    ∃ c run line, (Options.compile {} s).outcome = .ok c ∧
      runAssembly c.assembly 60 = .ok run ∧
      run.outcome = .error (.fault ⟨.divisionOverflow, line⟩) := by
  intro s
  have htest : (Options.compile {} s).outcome.toOption.any (fun c =>
      decide (16 + c.frameSize + 8 * c.program.depth ≤ 2 ^ 20) &&
      decide ((instructionsOf c.lines).length ≤ (60 : Int)) &&
      decide (c.program.evaluate.map Prod.fst = .error .divisionOverflow)) = true := by
    decide +kernel
  obtain ⟨c, hc, htest⟩ := exists_of_any_toOption htest
  simp only [Bool.and_eq_true, decide_eq_true_eq] at htest
  obtain ⟨⟨hroom, hlimit⟩, hvalue⟩ := htest
  obtain ⟨run, hrun, hend⟩ := runAssembly_eq_evaluate {} s hc (by decide) hroom 60 hlimit
  cases hevaluate : c.program.evaluate with
  | ok r =>
    rw [hevaluate] at hvalue
    cases hvalue
  | error trap =>
    rw [hevaluate] at hvalue hend
    cases hvalue
    obtain ⟨line, hline⟩ := hend
    exact ⟨c, run, line, hc, hrun, hline⟩

end WordLang
