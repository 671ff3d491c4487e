import WordLang.Proofs.Correctness

/-! The frame of a compiled program while it runs: what the caller left on the stack is never
written over, operands stay clear of the variables, and between statements there are none. -/
namespace WordLang

open WordLang.Action (entryAt? target?)
open Instruction (push)

/-! ### Confined walks -/

theorem target?_ticked (e : Entry) (s : State) : target? e s.ticked = target? e s := by
  simp only [target?, State.get_ticked]
  rfl

/-- A confined walk leaves the words above the variables as they are. -/
theorem Walks.get?_eq {t : SlotTable} {es : List Entry} {s u : State}
    (h : Walks (Confined t) es s u) {a : Nat} (ha : framePointer ≤ a) :
    u.memory.get? a = s.memory.get? a := by
  induction h with
  | nil s => rfl
  | @cons e es s u v hs hc he _ ih =>
    have hmemory := Action.memory_execute he
    rw [target?_ticked] at hmemory
    rw [ih]
    cases hw : target? e s with
    | none =>
      rw [hw] at hmemory
      rw [hmemory]
      rfl
    | some address =>
      rw [hw] at hmemory
      obtain ⟨w, hmemory⟩ := hmemory
      have hlt := (hc address hw).1
      rw [hmemory, Memory.get?_set_ne _ (by omega)]
      rfl

/-- What belongs to the frame at a state after a number of steps, and what the next instruction
leaves alone: the return address, the saved frame pointer once it is there, and for a push the
variables. -/
structure Compilation.Intact (c : Compilation) (code : Array Entry) (n : Nat) (s : State) :
    Prop where
  returns : s.memory.get? (stackTop - 8) = some sentinel
  saved : 0 < n → s.memory.get? (stackTop - 16) = some 0
  writes : s.halted = false → ∀ e a, entryAt? code s.ip = some e → target? e s = some a →
    a ≠ stackTop - 8 ∧ (0 < n → a ≠ stackTop - 16) ∧
      (Mnemonic.ofName? e.mnemonic = some .push →
        ∀ slot ∈ c.slots.slots, a ≠ stackTop - 16 - slot.offset)

section Integrity

variable {c : Compilation} {comments : Bool} {limit : Int} {m : Machine} {e : Entry}
  {reached rest : List Entry} {s s' : State}

theorem Confined.writes (hl : c.slots.LaidOut) {e : Entry} {s : State} {a : Nat}
    (h : Confined c.slots e s) (ha : target? e s = some a) :
    a ≠ stackTop - 8 ∧ a ≠ stackTop - 16 ∧ (Mnemonic.ofName? e.mnemonic = some .push →
      ∀ slot ∈ c.slots.slots, a ≠ stackTop - 16 - slot.offset) := by
  obtain ⟨hlt, hpush⟩ := h a ha
  have hframe : framePointer = stackTop - 16 ∧ 16 ≤ stackTop := by decide
  refine ⟨by omega, by omega, fun hp slot hs => ?_⟩
  have hbase := hpush hp
  have hle := hl.le_frameSize slot hs
  unfold SlotTable.base at hbase
  omega

/-- Before the first instruction. -/
theorem Compilation.Passage.intact_zero (hp : c.Passage m e reached rest s)
    (hm : c.Loaded limit m) (hl : c.slots.LaidOut) :
    c.Intact m.listing.entries 0 m.state where
  returns := by
    rw [hm.entered.memory]
    exact Memory.get?_set_self _ _ _
  saved := nofun
  writes _ e' a he ha := by
    have hspells := hp.walk.next hp.entries_first hm.ip (by simp) he
    have hpush : some (m.state.rsp - BitVec.ofNat 64 wordBytes).toNat = some a :=
      (hspells.target?_eq m.state).symm.trans ha
    rw [hm.entered.toNat_sub_word] at hpush
    obtain rfl := Option.some.inj hpush
    have hframe : framePointer = stackTop - 16 ∧ 16 < stackTop := by decide
    refine ⟨by omega, nofun, fun _ slot hs => ?_⟩
    have := hl.pos slot hs
    omega

/-- After the first instruction, on the way to the end. -/
theorem Compilation.Passage.intact_succ (hp : c.Passage m e reached rest s)
    (hm : c.Loaded limit m) (hl : c.slots.LaidOut) {before after : List Entry} {u : State}
    (hreached : reached = before ++ after) (hbefore : Walks (Confined c.slots) before s u)
    (hafter : Walks (Confined c.slots) after u s') (hs' : s'.halted = true) (n : Nat) :
    c.Intact m.listing.entries (n + 1) u where
  returns := (hbefore.get?_eq (by decide)).trans hp.linked.returns
  saved _ := (hbefore.get?_eq (by decide)).trans hp.linked.saved
  writes hrunning e' a he ha := by
    have hne : after ≠ [] := by
      rintro rfl
      cases hafter
      rw [hs'] at hrunning
      cases hrunning
    have hentries : m.listing.entries.toList = ([e] ++ before) ++ after ++ rest := by
      rw [hp.entries, hreached, List.append_assoc, List.append_assoc, List.append_assoc,
        List.append_assoc]
    have hip : u.ip = ([e] ++ before).length := by
      rw [hbefore.counters.1, (hp.counters hm).1, List.length_append, List.length_singleton]
      omega
    obtain ⟨hreturn, hsaved, hpush⟩ := Confined.writes hl (hafter.next hentries hip hne he) ha
    exact ⟨hreturn, fun _ => hsaved, hpush⟩

theorem Compilation.Passage.stepMany_succ (hp : c.Passage m e reached rest s)
    (hm : c.Loaded limit m) (n : Nat) :
    m.stepMany (n + 1) = Machine.stepMany { m with state := s } n := by
  have hfirst : m.stepMany 1 = (.ok (), { m with state := s }) :=
    hp.walk.stepMany_eq hp.entries_first hm.ip
  rw [Nat.add_comm, Machine.stepMany_add hfirst]

/-- A program that returns is intact after every number of steps. -/
theorem Compilation.Passage.exists_intact (hp : c.Passage m e reached rest s)
    (hm : c.Loaded limit m) (hl : c.slots.LaidOut)
    (hreached : Walks (Confined c.slots) reached s s') (hs' : s'.halted = true) (n : Nat) :
    ∃ m', m.stepMany n = (.ok (), m') ∧ c.Intact m.listing.entries n m'.state := by
  cases n with
  | zero => exact ⟨m, rfl, hp.intact_zero hm hl⟩
  | succ n =>
    rw [hp.stepMany_succ hm]
    by_cases hn : n ≤ reached.length
    · obtain ⟨u, hu, hbefore, hafter⟩ :=
        Walks.exists_stepMany (m := { m with state := s }) hreached hp.entries (hp.counters hm).1 hn
      refine ⟨_, hu, ?_⟩
      exact hp.intact_succ hm hl (List.take_append_drop n reached).symm hbefore hafter hs' n
    · have hend := Walks.stepMany_eq (m := { m with state := s }) hreached hp.entries
        (hp.counters hm).1
      obtain ⟨j, rfl⟩ : ∃ j, n = reached.length + j := ⟨n - reached.length, by omega⟩
      rw [Machine.stepMany_add hend, Machine.stepMany_of_halted hs']
      refine ⟨_, rfl, ?_⟩
      exact hp.intact_succ hm hl (List.append_nil reached).symm hreached (.nil s') hs' _

/-- The code of statements before the first result leads to a state without operands. -/
theorem Compilation.Passage.exists_boundary (hp : c.Passage m e reached rest s)
    (hm : c.Loaded limit m) (h : c.WellFormed comments)
    (hroom : c.slots.Room c.program.depth) {r : Int × Env} (hr : c.program.evaluate = .ok r)
    {before after : List Node} (hsplit : c.program.statements = before ++ after)
    (hbefore : ∀ n ∈ before, n.isResult = false) :
    ∃ body more m', statementLines comments 1 before = .ok body ∧
      instructionsOf c.lines = prologue c.frameSize ++ instructionsOf body ++ more ∧
      m.stepMany (prologue c.frameSize ++ instructionsOf body).length = (.ok (), m') ∧
      m'.state.halted = false ∧ m'.state.rsp.toNat = stackTop - 16 - c.frameSize := by
  obtain ⟨body, more, hbody, hcode⟩ := instructionsOf_assembly_append h.generated hsplit
  rw [Program.evaluate, hsplit, evalStatements_append hbefore] at hr
  obtain ⟨r₁, hr₁, -⟩ := bind_eq_ok.mp hr
  have hmem : ∀ n ∈ before, n ∈ c.program.statements := fun n hn => by simp [hsplit, hn]
  have hperforms := hp.linked.performs_statements h.laidOut
    (fun n hn => (h.statements n (hmem n hn)).expression_of (hbefore n hn))
    (hroom.mono (Nat.zero_le _)) (fun n hn => hroom.mono (Program.depth_le (hmem n hn))) hbody
  generalize hreach : (prologue c.slots.frameSize).tail ++ instructionsOf body = code at hperforms
  have hspells : List.Forall₂ Entry.Spells (reached ++ rest) (code ++ more) := by
    have hall := hm.spells
    rw [hp.entries_first, List.nil_append, hcode] at hall
    rw [← hreach]
    exact (List.forall₂_cons.mp hall).2
  have hfirst := List.forall₂_take_append _ _ _ hspells
  have hgo := hperforms _ hfirst
  rw [hr₁] at hgo
  obtain ⟨u, hwalk, hsettled⟩ := hgo
  have hentries : m.listing.entries.toList =
      [e] ++ (reached ++ rest).take code.length ++ (reached ++ rest).drop code.length := by
    rw [hp.entries_first, List.nil_append, List.append_assoc [e], List.take_append_drop]
  have hsteps := Walks.stepMany_eq (m := { m with state := s }) hwalk hentries (hp.counters hm).1
  rw [hfirst.length_eq, ← hreach] at hsteps
  refine ⟨body, more, { m with state := u }, hbody, hcode, ?_, hsettled.frame.running, ?_⟩
  · exact (hp.stepMany_succ hm _).trans hsteps
  · rw [hsettled.frame.rsp]
    rfl

end Integrity

/-- A compiled program that returns leaves the stack as it found it and its variables in their
slots. On the way nothing is written over the return address, over the saved frame pointer once it
is there, or by a push over a variable; and up to the first result there are no operands between
statements. -/
theorem frame_integrity (o : Options) (s : Source) {c : Compilation}
    (hc : (o.compile s).outcome = .ok c) (hw : 8 ∣ o.wordSize)
    (hroom : 16 + c.frameSize + 8 * c.program.depth ≤ 2 ^ 20) (limit : Int)
    (hlimit : (instructionsOf c.lines).length ≤ limit) {run : Run}
    (hrun : runAssembly c.assembly limit = .ok run) {v : Int}
    (hv : run.outcome = .ok (some v)) :
    (run.state.halted = true ∧ run.state.rsp.toNat = stackTop ∧ run.state.rbp = 0) ∧
    (∃ env, c.program.evaluate = .ok (v, env) ∧ ∀ slot ∈ c.slots.slots,
      ((run.state.memory.get (stackTop - 16 - slot.offset)).toNat : Int) =
        env slot.name % 2 ^ 64) ∧
    ∃ m, Machine.load (.read c.assembly) limit = .ok m ∧ m.run none = run ∧
      (∀ n, ∃ m', m.stepMany n = (.ok (), m') ∧ c.Intact m.listing.entries n m'.state) ∧
      (∃ n, m.stepMany n = (.ok (), { m with state := run.state })) ∧
      ∀ before after, c.program.statements = before ++ after →
        (∀ n ∈ before, n.isResult = false) →
        ∃ body more m', statementLines o.comments 1 before = .ok body ∧
          instructionsOf c.lines = prologue c.frameSize ++ instructionsOf body ++ more ∧
          m.stepMany (prologue c.frameSize ++ instructionsOf body).length = (.ok (), m') ∧
          m'.state.halted = false ∧ m'.state.rsp.toNat = stackTop - 16 - c.frameSize := by
  have h := Options.compile_wellFormed hc hw
  obtain ⟨m, hm⟩ := h.exists_loaded limit
  obtain ⟨e, reached, rest, s₁, hp⟩ := h.exists_passage hm hroom
  rw [runAssembly, hm.load] at hrun
  obtain rfl : m.run none = run := Except.ok.inj hrun
  cases hevaluate : c.program.evaluate with
  | error trap =>
    obtain ⟨f, -, hf⟩ := hp.faults trap hevaluate
    rw [hp.outcome_of_faults hm hlimit hf] at hv
    cases hv
  | ok r =>
    obtain ⟨s', hreached, hreturned⟩ := hp.returns r hevaluate
    have hresult := hp.run_of_returned hm hlimit hevaluate hreached hreturned
    rw [hresult] at hv ⊢
    cases hv
    refine ⟨⟨hreturned.halted, hreturned.rsp, hreturned.rbp⟩, ⟨r.2, rfl, fun slot hs => ?_⟩,
      m, hm.load, hresult, ?_, ⟨reached.length + 1, ?_⟩, fun before after hsplit hbefore => ?_⟩
    · rw [← Word.toNat_ofInt, ← hreturned.slots slot hs]
      rfl
    · exact hp.exists_intact hm h.laidOut hreached hreturned.halted
    · rw [hp.stepMany_succ hm]
      exact Walks.stepMany_eq (m := { m with state := s₁ }) hreached hp.entries (hp.counters hm).1
    · exact hp.exists_boundary hm h hroom hevaluate hsplit hbefore

/-- An assignment inside an operand, and a result before the last statement. -/
theorem frame_integrity_nested_assignment :
    let s : Source := ⟨none, "a = 7; b = (a = a - 10) * 3; return b + a; a"⟩
    ∃ c run, (Options.compile {} s).outcome = .ok c ∧ runAssembly c.assembly 80 = .ok run ∧
      c.slots.slots = [⟨"a", 8⟩, ⟨"b", 16⟩] ∧ run.state.rsp.toNat = stackTop ∧
      ((run.state.memory.get (stackTop - 24)).toNat : Int) = -3 % 2 ^ 64 ∧
      ((run.state.memory.get (stackTop - 32)).toNat : Int) = -9 % 2 ^ 64 := by
  intro s
  have htest : (Options.compile {} s).outcome.toOption.any (fun c =>
      decide (16 + c.frameSize + 8 * c.program.depth ≤ 2 ^ 20) &&
      decide ((instructionsOf c.lines).length ≤ (80 : Int)) &&
      decide (c.slots.slots = [⟨"a", 8⟩, ⟨"b", 16⟩]) &&
      decide (c.program.evaluate.map (fun r => (r.2 "a", r.2 "b")) = .ok (-3, -9))) = true := by
    decide +kernel
  obtain ⟨c, hc, htest⟩ := exists_of_any_toOption htest
  simp only [Bool.and_eq_true, decide_eq_true_eq] at htest
  obtain ⟨⟨⟨hroom, hlimit⟩, hslots⟩, hvalues⟩ := htest
  cases hevaluate : c.program.evaluate with
  | error trap =>
    rw [hevaluate] at hvalues
    cases hvalues
  | ok r =>
    obtain ⟨run, hrun, hv⟩ := (Options.compile_wellFormed hc (by decide)).runAssembly_of_ok hroom
      hlimit hevaluate
    obtain ⟨⟨-, hrsp, -⟩, ⟨env, henv, hmemory⟩, -⟩ :=
      frame_integrity {} s hc (by decide) hroom 80 hlimit hrun hv
    rw [henv] at hvalues
    obtain ⟨ha, hb⟩ := Prod.mk.inj (Except.ok.inj hvalues)
    refine ⟨c, run, hc, hrun, hslots, hrsp, ?_, ?_⟩
    · rw [← ha]
      exact hmemory ⟨"a", 8⟩ (by simp [hslots])
    · rw [← hb]
      exact hmemory ⟨"b", 16⟩ (by simp [hslots])

end WordLang
