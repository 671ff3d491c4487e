import WordLang.Proofs.Simulation

/-! From expressions to whole programs: statements leave the frame as they found it, the prologue
builds it and the epilogue takes it down. -/
namespace WordLang

open Instruction (push pop move binary)

/-- A program has returned a value, with its variables left in their slots. -/
structure Returned (t : SlotTable) (env : Env) (v : Int) (s : State) : Prop where
  halted : s.halted = true
  rax : s.rax = Word.ofInt v
  rsp : s.rsp.toNat = stackTop
  rbp : s.rbp = 0
  slots : ∀ slot ∈ t.slots, s.memory.get slot.address = Word.ofInt (env slot.name)
  saved : s.memory.get? framePointer = some 0
  returns : s.memory.get? (framePointer + wordBytes) = some sentinel

/-- Between statements there are no operands, and a register holds the latest value. -/
structure Settled (t : SlotTable) (env : Env) (v : Int) (s : State) : Prop where
  frame : Represents t env [] s
  signed : ∀ x, IsSigned (env x)
  rax : s.rax = Word.ofInt v

variable {t : SlotTable} {env : Env} {s : State} {v : Int} {n : Node} {code : List Instruction}

theorem Expression.isResult_eq (hn : Expression t n) : n.isResult = false := by
  cases hn <;> rfl

/-- A statement that is no result: its code comes back to the empty operand stack. -/
theorem Expression.performs_statement (hn : Expression t n) (ht : t.LaidOut)
    (hc : n.statementCode = .ok code) (h : Settled t env v s) (hr : t.Room n.depth) :
    Performs t code s (n.eval env) fun r s' => Settled t r.2 r.1 s' := by
  obtain ⟨c, hcode⟩ := hn.exists_code
  rw [Node.statementCode, hcode] at hc
  simp only [hn.isResult_eq, Bool.false_eq_true, ↓reduceIte, Except.ok.injEq] at hc
  subst hc
  rw [← bind_pure (n.eval env)]
  refine (hn.performs ht hcode h.frame h.signed (by simpa using hr)).bind ?_
  rintro ⟨w, env₁⟩ s₁ hw h₁
  refine h₁.performs_pop (.nil ⟨?_, ?_, rfl⟩)
  · exact h₁.ticked.popped.set _ (by decide) (by decide)
  · exact (Node.eval_isSigned h.signed hw).2

/-- What a pop finds, and where it leaves the stack pointer. -/
theorem State.pop_at {a : Nat} {w : Word} (hp : s.rsp.toNat = a)
    (hm : s.memory.get? a = some w) (ha : a + wordBytes < 2 ^ 64) :
    s.ticked.top = w ∧ s.ticked.popped.rsp.toNat = a + wordBytes := by
  constructor
  · rw [State.top, State.ticked, hp, Memory.get, hm]
    rfl
  · rw [State.popped, State.ticked, BitVec.toNat_add, hp, BitVec.toNat_ofNat]
    have hw : wordBytes = 8 := rfl
    omega

theorem performs_ret (hs : s.halted = false) (hp : s.rsp.toNat = framePointer + wordBytes)
    (hm : s.memory.get? (framePointer + wordBytes) = some sentinel) :
    Performs t [⟨.ret, []⟩] s (.ok ()) fun _ s' =>
      s'.halted = true ∧ s'.rsp.toNat = stackTop ∧ s'.rbp = s.rbp ∧ s'.rax = s.rax ∧
        s'.memory = s.memory := by
  have ha : Action.addressFault? s.ticked.rsp.toNat = none := by
    rw [State.ticked, hp]
    decide
  obtain ⟨htop, hup⟩ := State.pop_at hp hm (by decide)
  exact Performs.cons_quiet hs rfl (fun e he => Action.execute_ret he ha htop)
    (.nil ⟨rfl, hup, rfl, rfl, rfl⟩)

theorem performs_popFrame (hs : s.halted = false) (hp : s.rsp.toNat = framePointer)
    (hm : s.memory.get? framePointer = some 0) :
    Performs t [pop .rbp] s (.ok ()) fun _ s' =>
      s'.halted = false ∧ s'.rsp.toNat = framePointer + wordBytes ∧ s'.rbp = 0 ∧
        s'.rax = s.rax ∧ s'.memory = s.memory := by
  have ha : Action.addressFault? s.ticked.rsp.toNat = none := by
    rw [State.ticked, hp]
    decide
  obtain ⟨htop, hup⟩ := State.pop_at hp hm (by decide)
  exact Performs.cons_quiet hs rfl (fun e he => Action.execute_pop he ha htop)
    (.nil ⟨hs, hup, rfl, rfl, rfl⟩)

/-- The epilogue returns the latest value. -/
theorem Represents.performs_epilogue {ops : List Word} (h : Represents t env ops s)
    (hax : s.rax = Word.ofInt v) :
    Performs t epilogue s (.ok (v, env)) fun r s' => Returned t r.2 r.1 s' := by
  have hs : (s.ticked.set s.rbp .rsp).halted = false := h.running
  have hp : (s.ticked.set s.rbp .rsp).rsp.toNat = framePointer := h.rbp
  refine Performs.cons_quiet h.running rfl (fun e he => Action.execute_mov he
    (Action.readOperand_register e .rbp _)) ?_
  refine (performs_popFrame hs hp h.saved).followed ?_
  rintro s₁ ⟨hs₁, hp₁, hb₁, ha₁, hm₁⟩
  refine (performs_ret hs₁ hp₁ (hm₁ ▸ h.returns)).imp ?_
  rintro s₂ ⟨hs₂, hp₂, hb₂, ha₂, hm₂⟩
  have hm : s₂.memory = s.memory := hm₂.trans hm₁
  refine ⟨hs₂, (ha₂.trans ha₁).trans hax, hp₂, hb₂.trans hb₁, ?_, ?_, ?_⟩
  · rw [hm]
    exact h.slots
  · rw [hm]
    exact h.saved
  · rw [hm]
    exact h.returns

theorem Expression.performs_result {value : Node} {l : Option Location} (hv : Expression t value)
    (ht : t.LaidOut) (hc : (Node.result value l).statementCode = .ok code)
    (h : Settled t env v s) (hr : t.Room value.depth) :
    Performs t code s (value.eval env) fun r s' => Returned t r.2 r.1 s' := by
  obtain ⟨c, hcode⟩ := hv.exists_code
  rw [Node.statementCode, Node.code, hcode] at hc
  cases hc
  rw [← bind_pure (value.eval env), List.append_assoc]
  refine (hv.performs ht hcode h.frame h.signed (by simpa using hr)).bind ?_
  rintro ⟨w, env₁⟩ s₁ - h₁
  refine h₁.performs_pop ?_
  exact (h₁.ticked.popped.set _ (show Register.rax ≠ .rbp by decide)
    (by decide)).performs_epilogue rfl

/-! ### Statements -/

theorem statementLines_cons {comments : Bool} {k : Nat} {ns : List Node}
    {lines : List AssemblyLine} (h : statementLines comments k (n :: ns) = .ok lines) :
    ∃ code more, n.statementCode = .ok code ∧ statementLines comments (k + 1) ns = .ok more ∧
      instructionsOf lines = code ++ instructionsOf more := by
  rw [statementLines] at h
  split at h
  · cases h
  rename_i code hcode
  split at h
  · cases h
  rename_i more hmore
  cases h
  refine ⟨code, more, hcode, hmore, ?_⟩
  rw [instructionsOf_append, instructionsOf_append, instructionsOf_map]
  cases comments <;> rfl

theorem statementLines_append {comments : Bool} {k : Nat} {ns ms : List Node}
    {lines : List AssemblyLine} (h : statementLines comments k (ns ++ ms) = .ok lines) :
    ∃ first second, statementLines comments k ns = .ok first ∧
      statementLines comments (k + ns.length) ms = .ok second ∧
      instructionsOf lines = instructionsOf first ++ instructionsOf second := by
  induction ns generalizing k lines with
  | nil => exact ⟨[], lines, rfl, h, rfl⟩
  | cons n ns ih =>
    obtain ⟨code, more, hcode, hmore, hlines⟩ := statementLines_cons h
    obtain ⟨first, second, hfirst, hsecond, hmore⟩ := ih hmore
    rw [Nat.add_right_comm, Nat.add_assoc] at hsecond
    refine ⟨_, second, by rw [statementLines, hcode, hfirst], hsecond, ?_⟩
    rw [hlines, hmore, instructionsOf_append, instructionsOf_append, instructionsOf_map]
    cases comments <;> simp [instructionsOf, AssemblyLine.instruction?, Node.comment]

theorem evalStatements_cons (hn : n.isResult = false) (rest : List Node) (v : Int) (env : Env) :
    evalStatements (n :: rest) v env =
      n.eval env >>= fun r => evalStatements rest r.1 r.2 := by
  cases n with
  | result value l => cases hn
  | _ => rfl

theorem evalStatements_append {ns : List Node} (hns : ∀ n ∈ ns, n.isResult = false)
    (rest : List Node) (v : Int) (env : Env) :
    evalStatements (ns ++ rest) v env =
      evalStatements ns v env >>= fun r => evalStatements rest r.1 r.2 := by
  induction ns generalizing v env with
  | nil => rfl
  | cons n ns ih =>
    have hn := hns n (by simp)
    rw [List.cons_append, evalStatements_cons hn, evalStatements_cons hn, bind_assoc]
    congr 1
    funext r
    exact ih (fun m hm => hns m (by simp [hm])) r.1 r.2

/-- Statements that are no results are performed one after the other. -/
theorem performs_statements {comments : Bool} {k : Nat} {ns : List Node}
    {lines : List AssemblyLine} (ht : t.LaidOut) (hns : ∀ n ∈ ns, Expression t n)
    (hr : ∀ n ∈ ns, t.Room n.depth) (hc : statementLines comments k ns = .ok lines)
    (h : Settled t env v s) :
    Performs t (instructionsOf lines) s (evalStatements ns v env)
      fun r s' => Settled t r.2 r.1 s' := by
  induction ns generalizing k lines env v s with
  | nil =>
    cases hc
    exact .nil h
  | cons n ns ih =>
    obtain ⟨code, more, hcode, hmore, hlines⟩ := statementLines_cons hc
    have hn := hns n (by simp)
    rw [hlines, evalStatements_cons hn.isResult_eq]
    refine (hn.performs_statement ht hcode h (hr n (by simp))).bind fun r s₁ _ h₁ => ?_
    exact ih (fun m hm => hns m (by simp [hm])) (fun m hm => hr m (by simp [hm])) hmore h₁

/-! ### Programs -/

/-- A statement of the language. -/
inductive Statement (t : SlotTable) : Node → Prop
  | expression {n : Node} (h : Expression t n) : Statement t n
  | result {value : Node} {l : Option Location} (h : Expression t value) :
      Statement t (.result value l)

theorem Statement.expression_of {n : Node} (h : Statement t n) (hn : n.isResult = false) :
    Expression t n := by
  cases h with
  | expression h => exact h
  | result h => cases hn

/-- A state with the sentinel on an otherwise unwritten stack. -/
structure Entered (s : State) : Prop where
  running : s.halted = false
  rsp : s.rsp.toNat = framePointer + wordBytes
  rbp : s.rbp = 0
  rax : s.rax = 0
  memory : s.memory = Memory.empty.set (framePointer + wordBytes) sentinel

/-- A state with the old frame pointer above the unwritten rest of the stack. -/
structure Linked (s : State) : Prop where
  running : s.halted = false
  rsp : s.rsp.toNat = framePointer
  rax : s.rax = 0
  saved : s.memory.get? framePointer = some 0
  returns : s.memory.get? (framePointer + wordBytes) = some sentinel
  fresh : ∀ a < framePointer, s.memory.get a = 0

theorem Entered.toNat_sub_word (h : Entered s) :
    (s.rsp - BitVec.ofNat 64 wordBytes).toNat = framePointer := by
  rw [BitVec.toNat_sub, h.rsp]
  decide

theorem Entered.linked (h : Entered s) : Linked (s.pushed s.rbp) where
  running := h.running
  rsp := h.toNat_sub_word
  rax := h.rax
  saved := by
    show (s.memory.set _ s.rbp).get? _ = _
    rw [h.toNat_sub_word, h.rbp]
    exact Memory.get?_set_self _ _ _
  returns := by
    show (s.memory.set _ s.rbp).get? _ = _
    rw [h.toNat_sub_word, Memory.get?_set_ne _ (by decide), h.memory]
    exact Memory.get?_set_self _ _ _
  fresh := by
    intro a ha
    have hne : a ≠ framePointer + wordBytes := by omega
    show (s.memory.set _ s.rbp).get a = _
    rw [h.toNat_sub_word, Memory.get_set_ne _ (by omega), h.memory, Memory.get_set_ne _ hne]
    rfl

theorem Entered.execute_push (h : Entered s) {e : Entry} (he : e.Spells (push .rbp)) :
    ∃ s', Action.execute e s.ticked = .ok () s' ∧ Linked s' := by
  have hs : Entered s.ticked := ⟨h.running, h.rsp, h.rbp, h.rax, h.memory⟩
  refine ⟨_, Action.execute_push he (Action.readOperand_register e .rbp _) ?_, hs.linked⟩
  rw [hs.toNat_sub_word]
  decide

/-- The rest of the prologue makes room for the variables, which are zero. -/
theorem Linked.performs_enter (h : Linked s) (ht : t.LaidOut) (hr : t.Room 0) :
    Performs t [move .rbp .rsp, ⟨.sub, [.register .rsp, .immediate t.frameSize]⟩] s (.ok ())
      fun _ s' => Settled t (fun _ => 0) 0 s' := by
  have hsmall : t.frameSize < framePointer ∧ t.frameSize < 10 ^ 20 := by
    unfold SlotTable.Room at hr
    have : stackSize ≤ framePointer ∧ stackSize < 10 ^ 20 ∧ 0 < wordBytes := by decide
    omega
  have hread : Text.Readable t.frameSize := Text.readable_of_natAbs_lt (by omega)
  have hsub : (s.rsp - Word.ofInt t.frameSize).toNat = t.base := by
    rw [Word.ofInt, BitVec.ofInt_natCast, SlotTable.base, ← h.rsp]
    have := h.rsp
    have : s.rsp.toNat < 2 ^ 64 := s.rsp.isLt
    bv_omega
  refine Performs.cons_quiet h.running rfl (fun e he => Action.execute_mov he
    (Action.readOperand_register e .rsp _)) ?_
  refine Performs.cons_quiet h.running rfl (fun e he => Action.execute_arithmetic rfl he
    (Action.readOperand_immediate e hread _)) ?_
  refine .nil ⟨⟨h.running, hr, h.rsp, hsub, trivial, ?_, h.saved, h.returns⟩, ?_, ?_⟩
  · intro slot hs
    have hpos := ht.pos slot hs
    refine h.fresh slot.address ?_
    unfold Slot.address
    omega
  · intro x
    rfl
  · exact h.rax

/-- Up to a boundary between statements. -/
theorem Linked.performs_statements (h : Linked s) (ht : t.LaidOut) {ns : List Node}
    (hns : ∀ n ∈ ns, Expression t n) (hr : t.Room 0) (hrs : ∀ n ∈ ns, t.Room n.depth)
    {comments : Bool} {k : Nat} {body : List AssemblyLine}
    (hc : statementLines comments k ns = .ok body) :
    Performs t ((prologue t.frameSize).tail ++ instructionsOf body) s
      (evalStatements ns 0 fun _ => 0) fun r s' => Settled t r.2 r.1 s' :=
  (h.performs_enter ht hr).followed fun _ h₁ => WordLang.performs_statements ht hns hrs hc h₁

theorem exists_first_result (ns : List Node) : (∀ n ∈ ns, n.isResult = false) ∨
    ∃ before value l after, ns = before ++ .result value l :: after ∧
      ∀ n ∈ before, n.isResult = false := by
  induction ns with
  | nil => exact .inl (by simp)
  | cons n ns ih =>
    by_cases hn : n.isResult = false
    · rcases ih with h | ⟨before, value, l, after, rfl, h⟩
      · exact .inl (by simpa [hn] using h)
      · exact .inr ⟨n :: before, value, l, after, rfl, by simpa [hn] using h⟩
    · cases n with
      | result value l => exact .inr ⟨[], value, l, ns, rfl, by simp⟩
      | _ => exact absurd rfl hn

theorem instructionsOf_assembly {p : Program} {size : Int} {comments : Bool}
    {lines : List AssemblyLine} (h : p.assembly size comments = .ok lines) :
    ∃ body, statementLines comments 1 p.statements = .ok body ∧
      instructionsOf lines = push .rbp :: ((prologue size).tail ++ instructionsOf body ++
        ((if p.statements.isEmpty then [⟨.mov, [.register .rax, .immediate 0]⟩] else []) ++
          epilogue)) := by
  rw [Program.assembly] at h
  split at h
  · cases h
  rename_i body hbody
  cases h
  refine ⟨body, hbody, ?_⟩
  simp only [instructionsOf_append, instructionsOf_map, List.append_assoc]
  cases p.statements.isEmpty <;> rfl

theorem instructionsOf_assembly_append {p : Program} {size : Int} {comments : Bool}
    {lines : List AssemblyLine} (h : p.assembly size comments = .ok lines)
    {before after : List Node} (hs : p.statements = before ++ after) :
    ∃ body more, statementLines comments 1 before = .ok body ∧
      instructionsOf lines = prologue size ++ instructionsOf body ++ more := by
  obtain ⟨body, hbody, hlines⟩ := instructionsOf_assembly h
  rw [hs] at hbody
  obtain ⟨first, second, hfirst, -, hbody⟩ := statementLines_append hbody
  generalize (if p.statements.isEmpty then _ else _) ++ epilogue = ending at hlines
  refine ⟨first, instructionsOf second ++ ending, hfirst, hlines.trans ?_⟩
  rw [hbody]
  simp only [List.append_assoc]
  rfl

/-- The end of a program without a result. Only where there is no statement is zero set again. -/
theorem Settled.performs_end (h : Settled t env v s) (empty : Bool) (hv : empty = true → v = 0) :
    Performs t ((if empty then [⟨.mov, [.register .rax, .immediate 0]⟩] else []) ++ epilogue) s
      (.ok (v, env)) fun r s' => Returned t r.2 r.1 s' := by
  cases empty with
  | false => exact h.frame.performs_epilogue h.rax
  | true =>
    have hread : Text.Readable 0 := Text.readable_of_natAbs_lt (by decide)
    refine Performs.cons_quiet h.frame.running rfl (fun e he => Action.execute_mov he
      (Action.readOperand_immediate e hread _)) ?_
    refine (h.frame.ticked.set (Word.ofInt 0) (show Register.rax ≠ .rbp by decide)
      (by decide)).performs_epilogue ?_
    rw [hv rfl]
    rfl

/-- Once the old frame pointer is pushed, the code of a program goes as its evaluation: it returns
the value, with the variables in their slots, or faults. Code behind a result is never reached. -/
theorem Program.exists_performs {p : Program} (ht : t.LaidOut)
    (hp : ∀ n ∈ p.statements, Statement t n) (hr : t.Room p.depth) {comments : Bool}
    {lines : List AssemblyLine} (hc : p.assembly t.frameSize comments = .ok lines) :
    ∃ reached rest, instructionsOf lines = push .rbp :: (reached ++ rest) ∧
      ∀ s, Linked s → Performs t reached s p.evaluate fun r s' => Returned t r.2 r.1 s' := by
  obtain ⟨body, hbody, hlines⟩ := instructionsOf_assembly hc
  have hrs : ∀ n ∈ p.statements, t.Room n.depth := fun n hn => hr.mono (Program.depth_le hn)
  have hr₀ : t.Room 0 := hr.mono (Nat.zero_le _)
  rcases exists_first_result p.statements with hplain | ⟨before, value, l, after, hsplit, hplain⟩
  · have hns : ∀ n ∈ p.statements, Expression t n := fun n hn =>
      (hp n hn).expression_of (hplain n hn)
    refine ⟨_, [], by rw [hlines, List.append_nil], fun s h => ?_⟩
    rw [← bind_pure p.evaluate]
    refine (h.performs_statements ht hns hr₀ hrs hbody).bind fun r s₁ he h₁ =>
      h₁.performs_end _ fun hempty => ?_
    rw [List.isEmpty_iff.mp hempty] at he
    cases he
    rfl
  · rw [hsplit] at hbody hp hrs
    obtain ⟨first, second, hfirst, hsecond, hbody⟩ := statementLines_append hbody
    obtain ⟨code, more, hcode, -, hsecond⟩ := statementLines_cons hsecond
    have hns : ∀ n ∈ before, Expression t n := fun n hn =>
      (hp n (by simp [hn])).expression_of (hplain n hn)
    have hvalue : Expression t value := by
      cases hp (.result value l) (by simp) with
      | expression h => cases h
      | result h => exact h
    generalize (if p.statements.isEmpty then _ else _) ++ epilogue = ending at hlines
    refine ⟨(prologue t.frameSize).tail ++ instructionsOf first ++ code,
      instructionsOf more ++ ending, ?_, fun s h => ?_⟩
    · rw [hlines, hbody, hsecond]
      simp only [List.append_assoc]
    rw [Program.evaluate, hsplit, evalStatements_append hplain]
    refine (h.performs_statements ht hns hr₀ (fun n hn => hrs n (by simp [hn])) hfirst).bind
      fun r s₁ _ h₁ => hvalue.performs_result ht hcode h₁ ?_
    exact hrs (.result value l) (by simp)

end WordLang
