import WordLang.Proofs.Diagnostics
import WordLang.Proofs.Machine.Lines

/-! Comments are inert. A source compiles with and without them or not at all, and the two texts
are read as the same instructions, so that they run alike. -/
namespace WordLang

/-- Statements have the same instructions with and without comments. -/
theorem instructionsOf_statementLines_eq {a b : Bool} {k : Nat} {ns : List Node}
    {lines₁ lines₂ : List AssemblyLine} (h₁ : statementLines a k ns = .ok lines₁)
    (h₂ : statementLines b k ns = .ok lines₂) : instructionsOf lines₁ = instructionsOf lines₂ := by
  induction ns generalizing k lines₁ lines₂ with
  | nil =>
    cases h₁
    cases h₂
    rfl
  | cons n ns ih =>
    obtain ⟨code₁, more₁, hcode₁, hmore₁, hlines₁⟩ := statementLines_cons h₁
    obtain ⟨code₂, more₂, hcode₂, hmore₂, hlines₂⟩ := statementLines_cons h₂
    have hcode : code₁ = code₂ := Except.ok.inj (hcode₁.symm.trans hcode₂)
    rw [hlines₁, hlines₂, hcode, ih hmore₁ hmore₂]

theorem Program.instructionsOf_assembly_eq {p : Program} {frameSize : Int} {a b : Bool}
    {lines₁ lines₂ : List AssemblyLine} (h₁ : p.assembly frameSize a = .ok lines₁)
    (h₂ : p.assembly frameSize b = .ok lines₂) : instructionsOf lines₁ = instructionsOf lines₂ := by
  obtain ⟨body₁, hbody₁, hlines₁⟩ := instructionsOf_assembly h₁
  obtain ⟨body₂, hbody₂, hlines₂⟩ := instructionsOf_assembly h₂
  rw [hlines₁, hlines₂, instructionsOf_statementLines_eq hbody₁ hbody₂]

/-- Entries that spell instructions are those instructions on some lines. -/
theorem map_content_of_spells {entries : List Entry} {code : List Instruction}
    (h : List.Forall₂ Entry.Spells entries code) :
    entries.map Entry.content = code.map fun i => (i.entry 0).content := by
  induction h with
  | nil => rfl
  | cons he _ ih =>
    rw [List.map_cons, List.map_cons, ih]
    exact congrArg (· :: _) (Prod.ext he.1 he.2)

/-- Two compilations of the same instructions are read alike, up to the lines. -/
theorem Compilation.Coherent.read_alike {c₁ c₂ : Compilation} {a b : Bool} (h₁ : c₁.Coherent a)
    (h₂ : c₂.Coherent b) (h : instructionsOf c₁.lines = instructionsOf c₂.lines) :
    (Listing.read c₁.assembly).entries.map Entry.content =
      (Listing.read c₂.assembly).entries.map Entry.content ∧
    (Listing.read c₁.assembly).labels = [("main", 0)] ∧
    (Listing.read c₂.assembly).labels = [("main", 0)] := by
  obtain ⟨entries₁, hread₁, hspells₁⟩ := h₁.exists_entries
  obtain ⟨entries₂, hread₂, hspells₂⟩ := h₂.exists_entries
  rw [hread₁, hread₂]
  refine ⟨?_, rfl, rfl⟩
  simp only [List.map_toArray]
  rw [map_content_of_spells hspells₁, map_content_of_spells hspells₂, h]

/-- A compilation with comments fails as the one without, or both succeed on the same program. -/
theorem Options.compile_comments (o : Options) (s : Source) (a b : Bool) :
    (∃ e, ({ o with comments := a }.compile s).outcome = .error e ∧
      ({ o with comments := b }.compile s).outcome = .error e) ∨
    ∃ c₁ c₂, ({ o with comments := a }.compile s).outcome = .ok c₁ ∧
      ({ o with comments := b }.compile s).outcome = .ok c₂ ∧
      c₁.program = c₂.program ∧ c₁.slots = c₂.slots := by
  cases ht : s.tokens with
  | error e =>
    refine .inl ⟨e, ?_, ?_⟩ <;> rw [compile_outcome, ht] <;> rfl
  | ok tokens =>
    cases hcreate : SlotTable.create o.wordSize o.maxVariables with
    | error e =>
      refine .inl ⟨e, ?_, ?_⟩ <;> rw [compile_outcome, ht, hcreate] <;> rfl
    | ok table =>
      cases hp : (parseTokens ⟨s.lines, o.maxStatements⟩ table tokens).outcome with
      | error e =>
        have hfails (c : Bool) : ({ o with comments := c }.compile s).outcome = .error e :=
          compile_of_error (o := { o with comments := c }) ht hcreate hp
        exact .inl ⟨e, hfails a, hfails b⟩
      | ok p =>
        -- A program that was parsed has code, with comments and without.
        let parsed := parseTokens ⟨s.lines, o.maxStatements⟩ table tokens
        have hcompiles (c : Bool) : ∃ lines,
            ({ o with comments := c }.compile s).outcome =
              .ok ⟨s.file, tokens, p, parsed.slots, lines⟩ := by
          obtain ⟨lines, hlines⟩ := Program.exists_assembly (isStatement_of_parseTokens hp)
            parsed.slots.frameSize c
          exact ⟨lines, compile_of_ok (o := { o with comments := c }) ht hcreate hp hlines⟩
        obtain ⟨lines₁, h₁⟩ := hcompiles a
        obtain ⟨lines₂, h₂⟩ := hcompiles b
        exact .inr ⟨_, _, h₁, h₂, rfl, rfl⟩

/-- Comments are inert. With and without them a source fails to compile with the same failure, or
compiles to texts that are read as the same instructions, on whatever lines, and the same labels.
Within any limit of steps the two texts then run to the same state, and to the same value or to
faults of the same cause and so of the same words, each told at the line that its instruction has in
its text. -/
theorem comments_inert (o : Options) (s : Source) (a b : Bool) :
    (∃ e, ({ o with comments := a }.compile s).outcome = .error e ∧
      ({ o with comments := b }.compile s).outcome = .error e) ∨
    ∃ c₁ c₂, ({ o with comments := a }.compile s).outcome = .ok c₁ ∧
      ({ o with comments := b }.compile s).outcome = .ok c₂ ∧
      let l₁ := Listing.read c₁.assembly
      let l₂ := Listing.read c₂.assembly
      l₁.entries.map Entry.content = l₂.entries.map Entry.content ∧ l₁.labels = l₂.labels ∧
      ∀ limit, ∃ run₁ run₂, runAssembly c₁.assembly limit = .ok run₁ ∧
        runAssembly c₂.assembly limit = .ok run₂ ∧ run₁.SameEnd l₁.entries l₂.entries run₂ := by
  obtain hfails | ⟨c₁, c₂, h₁, h₂, hprogram, hslots⟩ := o.compile_comments s a b
  · exact .inl hfails
  have hc₁ := Options.compile_coherent h₁
  have hc₂ := Options.compile_coherent h₂
  have hcode : instructionsOf c₁.lines = instructionsOf c₂.lines := by
    have hgenerated := hc₁.generated
    rw [hprogram, hslots] at hgenerated
    exact Program.instructionsOf_assembly_eq hgenerated hc₂.generated
  obtain ⟨hentries, hlabels₁, hlabels₂⟩ := hc₁.read_alike hc₂ hcode
  have hlabels := hlabels₁.trans hlabels₂.symm
  have hmain : (Listing.read c₁.assembly).labels.find? Machine.entryLabel = some 0 := by
    rw [hlabels₁]
    rfl
  exact .inr ⟨c₁, c₂, h₁, h₂, hentries, hlabels, fun limit =>
    runAssembly_sameEnd hentries hlabels limit hmain⟩

/-- The words of a fault are not all of its message: a comment moves the division to the next line,
and that line is told. -/
theorem comments_move_fault_line :
    let s : Source := ⟨some Source.usualName, "1/0"⟩
    let compiled (comments : Bool) := (Options.compile { comments := comments } s).outcome
    ∃ c₁ c₂ run₁ run₂ f₁ f₂, compiled true = .ok c₁ ∧ compiled false = .ok c₂ ∧
      runAssembly c₁.assembly Machine.defaultStepLimit = .ok run₁ ∧
      runAssembly c₂.assembly Machine.defaultStepLimit = .ok run₂ ∧
      run₁.outcome = .error (.fault f₁) ∧ run₂.outcome = .error (.fault f₂) ∧
      f₁.message = "line 13: division by zero" ∧ f₂.message = "line 12: division by zero" ∧
      f₁.message ≠ f₂.message := by
  intro s compiled
  let fault (line : Int) : Fault := ⟨.divisionByZero, some line⟩
  -- The lines of a compilation are its listing, so that no text has to be written and read here.
  have hfaults {comments : Bool} {line : Int}
      (h : (compiled comments).toOption.any (fun c =>
        (Machine.load (Listing.empty.addAll 1 c.lines) Machine.defaultStepLimit).toOption.any
          fun m => (m.run none).outcome = .error (.fault (fault line))) = true) :
      ∃ c run, compiled comments = .ok c ∧
        runAssembly c.assembly Machine.defaultStepLimit = .ok run ∧
        run.outcome = .error (.fault (fault line)) := by
    obtain ⟨c, hc, hloads⟩ := exists_of_any_toOption h
    obtain ⟨m, hload, hrun⟩ := exists_of_any_toOption hloads
    refine ⟨c, m.run none, hc, ?_, of_decide_eq_true hrun⟩
    rw [runAssembly, (Options.compile_coherent hc).read_eq_addAll, hload]
    rfl
  obtain ⟨c₁, run₁, hc₁, hr₁, hf₁⟩ := @hfaults true 13 (by decide +kernel)
  obtain ⟨c₂, run₂, hc₂, hr₂, hf₂⟩ := @hfaults false 12 (by decide +kernel)
  exact ⟨c₁, c₂, run₁, run₂, fault 13, fault 12, hc₁, hc₂, hr₁, hr₂, hf₁, hf₂, by decide, by decide,
    by decide⟩

end WordLang
