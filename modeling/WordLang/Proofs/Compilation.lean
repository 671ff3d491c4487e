import WordLang.Compilation
import WordLang.Proofs.Execution
import WordLang.Proofs.Grammar.Acceptance
import WordLang.Proofs.Scanning

/-! What a compilation makes: a table of slots that is laid out in words, and statements of the
language over it. -/
namespace WordLang

/-! ### Slots -/

/-- Slots of whole words in the order of their names are laid out in the frame. -/
theorem SlotTable.Regular.laidOut {t : SlotTable} (h : t.Regular) (hpos : 0 < t.wordSize)
    (hw : t.wordSize % wordBytes = 0) : t.LaidOut where
  pos slot hs := by
    obtain ⟨i, -, ho⟩ := h.exists_index hs
    rw [ho]
    exact Nat.mul_pos (Nat.succ_pos i) hpos
  le_frameSize _ hs := h.offset_le_frameSize hs
  aligned slot hs := by
    obtain ⟨i, -, ho⟩ := h.exists_index hs
    rw [ho, Nat.mul_mod, hw, Nat.mul_zero, Nat.zero_mod]
  offset_eq_iff a ha b hb := by
    constructor
    · obtain ⟨i, hi, hoi⟩ := h.exists_index ha
      obtain ⟨j, hj, hoj⟩ := h.exists_index hb
      intro heq
      have hij : i = j := by
        have := Nat.eq_of_mul_eq_mul_right hpos (hoi.symm.trans (heq.trans hoj))
        omega
      rw [hij, hj] at hi
      exact (Option.some.inj hi).symm
    · intro hname
      rw [← h.agrees a ha, ← h.agrees b hb, hname]

/-! ### Stages -/

namespace Options

variable {o : Options} {s : Source} {c : Compilation}

/-- A compilation is its stages in order, whatever the journal says. -/
theorem compile_outcome (o : Options) (s : Source) : (o.compile s).outcome = (do
    let tokens ← s.tokens
    let empty ← SlotTable.create o.wordSize o.maxVariables
    let parsed := parseTokens ⟨s.lines, o.maxStatements⟩ empty tokens
    let program ← parsed.outcome
    let lines ← (program.assembly parsed.slots.frameSize o.comments).mapError .diagnostic
    pure ⟨s.file, tokens, program, parsed.slots, lines⟩ : Except Failure Compilation) := by
  simp only [compile, tokenize, parse, generate, Stage.outcome, Stage.note, bind, EStateM.bind,
    Except.bind, pure, EStateM.pure, Except.pure]
  cases s.tokens with
  | error e => rfl
  | ok tokens =>
    cases SlotTable.create o.wordSize o.maxVariables with
    | error e => rfl
    | ok empty =>
      simp only [Stage.lift]
      generalize parseTokens ⟨s.lines, o.maxStatements⟩ empty tokens = parsed
      obtain ⟨outcome, slots⟩ := parsed
      cases outcome with
      | error e => rfl
      | ok program =>
        simp only
        generalize program.assembly slots.frameSize o.comments = lines
        cases lines <;> rfl

theorem tokenize_outcome (o : Options) (s : Source) : (o.tokenize s).outcome = s.tokens := by
  simp only [tokenize, Stage.outcome, bind, EStateM.bind]
  cases s.tokens <;> rfl

theorem parse_outcome (o : Options) (s : Source) (tokens : List Token) :
    (o.parse s tokens).outcome = (do
      let empty ← SlotTable.create o.wordSize o.maxVariables
      let parsed := parseTokens ⟨s.lines, o.maxStatements⟩ empty tokens
      let program ← parsed.outcome
      pure (program, parsed.slots) : Except Failure (Program × SlotTable)) := by
  simp only [parse, Stage.outcome, bind, EStateM.bind, Except.bind]
  cases SlotTable.create o.wordSize o.maxVariables with
  | error e => rfl
  | ok empty =>
    simp only [Stage.lift]
    generalize parseTokens ⟨s.lines, o.maxStatements⟩ empty tokens = parsed
    obtain ⟨outcome, slots⟩ := parsed
    cases outcome <;> rfl

theorem generate_outcome (o : Options) (p : Program) (slots : SlotTable) :
    (o.generate p slots).outcome =
      (p.assembly slots.frameSize o.comments).mapError .diagnostic := by
  simp only [generate, Stage.outcome, bind, EStateM.bind]
  cases p.assembly slots.frameSize o.comments <;> rfl

/-- A compilation scans, parses and generates. -/
theorem compile_stages (o : Options) (s : Source) : (o.compile s).outcome = (do
    let tokens ← (o.tokenize s).outcome
    let (program, slots) ← (o.parse s tokens).outcome
    let lines ← (o.generate program slots).outcome
    pure ⟨s.file, tokens, program, slots, lines⟩ : Except Failure Compilation) := by
  simp only [compile_outcome, tokenize_outcome, parse_outcome, generate_outcome, bind_assoc,
    pure_bind]

/-- What a compilation makes comes from its stages. -/
theorem compile_ok (h : (o.compile s).outcome = .ok c) :
    s.tokens = .ok c.tokens ∧ c.program.assembly c.slots.frameSize o.comments = .ok c.lines ∧
      ∃ table, SlotTable.create o.wordSize o.maxVariables = .ok table ∧
        (parseTokens ⟨s.lines, o.maxStatements⟩ table c.tokens).outcome = .ok c.program ∧
        (parseTokens ⟨s.lines, o.maxStatements⟩ table c.tokens).slots = c.slots := by
  rw [compile_outcome] at h
  obtain ⟨tokens, ht, h⟩ := bind_eq_ok.mp h
  obtain ⟨table, hcreate, h⟩ := bind_eq_ok.mp h
  obtain ⟨program, hp, h⟩ := bind_eq_ok.mp h
  obtain ⟨lines, hl, h⟩ := bind_eq_ok.mp h
  cases h
  exact ⟨ht, eq_ok_of_mapError hl, table, hcreate, hp, rfl⟩

section Stages

variable {tokens : List Token} {table : SlotTable} (ht : s.tokens = .ok tokens)
  (hcreate : SlotTable.create o.wordSize o.maxVariables = .ok table)
include ht hcreate

theorem compile_of_ok {P : Program} {lines : List AssemblyLine}
    (hp : (parseTokens ⟨s.lines, o.maxStatements⟩ table tokens).outcome = .ok P)
    (hl : P.assembly (parseTokens ⟨s.lines, o.maxStatements⟩ table tokens).slots.frameSize
      o.comments = .ok lines) :
    (o.compile s).outcome = .ok ⟨s.file, tokens, P,
      (parseTokens ⟨s.lines, o.maxStatements⟩ table tokens).slots, lines⟩ := by
  have hmap : (P.assembly (parseTokens ⟨s.lines, o.maxStatements⟩ table tokens).slots.frameSize
      o.comments).mapError Failure.diagnostic = .ok lines := by rw [hl]; rfl
  rw [compile_outcome]
  refine bind_eq_ok.mpr ⟨tokens, ht, bind_eq_ok.mpr ⟨table, hcreate, ?_⟩⟩
  exact bind_eq_ok.mpr ⟨P, hp, bind_eq_ok.mpr ⟨lines, hmap, rfl⟩⟩

theorem compile_of_error {e : Failure}
    (hp : (parseTokens ⟨s.lines, o.maxStatements⟩ table tokens).outcome = .error e) :
    (o.compile s).outcome = .error e := by
  rw [compile_outcome]
  refine bind_eq_error.mpr (.inr ⟨tokens, ht, bind_eq_error.mpr (.inr ⟨table, hcreate, ?_⟩)⟩)
  exact bind_eq_error.mpr (.inl hp)

end Stages

/-- What ends a compilation: the source has no tokens, the limits make no table, the tokens make no
program, or the program has no code. -/
theorem compile_error {e : Failure} (h : (o.compile s).outcome = .error e) :
    s.tokens = .error e ∨ SlotTable.create o.wordSize o.maxVariables = .error e ∨
      ∃ tokens table, s.tokens = .ok tokens ∧
        ((parseTokens ⟨s.lines, o.maxStatements⟩ table tokens).outcome = .error e ∨
          ∃ p frameSize d, (parseTokens ⟨s.lines, o.maxStatements⟩ table tokens).outcome = .ok p ∧
            p.assembly frameSize o.comments = .error d) := by
  rw [compile_outcome] at h
  obtain ht | ⟨tokens, ht, h⟩ := bind_eq_error.mp h
  · exact .inl ht
  obtain hcreate | ⟨table, -, h⟩ := bind_eq_error.mp h
  · exact .inr (.inl hcreate)
  obtain hp | ⟨program, hp, h⟩ := bind_eq_error.mp h
  · exact .inr (.inr ⟨tokens, table, ht, .inl hp⟩)
  obtain hl | ⟨lines, -, h⟩ := bind_eq_error.mp h
  · obtain ⟨d, hd⟩ := exists_of_mapError hl
    exact .inr (.inr ⟨tokens, table, ht, .inr ⟨program, _, d, hp, hd⟩⟩)
  · cases h

end Options

/-! ### Trees -/

section Trees

variable {t : SlotTable} {σ : String → Nat} {n : Nonterminal} {ts : List Token} {e : Node}

/-- A token that a program over a table can have. -/
def Token.Fitting (t : SlotTable) (σ : String → Nat) (tok : Token) : Prop :=
  tok.lexeme.Scanned ∧ ∀ x ∈ tok.name?, ∃ slot ∈ t.slots, slot.name = x ∧ slot.offset = σ x

theorem Joins.expression {m : Mark} {f : Node → Node → Node} {x y : Node} (h : Joins n m f)
    (hx : Expression t x) (hy : Expression t y) : Expression t (f x y) := by
  cases h with
  | greater | greaterEqual => exact .binary (by decide) hy hx
  | _ => exact .binary (by decide) hx hy

/-- The trees of fitting tokens are in the language. -/
theorem Derives.statement_of_fitting (h : Derives σ n ts e) (hts : ∀ tok ∈ ts, tok.Fitting t σ) :
    Statement t e ∧ (n ≠ .statement → Expression t e) := by
  have lift {m : Nonterminal} {e' : Node} (h : Expression t e') :
      Statement t e' ∧ (m ≠ .statement → Expression t e') := ⟨.expression h, fun _ => h⟩
  induction h with
  | @number tok v hl =>
    have := (hts tok (by simp)).1
    rw [hl] at this
    exact lift (.number this)
  | @name tok x hl =>
    obtain ⟨slot, hs, rfl, ho⟩ := (hts tok (by simp)).2 x (by rw [Token.name?, hl]; rfl)
    rw [← ho]
    exact lift (.var hs)
  | parens _ _ _ ih => exact lift ((ih fun tok ht => hts tok (by simp [ht])).2 (by simp))
  | unsigned _ ih | bare _ ih | expression _ ih => exact lift ((ih hts).2 (by simp))
  | plus _ _ ih => exact lift ((ih fun tok ht => hts tok (by simp [ht])).2 (by simp))
  | minus _ _ ih =>
    have hzero : Text.Readable 0 := Text.readable_of_natAbs_lt (by decide)
    exact lift (.binary (by decide) (.number hzero)
      ((ih fun tok ht => hts tok (by simp [ht])).2 (by simp)))
  | operand hb _ ih => exact lift ((ih hts).2 (by cases hb <;> simp))
  | join hb hj _ _ _ ihl ihr =>
    have hl := (ihl fun tok ht => hts tok (by simp [ht])).2 (by cases hb <;> simp)
    have hr := (ihr fun tok ht => hts tok (by simp [ht])).2 (by cases hb <;> simp)
    exact lift (hj.expression hl hr)
  | assign _ _ _ ihx ihe =>
    have hx := (ihx fun tok ht => hts tok (by simp [ht])).2 (by simp)
    have he := (ihe fun tok ht => hts tok (by simp [ht])).2 (by simp)
    cases hx with
    | var hs => exact lift (.assign hs he)
  | statement _ ih => exact ⟨(ih hts).1, fun h => absurd rfl h⟩
  | result _ _ ih =>
    have he := (ih fun tok ht => hts tok (by simp [ht])).2 (by simp)
    exact ⟨.result he, fun h => absurd rfl h⟩

theorem DerivesAll.statements_of_fitting {ns : List Node} (h : DerivesAll σ ts ns)
    (hts : ∀ tok ∈ ts, tok.Fitting t σ) : ∀ n ∈ ns, Statement t n := by
  induction h with
  | nil => simp
  | skip _ _ ih => exact ih fun tok ht => hts tok (by simp [ht])
  | last hn => simpa using (hn.statement_of_fitting hts).1
  | cons hn _ _ ih =>
    simp only [List.mem_cons, forall_eq_or_imp]
    exact ⟨(hn.statement_of_fitting fun tok ht => hts tok (by simp [ht])).1,
      ih fun tok ht => hts tok (by simp [ht])⟩

end Trees

/-! ### Lines -/

/-- A text that keeps to its line. -/
def OneLine (text : String) : Prop := ∀ c ∈ text.toList, Text.isLineEnd c = false

instance (text : String) : Decidable (OneLine text) :=
  inferInstanceAs (Decidable (∀ c ∈ text.toList, Text.isLineEnd c = false))

theorem OneLine.append {a b : String} (ha : OneLine a) (hb : OneLine b) : OneLine (a ++ b) := by
  intro c hc
  rw [String.toList_append, List.mem_append] at hc
  exact hc.elim (ha c) (hb c)

theorem oneLine_decimal (n : Int) : OneLine (Text.decimal n) := by
  intro c hc
  rcases Text.mem_decimal hc with rfl | hd
  · decide
  · have := Text.toNat_of_isDigit hd
    simp [Text.isLineEnd]
    omega

theorem oneLine_of_isNameChar {x : String} (h : ∀ c ∈ x.toList, isNameChar c = true) :
    OneLine x := by
  intro c hc
  have hcode := toNat_of_isNameChar (h c hc)
  simp [Text.isLineEnd]
  omega

theorem Operator.oneLine_spelling {op : Operator} (h : op ∈ known) : OneLine op.spelling := by
  cases op with
  | other s => exact absurd h (by simp [known])
  | _ => decide

variable {t : SlotTable} {n : Node}

theorem Expression.oneLine_source (h : Expression t n) (ht : ∀ slot ∈ t.slots, OneLine slot.name) :
    OneLine n.source := by
  induction h with
  | number => exact oneLine_decimal _
  | var hs => exact ht _ hs
  | assign hs _ ih => exact ((ht _ hs).append (by decide)).append ih
  | binary ho _ _ ihl ihr =>
    have hop := Operator.oneLine_spelling ho
    have hopen : OneLine "(" := by decide
    have hspace : OneLine " " := by decide
    exact (((((hopen.append ihl).append hspace).append hop).append hspace).append ihr).append
      (by decide)

theorem Statement.oneLine_source (h : Statement t n) (ht : ∀ slot ∈ t.slots, OneLine slot.name) :
    OneLine n.source := by
  cases h with
  | expression h => exact h.oneLine_source ht
  | result h => exact OneLine.append (by decide) (h.oneLine_source ht)

theorem readsBack_of_statement (h : Statement t n) (ht : ∀ slot ∈ t.slots, OneLine slot.name)
    (k : Nat) : (n.comment k).ReadsBack := by
  have hnumber : OneLine (Nat.repr k) := oneLine_decimal k
  have hfront : OneLine "stmt " := by decide
  exact readsBack_comment (((hfront.append hnumber).append (by decide)).append
    (h.oneLine_source ht))

/-- The lines of statements are instructions and comments. -/
theorem mem_statementLines {comments : Bool} {k : Nat} {ns : List Node}
    {lines : List AssemblyLine} (h : statementLines comments k ns = .ok lines) :
    ∀ line ∈ lines, (∃ i, line = .instruction i) ∨ ∃ n ∈ ns, ∃ j, line = n.comment j := by
  induction ns generalizing k lines with
  | nil =>
    cases h
    simp
  | cons n ns ih =>
    rw [statementLines] at h
    split at h
    · cases h
    split at h
    · cases h
    rename_i more hmore
    cases h
    intro line hline
    rw [List.mem_append, List.mem_append] at hline
    rcases hline with (hline | hline) | hline
    · cases comments with
      | true => exact .inr ⟨n, by simp, k, by simpa using hline⟩
      | false => cases hline
    · obtain ⟨i, -, rfl⟩ := List.mem_map.mp hline
      exact .inl ⟨i, rfl⟩
    · refine (ih hmore line hline).imp id ?_
      rintro ⟨m, hm, j, rfl⟩
      exact ⟨m, List.mem_cons_of_mem n hm, j, rfl⟩

/-! ### Compilations -/

theorem Token.lexeme_of_name? {tok : Token} {x : String} (h : tok.name? = some x) :
    tok.lexeme = .identifier x := by
  rw [Token.name?] at h
  split at h
  · rename_i hl
    cases h
    exact hl
  · cases h

namespace Options

variable {o : Options} {s : Source} {c : Compilation}

/-- The tokens of a compilation give its slots to their names, and make its statements. -/
theorem compile_enters (h : (o.compile s).outcome = .ok c) :
    let empty : SlotTable := ⟨o.wordSize.toNat, o.maxVariables.toNat, [], 0⟩
    0 < o.wordSize ∧ ∃ body : List Token, (∀ tok ∈ body, tok.lexeme.Scanned) ∧ empty.Fits body ∧
      c.slots = empty.enter body ∧
      ∀ σ, c.slots.Agrees σ → DerivesAll σ body c.program.statements := by
  obtain ⟨htokens, -, table, htable, hparse, hslots⟩ := compile_ok h
  obtain ⟨hpos, -, rfl⟩ := SlotTable.create_eq_ok htable
  obtain ⟨body, last, heq, hlast, hbody⟩ := Source.scan_yields htokens
  rw [heq] at hparse hslots
  obtain ⟨-, hfits, henter, hderives⟩ := derivesAll_of_parseTokens
    (SlotTable.regular_empty _ _) (fun t ht => (hbody t ht).1) hlast hparse
  rw [henter] at hslots
  exact ⟨hpos, body, fun t ht => (hbody t ht).2, hfits, hslots.symm, hslots ▸ hderives⟩

theorem compile_regular (h : (o.compile s).outcome = .ok c) : c.slots.Regular := by
  obtain ⟨-, body, -, -, hslots, -⟩ := compile_enters h
  rw [hslots]
  exact (SlotTable.regular_empty _ _).enter body

end Options

/-- What every compilation is like: its lines are those of statements of the language, over names
that keep to their line. -/
structure Compilation.Coherent (c : Compilation) (comments : Bool) : Prop where
  names : ∀ slot ∈ c.slots.slots, OneLine slot.name
  statements : ∀ n ∈ c.program.statements, Statement c.slots n
  generated : c.program.assembly c.slots.frameSize comments = .ok c.lines

theorem Options.compile_coherent {o : Options} {s : Source} {c : Compilation}
    (h : (o.compile s).outcome = .ok c) : c.Coherent o.comments := by
  have hregular := compile_regular h
  obtain ⟨-, body, hbody, hfits, hslots, hderives⟩ := compile_enters h
  have hnames (x : String) : x ∈ c.slots.names ↔ ∃ tok ∈ body, tok.name? = some x := by
    rw [hslots, SlotTable.names_enter hfits, mem_foldl_addName]
    simp [SlotTable.names]
  refine ⟨fun slot hs => ?_, ?_, (compile_ok h).2.1⟩
  · obtain ⟨tok, htok, hx⟩ := (hnames slot.name).mp (List.mem_map_of_mem hs)
    have hscanned := hbody tok htok
    rw [Token.lexeme_of_name? hx] at hscanned
    exact oneLine_of_isNameChar hscanned
  · refine (hderives _ hregular.agrees).statements_of_fitting fun tok htok => ?_
    refine ⟨hbody tok htok, fun x hx => ?_⟩
    obtain ⟨slot, hs, rfl⟩ := List.mem_map.mp ((hnames x).mpr ⟨tok, htok, hx⟩)
    exact ⟨slot, hs, rfl, (hregular.agrees slot hs).symm⟩

namespace Compilation.Coherent

variable {c : Compilation} {comments : Bool} (h : c.Coherent comments)
include h

theorem exists_lines : ∃ body, c.lines = header ++ body ∧ (∀ line ∈ body, line.ReadsBack) ∧
    ∀ name, AssemblyLine.label name ∉ body := by
  have hlines := h.generated
  rw [Program.assembly] at hlines
  split at hlines
  · cases hlines
  rename_i body hbody
  have hmem := mem_statementLines hbody
  rw [← Except.ok.inj hlines]
  simp only [List.append_assoc]
  refine ⟨_, rfl, ?_⟩
  have hkind : ∀ line ∈ (prologue c.slots.frameSize).map .instruction ++ (body ++
      ((if c.program.statements.isEmpty then
        [.instruction ⟨.mov, [.register .rax, .immediate 0]⟩] else []) ++
      epilogue.map .instruction)), (∃ i, line = .instruction i) ∨
        ∃ n ∈ c.program.statements, ∃ j, line = n.comment j := by
    grind
  refine ⟨fun line hline => ?_, fun name hline => ?_⟩
  · rcases hkind line hline with ⟨i, rfl⟩ | ⟨n, hn, j, rfl⟩
    · exact i.readsBack
    · exact readsBack_of_statement (h.statements n hn) h.names j
  · rcases hkind _ hline with ⟨i, hi⟩ | ⟨n, hn, j, hj⟩
    · cases hi
    · cases hj

/-- The text of a compilation is read as what its lines were written for. -/
theorem read_eq_addAll : Listing.read c.assembly = Listing.empty.addAll 1 c.lines := by
  obtain ⟨body, hlines, hreads, -⟩ := h.exists_lines
  rw [Compilation.assembly, hlines]
  exact Listing.read_renderAssembly (by simp [header]) (readsBack_header_append hreads)

/-- The text of a compilation is read as its instructions, whatever comments stand between them. -/
theorem exists_entries : ∃ entries : List Entry,
    Listing.read c.assembly = ⟨entries.toArray, [("main", 0)]⟩ ∧
      List.Forall₂ Entry.Spells entries (instructionsOf c.lines) := by
  obtain ⟨body, hlines, hreads, hlabels⟩ := h.exists_lines
  refine ⟨entriesFrom 4 body, ?_, ?_⟩
  · rw [Compilation.assembly, hlines, Listing.read_header_append hreads hlabels]
  · rw [hlines]
    exact entriesFrom_spells 4 body

end Compilation.Coherent

/-- What a compilation is like that can run. -/
structure Compilation.WellFormed (c : Compilation) (comments : Bool) : Prop
    extends c.Coherent comments where
  laidOut : c.slots.LaidOut

theorem Options.compile_wellFormed {o : Options} {s : Source} {c : Compilation}
    (h : (o.compile s).outcome = .ok c) (hw : (wordBytes : Int) ∣ o.wordSize) :
    c.WellFormed o.comments := by
  obtain ⟨hpos, body, -, -, hslots, -⟩ := compile_enters h
  have hsize : c.slots.wordSize = o.wordSize.toNat := by rw [hslots, SlotTable.wordSize_enter]
  refine ⟨compile_coherent h, (compile_regular h).laidOut (by omega) ?_⟩
  unfold wordBytes at hw ⊢
  omega

end WordLang
