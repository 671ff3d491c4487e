import WordLang.Proofs.Compilation
import WordLang.Proofs.Generation
import WordLang.Proofs.Grammar.Outcome
import WordLang.Proofs.Grammar.Parallel

/-! Layout never influences a compilation. Tokens that differ in texts and places only make trees
that differ in places only, and those have the same code. -/
namespace WordLang

/-! ### Trees that differ in places -/

namespace Node

variable {n m t v : Node} {loc : Option Location}

theorem exists_of_number_agrees {i : Int} (h : (number i loc).agrees m = true) :
    ∃ loc', m = number i loc' := by
  cases m with
  | number j loc' =>
    obtain rfl : i = j := by simpa [agrees] using h
    exact ⟨loc', rfl⟩
  | _ => simp [agrees] at h

theorem exists_of_var_agrees {x : String} {offset : Int} (h : (var x offset loc).agrees m = true) :
    ∃ loc', m = var x offset loc' := by
  cases m with
  | var y offset' loc' =>
    obtain ⟨rfl, rfl⟩ : x = y ∧ offset = offset' := by simpa [agrees] using h
    exact ⟨loc', rfl⟩
  | _ => simp [agrees] at h

theorem exists_of_assign_agrees (h : (assign t v loc).agrees m = true) :
    ∃ t' v' loc', m = assign t' v' loc' ∧ t.agrees t' = true ∧ v.agrees v' = true := by
  cases m with
  | assign t' v' loc' => exact ⟨t', v', loc', rfl, by simpa [agrees] using h⟩
  | _ => simp [agrees] at h

theorem exists_of_binary_agrees {op : Operator} (h : (binary op t v loc).agrees m = true) :
    ∃ t' v' loc', m = binary op t' v' loc' ∧ t.agrees t' = true ∧ v.agrees v' = true := by
  cases m with
  | binary op' t' v' loc' =>
    obtain ⟨⟨rfl, ht⟩, hv⟩ : (op = op' ∧ t.agrees t' = true) ∧ v.agrees v' = true := by
      simpa [agrees] using h
    exact ⟨t', v', loc', rfl, ht, hv⟩
  | _ => simp [agrees] at h

theorem exists_of_result_agrees (h : (result v loc).agrees m = true) :
    ∃ v' loc', m = result v' loc' ∧ v.agrees v' = true := by
  cases m with
  | result v' loc' => exact ⟨v', loc', rfl, by simpa [agrees] using h⟩
  | _ => simp [agrees] at h

theorem isVariable_eq_of_agrees (h : n.agrees m = true) : n.isVariable = m.isVariable := by
  cases n <;> cases m <;> simp_all [agrees, isVariable]

theorem isResult_eq_of_agrees (h : n.agrees m = true) : n.isResult = m.isResult := by
  cases n <;> cases m <;> simp_all [agrees, isResult]

/-- Trees that differ in places only read the same. -/
theorem source_eq_of_agrees : (n : Node) → {m : Node} → n.agrees m = true → m.source = n.source
  | .number .., m, h => by
    obtain ⟨loc', rfl⟩ := exists_of_number_agrees h
    rfl
  | .var .., m, h => by
    obtain ⟨loc', rfl⟩ := exists_of_var_agrees h
    rfl
  | .assign t v _, m, h => by
    obtain ⟨t', v', loc', rfl, ht, hv⟩ := exists_of_assign_agrees h
    rw [source, source, source_eq_of_agrees t ht, source_eq_of_agrees v hv]
  | .binary op x y _, m, h => by
    obtain ⟨x', y', loc', rfl, hx, hy⟩ := exists_of_binary_agrees h
    rw [source, source, source_eq_of_agrees x hx, source_eq_of_agrees y hy]
  | .result v _, m, h => by
    obtain ⟨v', loc', rfl, hv⟩ := exists_of_result_agrees h
    rw [source, source, source_eq_of_agrees v hv]
  | .program .., m, h => by
    cases m with
    | program => rfl
    | _ => simp [agrees] at h
  | .bareExpression _, m, h => by
    cases m with
    | bareExpression => rfl
    | _ => simp [agrees] at h
  | .bareNode _, m, h => by
    cases m with
    | bareNode => rfl
    | _ => simp [agrees] at h

/-- Trees that differ in places only have the same code, if they have any. -/
theorem code_of_agrees : (n : Node) → {m : Node} → {code : List Instruction} →
    n.agrees m = true → n.code = .ok code → m.code = .ok code
  | .number .., m, _, h, hc => by
    obtain ⟨loc', rfl⟩ := exists_of_number_agrees h
    exact hc
  | .var .., m, _, h, hc => by
    obtain ⟨loc', rfl⟩ := exists_of_var_agrees h
    exact hc
  | .assign t v _, m, _, h, hc => by
    obtain ⟨x, offset, loc, c, rfl, hvc, rfl⟩ := exists_of_code_assign hc
    obtain ⟨t', v', loc', rfl, ht, hv⟩ := exists_of_assign_agrees h
    obtain ⟨loc'', rfl⟩ := exists_of_var_agrees ht
    rw [code, code_of_agrees v hv hvc]
  | .binary op x y _, m, _, h, hc => by
    obtain ⟨c, c', compute, hxc, hyc, ho, rfl⟩ := exists_of_code_binary hc
    obtain ⟨x', y', loc', rfl, hx, hy⟩ := exists_of_binary_agrees h
    rw [code, code_of_agrees x hx hxc, code_of_agrees y hy hyc, ho]
  | .result v _, m, _, h, hc => by
    obtain ⟨c, hvc, rfl⟩ := exists_of_code_result hc
    obtain ⟨v', loc', rfl, hv⟩ := exists_of_result_agrees h
    rw [code, code_of_agrees v hv hvc]
  | .program .., _, _, _, hc | .bareExpression _, _, _, _, hc | .bareNode _, _, _, _, hc => by
    cases hc

theorem statementCode_of_agrees {code : List Instruction} (h : n.agrees m = true)
    (hc : n.statementCode = .ok code) : m.statementCode = .ok code := by
  cases hn : n.code with
  | error d =>
    rw [statementCode, hn] at hc
    cases hc
  | ok c =>
    rw [statementCode, hn, isResult_eq_of_agrees h] at hc
    rwa [statementCode, code_of_agrees n h hn]

end Node

theorem statementLines_of_agrees {comments : Bool} {number : Nat} {ns ms : List Node}
    {lines : List AssemblyLine} (h : Node.agreesList ns ms = true)
    (hl : statementLines comments number ns = .ok lines) :
    statementLines comments number ms = .ok lines := by
  induction ns generalizing ms number lines with
  | nil =>
    cases ms with
    | nil => exact hl
    | cons m ms => simp [Node.agreesList] at h
  | cons n ns ih =>
    cases ms with
    | nil => simp [Node.agreesList] at h
    | cons m ms =>
      simp only [Node.agreesList, Bool.and_eq_true] at h
      rw [statementLines] at hl
      split at hl
      · cases hl
      rename_i code hcode
      split at hl
      · cases hl
      rename_i more hmore
      rw [statementLines, Node.statementCode_of_agrees h.1 hcode, ih h.2 hmore, Node.comment,
        Node.source_eq_of_agrees n h.1]
      exact hl

/-- Programs that differ in places only have the same assembly. -/
theorem Program.assembly_of_agrees {P Q : Program} (h : P.node.agrees Q.node = true)
    {frameSize : Int} {comments : Bool} {lines : List AssemblyLine}
    (hl : P.assembly frameSize comments = .ok lines) :
    Q.assembly frameSize comments = .ok lines := by
  rw [Program.node, Program.node, Node.agrees] at h
  have hempty : Q.statements.isEmpty = P.statements.isEmpty := by
    cases hp : P.statements <;> cases hq : Q.statements <;> simp_all [Node.agreesList]
  rw [Program.assembly] at hl
  split at hl
  · cases hl
  rename_i body hbody
  rw [Program.assembly, statementLines_of_agrees h hbody, hempty]
  exact hl

theorem Program.exists_common_assembly {P Q : Program} (hP : ∀ n ∈ P.statements, n.IsStatement)
    (h : P.node.agrees Q.node = true) (frameSize : Int) (comments : Bool) :
    ∃ lines, P.assembly frameSize comments = .ok lines ∧
      Q.assembly frameSize comments = .ok lines := by
  obtain ⟨lines, hlines⟩ := Program.exists_assembly hP frameSize comments
  exact ⟨lines, hlines, assembly_of_agrees h hlines⟩

/-! ### Tokens that differ in texts and places -/

/-- A cause without the text of the token that was found. -/
def Cause.withoutFound : Cause → Cause
  | .missingToken expected _ => .missingToken expected none
  | .missingOperand _ => .missingOperand none
  | cause => cause

/-- The places of tokens that have the same index in two lists. -/
def AtSameToken (tokens₁ tokens₂ : List Token) (l₁ l₂ : Option Location) : Prop :=
  ∃ (i : Nat) (t₁ t₂ : Token), tokens₁[i]? = some t₁ ∧ tokens₂[i]? = some t₂ ∧
    l₁ = some t₁.location ∧ l₂ = some t₂.location

/-- Diagnostics at tokens with the same index, for causes that differ in the token found at most. -/
structure SameFault (tokens₁ tokens₂ : List Token) (d₁ d₂ : Diagnostic) : Prop where
  cause : d₁.cause.withoutFound = d₂.cause.withoutFound
  place : AtSameToken tokens₁ tokens₂ d₁.location d₂.location

/-- States of two parses at the same index, with the same slots and the same lexemes to come. -/
structure Abreast (tokens₁ tokens₂ : List Token) (s₁ s₂ : ParseState) : Prop where
  first : s₁.input.toList <:+ tokens₁
  second : s₂.input.toList <:+ tokens₂
  lexemes : s₁.input.toList.map Token.lexeme = s₂.input.toList.map Token.lexeme
  slots : s₁.slots = s₂.slots

/-- A parse beside one of tokens with the same lexemes. Trees agree and start at the same token, and
so do diagnostics. -/
def relocated (tokens₁ tokens₂ : List Token) : Parallel where
  states := Abreast tokens₁ tokens₂
  trees e₁ e₂ := e₁.agrees e₂ = true ∧ AtSameToken tokens₁ tokens₂ e₁.location e₂.location
  diagnostics := SameFault tokens₁ tokens₂
  early _ _ := False

section Relocated

variable {tokens₁ tokens₂ : List Token} {s₁ s₂ : ParseState} {o₁ o₂ : ParseSettings}

theorem length_eq_of_lexemes (h : tokens₁.map Token.lexeme = tokens₂.map Token.lexeme) :
    tokens₁.length = tokens₂.length := by
  simpa using congrArg List.length h

theorem terminated_eq_of_lexemes (h : tokens₁.map Token.lexeme = tokens₂.map Token.lexeme) :
    Terminated tokens₁ = Terminated tokens₂ := by
  have hlast (tokens : List Token) : Terminated tokens =
      (tokens.map Token.lexeme).getLast?.any fun l => l.kind == .endOfInput := by
    rw [Terminated, List.getLast?_map, Option.any_map]
    rfl
  rw [hlast, hlast, h]

namespace Abreast

theorem head (h : Abreast tokens₁ tokens₂ s₁ s₂) :
    s₁.input.head.lexeme = s₂.input.head.lexeme := (List.cons.inj h.lexemes).1

theorem length (h : Abreast tokens₁ tokens₂ s₁ s₂) : s₁.input.length = s₂.input.length :=
  length_eq_of_lexemes h.lexemes

theorem kind (h : Abreast tokens₁ tokens₂ s₁ s₂) : s₁.input.head.kind = s₂.input.head.kind := by
  rw [Token.kind, Token.kind, h.head]

variable (hlen : tokens₁.length = tokens₂.length)
include hlen

theorem atSameToken (h : Abreast tokens₁ tokens₂ s₁ s₂) : AtSameToken tokens₁ tokens₂
    (some s₁.input.head.location) (some s₂.input.head.location) := by
  obtain ⟨p₁, rfl⟩ := h.first
  obtain ⟨p₂, rfl⟩ := h.second
  have hp : p₁.length = p₂.length := by
    have hrest : s₁.input.toList.length = s₂.input.toList.length := h.length
    rw [List.length_append, List.length_append] at hlen
    omega
  refine ⟨p₁.length, s₁.input.head, s₂.input.head, ?_, ?_, rfl, rfl⟩
  · simp [TokenStream.toList]
  · simp [TokenStream.toList, hp]

/-- A name has the same slot in both parses, or too many stand before it in both. -/
theorem readName (h : Abreast tokens₁ tokens₂ s₁ s₂)
    (hnext : Abreast tokens₁ tokens₂ s₁.next s₂.next) (x : String) :
    (relocated tokens₁ tokens₂).Ends (relocated tokens₁ tokens₂).trees
      (Parallel.readName o₁ s₁.input.head x s₁.next)
      (Parallel.readName o₂ s₂.input.head x s₂.next) := by
  have hslots : s₂.next.slots = s₁.next.slots := hnext.slots.symm
  cases hr : SlotTable.resolve x (some s₁.input.head.location)
      (Text.lineAt? o₁.sourceLines s₁.input.head.location.line) s₁.next.slots with
  | ok offset slots =>
    have hr₂ := SlotTable.resolve_of_ok hr (some s₂.input.head.location)
      (Text.lineAt? o₂.sourceLines s₂.input.head.location.line)
    rw [← hslots] at hr₂
    rw [Parallel.readName_of_ok hr, Parallel.readName_of_ok hr₂]
    refine .ok ⟨?_, h.atSameToken hlen⟩ ⟨hnext.first, hnext.second, hnext.lexemes, rfl⟩
    simp [Node.agrees]
  | error d slots =>
    obtain ⟨rfl, rfl⟩ := SlotTable.resolve_error hr
    have hr₂ := SlotTable.resolve_of_error hr (some s₂.input.head.location)
      (Text.lineAt? o₂.sourceLines s₂.input.head.location.line)
    rw [← hslots] at hr₂
    rw [Parallel.readName_of_error hr, Parallel.readName_of_error hr₂, hslots]
    exact .error ⟨rfl, h.atSameToken hlen⟩ hnext

end Abreast

variable (hend : Terminated tokens₁ = true)
  (halike : tokens₁.map Token.lexeme = tokens₂.map Token.lexeme)
include hend halike

theorem Abreast.next (h : Abreast tokens₁ tokens₂ s₁ s₂) (hh : s₁.input.head.isEnd = false) :
    Abreast tokens₁ tokens₂ s₁.next s₂.next := by
  have hs₁ : Terminated s₁.input.toList = true := by
    obtain ⟨p, rfl⟩ := h.first
    rwa [terminated_append s₁.input.toList_ne_nil] at hend
  have hs₂ : Terminated s₂.input.toList = true := terminated_eq_of_lexemes h.lexemes ▸ hs₁
  have hh₂ : s₂.input.head.isEnd = false := by
    rwa [Token.isEnd, ← h.kind]
  have hnext₁ := s₁.toList_next hs₁ hh
  have hnext₂ := s₂.toList_next hs₂ hh₂
  refine ⟨?_, ?_, ?_, h.slots⟩
  · exact (hnext₁ ▸ List.suffix_cons _ _).trans h.first
  · exact (hnext₂ ▸ List.suffix_cons _ _).trans h.second
  · have hlexemes := h.lexemes
    rw [hnext₁, hnext₂, List.map_cons, List.map_cons] at hlexemes
    exact (List.cons.inj hlexemes).2

theorem lawful_relocated : (relocated tokens₁ tokens₂).Lawful o₁ o₂ := by
  have hlen := length_eq_of_lexemes halike
  exact {
    length := Abreast.length
    kind := Abreast.kind
    next := fun h hh _ => h.next hend halike hh
    number := by
      intro s₁ s₂ v₁ v₂ h h₁ h₂
      obtain rfl : v₁ = v₂ := by
        have hhead := h.head
        rw [h₁, h₂] at hhead
        exact Lexeme.number.inj hhead
      exact ⟨by simp [Node.agrees], h.atSameToken hlen⟩
    name := by
      intro s₁ s₂ x₁ x₂ h h₁ h₂
      obtain rfl : x₁ = x₂ := by
        have hhead := h.head
        rw [h₁, h₂] at hhead
        exact Lexeme.identifier.inj hhead
      exact h.readName hlen (h.next hend halike (Token.isEnd_of_identifier h₁)) x₁
    minus := fun h he => ⟨by simp [Node.agrees, he.1], h.atSameToken hlen⟩
    join := by
      rintro e₁ e₂ e₁' e₂' j ⟨ha, hl⟩ ⟨ha', -⟩
      refine ⟨?_, by rwa [Join.location_node, Join.location_node]⟩
      rw [Join.node, Join.node]
      split <;> simp [Node.agrees, ha, ha']
    assign := fun he he' => ⟨by simp [Node.agrees, he.1, he'.1], he.2⟩
    result := fun h he => ⟨by simpa [Node.agrees] using he.1, h.atSameToken hlen⟩
    isVariable := fun he => Node.isVariable_eq_of_agrees he.1
    missingToken := fun _ h => ⟨rfl, h.atSameToken hlen⟩
    missingOperand := fun h => ⟨rfl, h.atSameToken hlen⟩
    target := fun he => ⟨rfl, he.2⟩
    early_terminated := False.elim
    early_suffix := fun h _ => h }

end Relocated

/-! ### Whole programs -/

theorem agreesList_of_forall₂ {R : Node → Node → Prop} (hR : ∀ n m, R n m → n.agrees m = true)
    {ns ms : List Node} (h : List.Forall₂ R ns ms) : Node.agreesList ns ms = true := by
  induction h with
  | nil => rfl
  | cons hn _ ih => rw [Node.agreesList, hR _ _ hn, ih]; rfl

section Programs

variable {tokens₁ tokens₂ : List Token} (hend : Terminated tokens₁ = true)
  (halike : tokens₁.map Token.lexeme = tokens₂.map Token.lexeme)
include hend halike

/-- Two parses of the same lexemes end alike. -/
theorem parseTokens_relocated (lines₁ lines₂ : List String) (m : Int) (table : SlotTable) :
    let parsed₁ := parseTokens ⟨lines₁, m⟩ table tokens₁
    let parsed₂ := parseTokens ⟨lines₂, m⟩ table tokens₂
    parsed₁.slots = parsed₂.slots ∧
    ((∃ P₁ P₂, parsed₁.outcome = .ok P₁ ∧ parsed₂.outcome = .ok P₂ ∧
      P₁.node.agrees P₂.node = true) ∨
    ∃ d₁ d₂, parsed₁.outcome = .error (.diagnostic d₁) ∧
      parsed₂.outcome = .error (.diagnostic d₂) ∧ SameFault tokens₁ tokens₂ d₁ d₂) := by
  have hend₂ : Terminated tokens₂ = true := terminated_eq_of_lexemes halike ▸ hend
  have hlen := length_eq_of_lexemes halike
  obtain ⟨input₁, rfl⟩ := TokenStream.exists_of_terminated hend
  obtain ⟨input₂, rfl⟩ := TokenStream.exists_of_terminated hend₂
  have hfuel : input₁.length = input₂.length := hlen
  have hP : (relocated input₁.toList input₂.toList).Lawful ⟨lines₁, m⟩ ⟨lines₂, m⟩ :=
    lawful_relocated hend halike
  have hends := hP.statementsWithin rfl (fun h => ⟨rfl, h.atSameToken hlen⟩) input₁.length 0
    ⟨input₁, table⟩ ⟨input₂, table⟩ ⟨List.suffix_rfl, List.suffix_rfl, halike, rfl⟩
  dsimp only
  generalize hx₁ : Grammar.statementsWithin ⟨lines₁, m⟩ input₁.length 0 _ = x₁ at hends
  generalize hx₂ : Grammar.statementsWithin ⟨lines₂, m⟩ input₁.length 0 _ = x₂ at hends
  rw [hfuel] at hx₂
  cases hends with
  | ok h hs =>
    rw [parseTokens_of_ok hend hx₁, parseTokens_of_ok hend₂ hx₂]
    refine ⟨hs.slots, .inl ⟨_, _, rfl, rfl, ?_⟩⟩
    rw [Program.node, Program.node, Node.agrees]
    exact agreesList_of_forall₂ (fun _ _ hn => hn.1) h
  | error h hs =>
    rw [parseTokens_of_error hend hx₁, parseTokens_of_error hend₂ hx₂]
    exact ⟨hs.slots, .inr ⟨_, _, rfl, rfl, h⟩⟩
  | early h => exact h.elim

end Programs

/-- Layout never influences a compilation. Of two lists of tokens with the same lexemes, both make a
program, and the programs differ in places only, so that they have the same assembly in any frame,
with or without comments; or neither makes one, for the same cause at the same token. Slots are the
same in either case. So two sources with the same lexemes compile to the same assembly, with the
same slots in a frame of the same size, or do not compile. -/
theorem compile_eq_of_same_lexemes {tokens₁ tokens₂ : List Token}
    (h : tokens₁.map Token.lexeme = tokens₂.map Token.lexeme) :
    (Terminated tokens₁ = true → ∀ (lines₁ lines₂ : List String) (m : Int) (table : SlotTable),
      let parsed₁ := parseTokens ⟨lines₁, m⟩ table tokens₁
      let parsed₂ := parseTokens ⟨lines₂, m⟩ table tokens₂
      parsed₁.slots = parsed₂.slots ∧
      ((∃ P₁ P₂, parsed₁.outcome = .ok P₁ ∧ parsed₂.outcome = .ok P₂ ∧
        P₁.node.agrees P₂.node = true ∧ ∀ frameSize comments, ∃ lines,
          P₁.assembly frameSize comments = .ok lines ∧
          P₂.assembly frameSize comments = .ok lines) ∨
      ∃ d₁ d₂, parsed₁.outcome = .error (.diagnostic d₁) ∧
        parsed₂.outcome = .error (.diagnostic d₂) ∧ SameFault tokens₁ tokens₂ d₁ d₂)) ∧
    ∀ (o : Options) (s₁ s₂ : Source), s₁.tokens = .ok tokens₁ → s₂.tokens = .ok tokens₂ →
      (∃ c₁ c₂, (o.compile s₁).outcome = .ok c₁ ∧ (o.compile s₂).outcome = .ok c₂ ∧
        c₁.assembly = c₂.assembly ∧ c₁.slots = c₂.slots ∧ c₁.frameSize = c₂.frameSize) ∨
      ∃ e₁ e₂, (o.compile s₁).outcome = .error e₁ ∧ (o.compile s₂).outcome = .error e₂ ∧
        (e₁ = e₂ ∨ ∃ d₁ d₂, e₁ = .diagnostic d₁ ∧ e₂ = .diagnostic d₂ ∧
          SameFault tokens₁ tokens₂ d₁ d₂) := by
  refine ⟨fun hend lines₁ lines₂ m table => ?_, fun o s₁ s₂ ht₁ ht₂ => ?_⟩
  · obtain ⟨hslots, ⟨P₁, P₂, h₁, h₂, ha⟩ | hfaults⟩ :=
      parseTokens_relocated hend h lines₁ lines₂ m table
    · exact ⟨hslots, .inl ⟨P₁, P₂, h₁, h₂, ha,
        Program.exists_common_assembly (isStatement_of_parseTokens h₁) ha⟩⟩
    · exact ⟨hslots, .inr hfaults⟩
  · have hend : Terminated tokens₁ = true := by
      obtain ⟨body, last, rfl, hlast, -⟩ := Source.scan_yields ht₁
      simp [Terminated, hlast]
    cases hcreate : SlotTable.create o.wordSize o.maxVariables with
    | error e =>
      refine .inr ⟨e, e, ?_, ?_, .inl rfl⟩
      · rw [Options.compile_outcome, ht₁, hcreate]
        rfl
      · rw [Options.compile_outcome, ht₂, hcreate]
        rfl
    | ok table =>
      obtain ⟨hslots, ⟨P₁, P₂, h₁, h₂, ha⟩ | ⟨d₁, d₂, h₁, h₂, hd⟩⟩ :=
        parseTokens_relocated hend h s₁.lines s₂.lines o.maxStatements table
      · obtain ⟨lines, hl₁, hl₂⟩ := Program.exists_common_assembly (isStatement_of_parseTokens h₁)
          ha (parseTokens ⟨s₁.lines, o.maxStatements⟩ table tokens₁).slots.frameSize o.comments
        rw [hslots] at hl₂
        exact .inl ⟨_, _, Options.compile_of_ok ht₁ hcreate h₁ hl₁,
          Options.compile_of_ok ht₂ hcreate h₂ hl₂, rfl, hslots,
          congrArg SlotTable.frameSize hslots⟩
      · exact .inr ⟨_, _, Options.compile_of_error ht₁ hcreate h₁,
          Options.compile_of_error ht₂ hcreate h₂, .inr ⟨d₁, d₂, rfl, rfl, hd⟩⟩

/-- One program on one line and on three. It compiles in a table with room, and stops at its name in
a table without. -/
theorem compile_eq_of_same_lexemes_three_lines :
    let s₁ : Source := ⟨none, "x=1;return(x>2)"⟩
    let s₂ : Source := ⟨some "x", "x =\n\t1 ;\nreturn ( x > 02 ) "⟩
    let o : Options := ⟨none, 8, 3, 5, true⟩
    ∃ tokens₁ tokens₂, s₁.tokens = .ok tokens₁ ∧ s₂.tokens = .ok tokens₂ ∧
      tokens₁.map Token.lexeme = tokens₂.map Token.lexeme ∧ Terminated tokens₁ = true ∧
      (∃ d₁ d₂, (parseTokens ⟨s₁.lines, 5⟩ ⟨8, 0, [], 0⟩ tokens₁).outcome = .error (.diagnostic d₁) ∧
        (parseTokens ⟨s₂.lines, 5⟩ ⟨8, 0, [], 0⟩ tokens₂).outcome = .error (.diagnostic d₂) ∧
        SameFault tokens₁ tokens₂ d₁ d₂) ∧
      ∃ c₁ c₂, (o.compile s₁).outcome = .ok c₁ ∧ (o.compile s₂).outcome = .ok c₂ ∧
        c₁.assembly = c₂.assembly ∧ c₁.slots = c₂.slots ∧ c₁.frameSize = c₂.frameSize := by
  intro s₁ s₂ o
  let lexemes : List Lexeme := [.identifier "x", .mark .assign (some "="), .number 1,
    .mark .semicolon (some ";"), .mark .keywordReturn (some "return"), .mark .openParen (some "("),
    .identifier "x", .mark .greater (some ">"), .number 2, .mark .closeParen (some ")"),
    .endOfInput]
  obtain ⟨tokens₁, ht₁, htest⟩ := exists_of_any_toOption
    (show s₁.tokens.toOption.any (fun tokens => decide (tokens.map Token.lexeme = lexemes ∧
      Terminated tokens = true ∧
      (parseTokens ⟨s₁.lines, 5⟩ ⟨8, 0, [], 0⟩ tokens).outcome.toOption.isNone = true)) = true by
        decide +kernel)
  obtain ⟨hlexemes, hend, hfull⟩ := of_decide_eq_true htest
  obtain ⟨tokens₂, ht₂, htest₂⟩ := exists_of_any_toOption
    (show s₂.tokens.toOption.any (fun tokens => decide (tokens.map Token.lexeme = lexemes)) =
      true by decide +kernel)
  have hsame : tokens₁.map Token.lexeme = tokens₂.map Token.lexeme :=
    hlexemes.trans (of_decide_eq_true htest₂).symm
  have hcompiles : (o.compile s₁).outcome.toOption.isSome = true := by decide +kernel
  obtain ⟨hparse, hcompile⟩ := compile_eq_of_same_lexemes hsame
  refine ⟨tokens₁, tokens₂, ht₁, ht₂, hsame, hend, ?_, ?_⟩
  · obtain ⟨-, ⟨P₁, P₂, h₁, -⟩ | hfaults⟩ := hparse hend s₁.lines s₂.lines 5 ⟨8, 0, [], 0⟩
    · rw [h₁] at hfull
      cases hfull
    · exact hfaults
  · obtain hc | ⟨e₁, e₂, h₁, -⟩ := hcompile o s₁ s₂ ht₁ ht₂
    · exact hc
    · rw [h₁] at hcompiles
      cases hcompiles

end WordLang
