import Mathlib.Logic.Equiv.Basic
import WordLang.Proofs.Grammar.Relocation

/-! Renaming variables never changes the code. A parse of renamed tokens is the renamed parse, as
long as names are kept apart: tokens, slots and trees are renamed alike, and code has no names. -/
namespace WordLang

variable {f : String → String}

/-! ### Renamed trees have the same code -/

mutual

/-- A tree with other names for its variables, in the same slots. -/
def Node.rename (f : String → String) : Node → Node
  | .number v l => .number v l
  | .var x offset l => .var (f x) offset l
  | .assign t v l => .assign (t.rename f) (v.rename f) l
  | .binary op x y l => .binary op (x.rename f) (y.rename f) l
  | .result v l => .result (v.rename f) l
  | .program ss l => .program (Node.renameList f ss) l
  | .bareExpression l => .bareExpression l
  | .bareNode l => .bareNode l

/-- Several trees with other names. -/
def Node.renameList (f : String → String) : List Node → List Node
  | [] => []
  | n :: ns => n.rename f :: Node.renameList f ns

end

/-- A program with other names for its variables. -/
def Program.rename (f : String → String) (p : Program) : Program :=
  ⟨p.statements.map (Node.rename f), p.location⟩

namespace Node

@[simp] theorem location_rename (n : Node) : (n.rename f).location = n.location := by
  cases n <;> rfl

@[simp] theorem isVariable_rename (n : Node) : (n.rename f).isVariable = n.isVariable := by
  cases n <;> rfl

@[simp] theorem isResult_rename (n : Node) : (n.rename f).isResult = n.isResult := by
  cases n <;> rfl

/-- A renamed tree has the same code, or none for the same reason. -/
theorem code_rename : (n : Node) → (n.rename f).code = n.code
  | .number .. | .var .. => rfl
  | .assign (.var x offset l') v l => by rw [rename, rename, code, code, code_rename v]
  -- Nothing else can be assigned to, whatever its names are.
  | .assign (.number ..) v l | .assign (.assign ..) v l | .assign (.binary ..) v l
  | .assign (.result ..) v l | .assign (.program ..) v l | .assign (.bareExpression ..) v l
  | .assign (.bareNode ..) v l => rfl
  | .binary op x y l => by
    rw [rename, code, code, code_rename x, code_rename y]
    rfl
  | .result v l => by rw [rename, code, code, code_rename v]
  | .program .. | .bareExpression .. | .bareNode .. => rfl

end Node

theorem statementLines_rename (k : Nat) (ns : List Node) :
    statementLines false k (ns.map (Node.rename f)) = statementLines false k ns := by
  induction ns generalizing k with
  | nil => rfl
  | cons n ns ih =>
    rw [List.map_cons, statementLines, statementLines, Node.statementCode, Node.statementCode,
      Node.code_rename, Node.isResult_rename, ih]
    rfl

/-- A renamed program has the same assembly, as long as no comments show the names. -/
theorem Program.assembly_rename (p : Program) (frameSize : Int) :
    (p.rename f).assembly frameSize false = p.assembly frameSize false := by
  rw [assembly, assembly, rename, statementLines_rename, List.isEmpty_map]

/-! ### Renamed tables -/

/-- A table with other names in its slots. -/
def SlotTable.rename (f : String → String) (t : SlotTable) : SlotTable :=
  { t with slots := t.slots.map fun slot => ⟨f slot.name, slot.offset⟩ }

namespace SlotTable

/-- What a request leaves, with other names in the table. -/
def renameIn (f : String → String) :
    EStateM.Result Diagnostic SlotTable Nat → EStateM.Result Diagnostic SlotTable Nat
  | .ok offset t => .ok offset (t.rename f)
  | .error d t => .error d (t.rename f)

variable (t : SlotTable) (x : String)

@[simp] theorem capacity_rename : (t.rename f).capacity = t.capacity := rfl

@[simp] theorem size_rename : (t.rename f).size = t.size := List.length_map _

@[simp] theorem nextOffset_rename : (t.rename f).nextOffset = t.nextOffset := rfl

theorem allocate_rename : (t.rename f).allocate (f x) = (t.allocate x).rename f := by
  simp [allocate, rename, nextOffset]

variable (hf : Function.Injective f)
include hf

theorem lookup?_rename : (t.rename f).lookup? (f x) =
    (t.lookup? x).map fun slot => ⟨f slot.name, slot.offset⟩ := by
  rw [lookup?, lookup?, rename, List.find?_map]
  congr 2
  funext slot
  simp [hf.eq_iff]

/-- A renamed table has the same slot for a renamed name. -/
theorem resolve_rename (l : Option Location) (line : Option String) :
    resolve (f x) l line (t.rename f) = renameIn f (resolve x l line t) := by
  have hlookup := lookup?_rename t x hf
  cases hx : t.lookup? x with
  | some slot =>
    rw [hx] at hlookup
    rw [resolve_of_some hx, resolve_of_some hlookup]
    rfl
  | none =>
    rw [hx] at hlookup
    rw [resolve_of_none hx, resolve_of_none hlookup, capacity_rename, size_rename]
    split
    · rfl
    · rw [nextOffset_rename, allocate_rename]
      rfl

end SlotTable

/-! ### Renamed tokens -/

/-- A token with another name, in its value and in its text. Tokens without a name stay. -/
def Token.rename (f : String → String) (t : Token) : Token :=
  match t.lexeme with
  | .identifier x => ⟨.identifier (f x), f t.text, t.location⟩
  | _ => t

@[simp] theorem Token.kind_rename (t : Token) : (t.rename f).kind = t.kind := by
  cases h : t.lexeme <;> simp [rename, h, kind, Lexeme.kind]

@[simp] theorem Token.isEnd_rename (t : Token) : (t.rename f).isEnd = t.isEnd := by
  rw [isEnd, isEnd, kind_rename]

@[simp] theorem Token.location_rename (t : Token) : (t.rename f).location = t.location := by
  rw [rename]
  split <;> rfl

theorem terminated_map_rename (tokens : List Token) :
    Terminated (tokens.map (Token.rename f)) = Terminated tokens := by
  rw [Terminated, Terminated, List.getLast?_map, Option.any_map]
  congr 1
  funext t
  exact t.isEnd_rename

/-- A stream of renamed tokens. -/
def TokenStream.rename (f : String → String) (s : TokenStream) : TokenStream :=
  ⟨s.head.rename f, s.tail.map (Token.rename f)⟩

@[simp] theorem TokenStream.length_rename (s : TokenStream) : (s.rename f).length = s.length := by
  rw [length, rename, List.length_map, length]

theorem TokenStream.advance_rename (s : TokenStream) :
    (s.rename f).advance = s.advance.rename f := by
  have hend : (s.rename f).head.isEnd = s.head.isEnd := s.head.isEnd_rename
  rw [advance, advance, hend]
  split
  · rfl
  · cases hs : s.tail <;> simp [rename, hs]

/-- A state of a parse with other names, in the tokens to come and in the table. -/
def ParseState.rename (f : String → String) (s : ParseState) : ParseState :=
  ⟨s.input.rename f, s.slots.rename f⟩

@[simp] theorem ParseState.head_rename (s : ParseState) :
    (s.rename f).input.head = s.input.head.rename f := rfl

theorem ParseState.next_rename (s : ParseState) : (s.rename f).next = s.next.rename f := by
  rw [next, rename, TokenStream.advance_rename]
  rfl

/-! ### Parses of renamed tokens -/

/-- Diagnostics at the same place for causes that differ in the token found at most. -/
structure SameReport (d₁ d₂ : Diagnostic) : Prop where
  cause : d₁.cause.withoutFound = d₂.cause.withoutFound
  location : d₁.location = d₂.location

theorem sameReport_failure {o₁ o₂ : ParseSettings} (t : Token) {c₁ c₂ : Cause}
    (h : c₁.withoutFound = c₂.withoutFound) :
    SameReport (Parallel.failure o₁ t c₁) (Parallel.failure o₂ (t.rename f) c₂) :=
  ⟨h, congrArg some t.location_rename.symm⟩

/-- A parse beside the one of the renamed tokens. -/
def renamed (f : String → String) : Parallel where
  states s₁ s₂ := s₂ = s₁.rename f
  trees e₁ e₂ := e₂ = e₁.rename f
  diagnostics := SameReport
  early _ _ := False

section Renamed

variable {o₁ o₂ : ParseSettings} (hf : Function.Injective f)
include hf

/-- A renamed name has the same slot, or too many stand before it in both parses. -/
theorem renamed_readName (t : Token) (x : String) (s : ParseState) :
    (renamed f).Ends (renamed f).trees (Parallel.readName o₁ t x s)
      (Parallel.readName o₂ (t.rename f) (f x) (s.rename f)) := by
  have hr₂ := s.slots.resolve_rename x hf (some (t.rename f).location)
    (Text.lineAt? o₂.sourceLines (t.rename f).location.line)
  cases hr : SlotTable.resolve x (some t.location) (Text.lineAt? o₁.sourceLines t.location.line)
      s.slots with
  | ok offset slots =>
    rw [SlotTable.resolve_of_ok hr] at hr₂
    rw [Parallel.readName_of_ok hr, Parallel.readName_of_ok hr₂, Token.location_rename]
    exact .ok rfl rfl
  | error d slots =>
    obtain ⟨rfl, rfl⟩ := SlotTable.resolve_error hr
    rw [SlotTable.resolve_of_error hr] at hr₂
    rw [Parallel.readName_of_error hr, Parallel.readName_of_error hr₂, Token.location_rename]
    exact .error ⟨rfl, rfl⟩ rfl

theorem lawful_renamed : (renamed f).Lawful o₁ o₂ where
  length := by
    rintro s₁ _ rfl
    exact s₁.input.length_rename.symm
  kind := by
    rintro s₁ _ rfl
    exact s₁.input.head.kind_rename.symm
  next := by
    rintro s₁ _ rfl - -
    exact s₁.next_rename
  number := by
    rintro s₁ _ v₁ v₂ rfl h₁ h₂
    obtain rfl : v₁ = v₂ := by simpa [Token.rename, h₁] using h₂
    simp [renamed, Node.rename]
  name := by
    rintro s₁ _ x₁ x₂ rfl h₁ h₂
    obtain rfl : f x₁ = x₂ := by simpa [Token.rename, h₁] using h₂
    rw [s₁.next_rename]
    exact renamed_readName hf s₁.input.head x₁ s₁.next
  minus := by
    rintro s₁ _ e₁ _ rfl rfl
    simp [renamed, Node.rename]
  join := by
    rintro e₁ _ e₁' _ j rfl rfl
    cases hj : j.exchanged <;> simp [renamed, Join.node, hj, Node.rename]
  assign := by
    rintro e₁ _ e₁' _ rfl rfl
    simp [renamed, Node.rename]
  result := by
    rintro s₁ _ e₁ _ rfl rfl
    simp [renamed, Node.rename]
  isVariable := by
    rintro e₁ _ rfl
    exact e₁.isVariable_rename.symm
  missingToken := by
    rintro s₁ _ description rfl
    exact sameReport_failure s₁.input.head rfl
  missingOperand := by
    rintro s₁ _ rfl
    exact sameReport_failure s₁.input.head rfl
  target := by
    rintro e₁ _ rfl
    exact ⟨rfl, e₁.location_rename.symm⟩
  early_terminated := False.elim
  early_suffix := fun h _ => h

end Renamed

theorem eq_map_rename_of_forall₂ {ns ms : List Node}
    (h : List.Forall₂ (renamed f).trees ns ms) : ms = ns.map (Node.rename f) := by
  induction h with
  | nil => rfl
  | cons hn _ ih => rw [List.map_cons, ← ih, hn]

/-- A parse of renamed tokens ends as the renamed parse does. -/
theorem parseTokens_rename (hf : Function.Injective f) {tokens : List Token}
    (hend : Terminated tokens = true) (lines₁ lines₂ : List String) (m : Int) (table : SlotTable) :
    let parsed₁ := parseTokens ⟨lines₁, m⟩ table tokens
    let parsed₂ := parseTokens ⟨lines₂, m⟩ (table.rename f) (tokens.map (Token.rename f))
    parsed₂.slots = parsed₁.slots.rename f ∧
    ((∃ P, parsed₁.outcome = .ok P ∧ parsed₂.outcome = .ok (P.rename f)) ∨
    ∃ d₁ d₂, parsed₁.outcome = .error (.diagnostic d₁) ∧
      parsed₂.outcome = .error (.diagnostic d₂) ∧ SameReport d₁ d₂) := by
  obtain ⟨input, rfl⟩ := TokenStream.exists_of_terminated hend
  have hend₂ : Terminated (input.rename f).toList = true := by
    rwa [← terminated_map_rename (f := f)] at hend
  have hP : (renamed f).Lawful ⟨lines₁, m⟩ ⟨lines₂, m⟩ := lawful_renamed hf
  have hlimit {s₁ s₂ : ParseState} (h : s₂ = s₁.rename f) : SameReport
      (Parallel.failure ⟨lines₁, m⟩ s₁.input.head (.tooMany (some "statements") (some m)))
      (Parallel.failure ⟨lines₂, m⟩ s₂.input.head (.tooMany (some "statements") (some m))) := by
    subst h
    exact sameReport_failure s₁.input.head rfl
  have hends := hP.statementsWithin rfl hlimit input.length 0 ⟨input, table⟩
    ⟨input.rename f, table.rename f⟩ rfl
  rw [show input.toList.map (Token.rename f) = (input.rename f).toList from rfl]
  dsimp only
  generalize hx₁ : Grammar.statementsWithin ⟨lines₁, m⟩ input.length 0 _ = x₁ at hends
  generalize hx₂ : Grammar.statementsWithin ⟨lines₂, m⟩ input.length 0 _ = x₂ at hends
  rw [← input.length_rename (f := f)] at hx₂
  cases hends with
  | ok h hs =>
    rw [parseTokens_of_ok hend hx₁, parseTokens_of_ok hend₂ hx₂, eq_map_rename_of_forall₂ h]
    refine ⟨congrArg ParseState.slots hs, .inl ⟨_, rfl, ?_⟩⟩
    rw [Program.rename, TokenStream.rename, Token.location_rename]
  | error h hs =>
    rw [parseTokens_of_error hend hx₁, parseTokens_of_error hend₂ hx₂]
    exact ⟨congrArg ParseState.slots hs, .inr ⟨_, _, rfl, rfl, h⟩⟩
  | early h => exact h.elim

/-- Renaming variables never changes the code. With names that are kept apart, renamed tokens make a
program if and only if the tokens do: the same program with the names renamed, in the same slots,
with the same assembly in any frame. Otherwise both fail at the same place and for the same cause,
up to the token that is quoted as found. -/
theorem parse_and_assembly_of_renamed {f : String → String} (hf : Function.Injective f)
    {tokens : List Token} (hend : Terminated tokens = true) (lines₁ lines₂ : List String) (m : Int)
    (wordSize capacity : Nat) :
    let parsed₁ := parseTokens ⟨lines₁, m⟩ ⟨wordSize, capacity, [], 0⟩ tokens
    let parsed₂ :=
      parseTokens ⟨lines₂, m⟩ ⟨wordSize, capacity, [], 0⟩ (tokens.map (Token.rename f))
    parsed₂.slots = parsed₁.slots.rename f ∧
    ((∃ P, parsed₁.outcome = .ok P ∧ parsed₂.outcome = .ok (P.rename f) ∧
      ∀ frameSize, ∃ lines, P.assembly frameSize false = .ok lines ∧
        (P.rename f).assembly frameSize false = .ok lines) ∨
    ∃ d₁ d₂, parsed₁.outcome = .error (.diagnostic d₁) ∧
      parsed₂.outcome = .error (.diagnostic d₂) ∧ SameReport d₁ d₂) := by
  obtain ⟨hslots, ⟨P, h₁, h₂⟩ | hfails⟩ :=
    parseTokens_rename hf hend lines₁ lines₂ m ⟨wordSize, capacity, [], 0⟩
  · refine ⟨hslots, .inl ⟨P, h₁, h₂, fun frameSize => ?_⟩⟩
    obtain ⟨lines, hlines⟩ :=
      Program.exists_assembly (isStatement_of_parseTokens h₁) frameSize false
    exact ⟨lines, hlines, (P.assembly_rename frameSize).trans hlines⟩
  · exact ⟨hslots, .inr hfails⟩

/-- A name and the word that ends a program, exchanged. The program has the same code in a table
with room for two names, and both stop at the second name in a table with room for one. -/
theorem parse_and_assembly_of_renamed_keyword :
    let f := Equiv.swap "x" "return"
    let s : Source := ⟨none, "x = 1; return x + y"⟩
    let parse (capacity : Nat) (tokens : List Token) :=
      (parseTokens ⟨s.lines, 5⟩ ⟨8, capacity, [], 0⟩ tokens).outcome
    Function.Injective f ∧ ∃ tokens, s.tokens = .ok tokens ∧ Terminated tokens = true ∧
      (∃ P lines, parse 2 tokens = .ok P ∧
        parse 2 (tokens.map (Token.rename f)) = .ok (P.rename f) ∧
        P.assembly 16 false = .ok lines ∧ (P.rename f).assembly 16 false = .ok lines) ∧
      ∃ d₁ d₂, parse 1 tokens = .error (.diagnostic d₁) ∧
        parse 1 (tokens.map (Token.rename f)) = .error (.diagnostic d₂) ∧ SameReport d₁ d₂ := by
  intro f s parse
  have hf : Function.Injective f := f.injective
  obtain ⟨tokens, ht, htest⟩ := exists_of_any_toOption
    (show s.tokens.toOption.any (fun tokens => decide (Terminated tokens = true ∧
      (parse 2 tokens).toOption.isSome = true ∧ (parse 1 tokens).toOption.isNone = true)) = true by
        decide +kernel)
  obtain ⟨hend, hparses, hfull⟩ := of_decide_eq_true htest
  refine ⟨hf, tokens, ht, hend, ?_, ?_⟩
  · obtain ⟨-, ⟨P, h₁, h₂, hassembly⟩ | ⟨d₁, d₂, h₁, -⟩⟩ :=
      parse_and_assembly_of_renamed hf hend s.lines s.lines 5 8 2
    · obtain ⟨lines, hlines⟩ := hassembly 16
      exact ⟨P, lines, h₁, h₂, hlines⟩
    · rw [show parse 2 tokens = .error (.diagnostic d₁) from h₁] at hparses
      cases hparses
  · obtain ⟨-, ⟨P, h₁, -⟩ | hfails⟩ :=
      parse_and_assembly_of_renamed hf hend s.lines s.lines 5 8 1
    · rw [show parse 1 tokens = .ok P from h₁] at hfull
      cases hfull
    · exact hfails

end WordLang
