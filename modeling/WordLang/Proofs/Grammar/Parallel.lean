import WordLang.Proofs.Grammar.ViablePrefix

/-! Two parses side by side. If their states correspond at every token that is read, then so do the
trees that they return and the diagnostics with which they fail; the first may besides fail by
itself, where the second goes on. -/
namespace WordLang

theorem Token.exists_number {t : Token} (h : t.kind = .number) : ∃ v, t.lexeme = .number v := by
  rw [Token.kind] at h
  cases hl : t.lexeme with
  | number v => exact ⟨v, rfl⟩
  | _ => rw [hl] at h; cases h

variable {α β γ δ : Type}

/-- How two parses correspond: in their states, in the trees that they return, and in the
diagnostics that they fail with; and with which diagnostic the first may fail by itself, by the time
that the second has come to a state. -/
structure Parallel where
  states : ParseState → ParseState → Prop
  trees : Node → Node → Prop
  diagnostics : Diagnostic → Diagnostic → Prop
  early : Diagnostic → ParseState → Prop

namespace Parallel

/-- Two ends of rules that correspond. -/
inductive Ends (P : Parallel) (A : α → β → Prop) :
    EStateM.Result Diagnostic ParseState α → EStateM.Result Diagnostic ParseState β → Prop
  | ok {a : α} {b : β} {s₁ s₂ : ParseState} (h : A a b) (hs : P.states s₁ s₂) :
      Ends P A (.ok a s₁) (.ok b s₂)
  | error {d₁ d₂ : Diagnostic} {s₁ s₂ : ParseState} (h : P.diagnostics d₁ d₂)
      (hs : P.states s₁ s₂) : Ends P A (.error d₁ s₁) (.error d₂ s₂)
  | early {d : Diagnostic} {s₁ : ParseState} {x : EStateM.Result Diagnostic ParseState β}
      (h : P.early d (finalState x)) : Ends P A (.error d s₁) x

/-- Two rules that correspond. -/
def Couples (P : Parallel) (A : α → β → Prop) (r₁ : Parse α) (r₂ : Parse β) : Prop :=
  ∀ s₁ s₂, P.states s₁ s₂ → P.Ends A (r₁ s₁) (r₂ s₂)

/-- The diagnostic with which a rule fails at a token. -/
def failure (o : ParseSettings) (t : Token) (cause : Cause) : Diagnostic :=
  ⟨cause, some t.location, Text.lineAt? o.sourceLines t.location.line⟩

/-- The rule for a name that was read. -/
def readName (o : ParseSettings) (t : Token) (x : String) : Parse Node := do
  let offset ← Parse.resolve o t x
  pure (.var x offset (some t.location))

section ReadName

variable {o : ParseSettings} {t : Token} {x : String} {s : ParseState}

theorem readName_of_ok {offset : Nat} {slots : SlotTable}
    (h : SlotTable.resolve x (some t.location) (Text.lineAt? o.sourceLines t.location.line)
      s.slots = .ok offset slots) :
    readName o t x s = .ok (.var x offset (some t.location)) ⟨s.input, slots⟩ := by
  have hr : Parse.resolve o t x s = .ok offset ⟨s.input, slots⟩ := by rw [Parse.resolve, h]
  exact bind_of_ok hr _

theorem readName_of_error {d : Diagnostic}
    (h : SlotTable.resolve x (some t.location) (Text.lineAt? o.sourceLines t.location.line)
      s.slots = .error d s.slots) : readName o t x s = .error d s := by
  have hr : Parse.resolve o t x s = .error d s := by rw [Parse.resolve, h]
  exact bind_of_error hr _

end ReadName

/-- Two parses that correspond token by token: what they do with a single token, and what they make
of parts that correspond. -/
structure Lawful (P : Parallel) (o₁ o₂ : ParseSettings) : Prop where
  length : ∀ {s₁ s₂}, P.states s₁ s₂ → s₁.input.length = s₂.input.length
  kind : ∀ {s₁ s₂}, P.states s₁ s₂ → s₁.input.head.kind = s₂.input.head.kind
  next : ∀ {s₁ s₂}, P.states s₁ s₂ → s₁.input.head.isEnd = false → s₁.input.head.name? = none →
    P.states s₁.next s₂.next
  number : ∀ {s₁ s₂ v₁ v₂}, P.states s₁ s₂ → s₁.input.head.lexeme = .number v₁ →
    s₂.input.head.lexeme = .number v₂ →
    P.trees (.number v₁ (some s₁.input.head.location)) (.number v₂ (some s₂.input.head.location))
  name : ∀ {s₁ s₂ x₁ x₂}, P.states s₁ s₂ → s₁.input.head.lexeme = .identifier x₁ →
    s₂.input.head.lexeme = .identifier x₂ →
    P.Ends P.trees (readName o₁ s₁.input.head x₁ s₁.next) (readName o₂ s₂.input.head x₂ s₂.next)
  minus : ∀ {s₁ s₂ e₁ e₂}, P.states s₁ s₂ → P.trees e₁ e₂ →
    P.trees
      (.binary .sub (.number 0 (some s₁.input.head.location)) e₁ (some s₁.input.head.location))
      (.binary .sub (.number 0 (some s₂.input.head.location)) e₂ (some s₂.input.head.location))
  join : ∀ {e₁ e₂ e₁' e₂'} (j : Join), P.trees e₁ e₂ → P.trees e₁' e₂' →
    P.trees (j.node e₁ e₁') (j.node e₂ e₂')
  assign : ∀ {e₁ e₂ e₁' e₂'}, P.trees e₁ e₂ → P.trees e₁' e₂' →
    P.trees (.assign e₁ e₁' e₁.location) (.assign e₂ e₂' e₂.location)
  result : ∀ {s₁ s₂ e₁ e₂}, P.states s₁ s₂ → P.trees e₁ e₂ →
    P.trees (.result e₁ (some s₁.input.head.location)) (.result e₂ (some s₂.input.head.location))
  isVariable : ∀ {e₁ e₂}, P.trees e₁ e₂ → e₁.isVariable = e₂.isVariable
  missingToken : ∀ {s₁ s₂} (description : String), P.states s₁ s₂ → P.diagnostics
    (failure o₁ s₁.input.head (.missingToken (some description) (some s₁.input.head.describe)))
    (failure o₂ s₂.input.head (.missingToken (some description) (some s₂.input.head.describe)))
  missingOperand : ∀ {s₁ s₂}, P.states s₁ s₂ → P.diagnostics
    (failure o₁ s₁.input.head (.missingOperand (some s₁.input.head.describe)))
    (failure o₂ s₂.input.head (.missingOperand (some s₂.input.head.describe)))
  target : ∀ {e₁ e₂}, P.trees e₁ e₂ → P.diagnostics
    ⟨.targetNotVariable, e₁.location, e₁.location.bind fun l => Text.lineAt? o₁.sourceLines l.line⟩
    ⟨.targetNotVariable, e₂.location, e₂.location.bind fun l => Text.lineAt? o₂.sourceLines l.line⟩
  early_terminated : ∀ {d s}, P.early d s → Terminated s.input.toList
  early_suffix : ∀ {d s s'}, P.early d s → s'.input.toList <:+ s.input.toList → P.early d s'

/-! ### Sequences -/

variable {P : Parallel} {o₁ o₂ : ParseSettings} {A : α → β → Prop} {B : γ → δ → Prop}

theorem couples_pure {a : α} {b : β} (h : A a b) : P.Couples A (pure a) (pure b) :=
  fun _ _ hs => .ok h hs

section Lawful

variable (hP : P.Lawful o₁ o₂)
include hP

/-- Rules that follow each other. A failure of the first parse by itself stays one, as the second
only goes on. -/
theorem Lawful.bind {m₁ : Parse α} {m₂ : Parse β} {f₁ : α → Parse γ} {f₂ : β → Parse δ}
    (hm : P.Couples A m₁ m₂) (hf : ∀ a b, A a b → P.Couples B (f₁ a) (f₂ b))
    (hc : ∀ b, Consumes (f₂ b)) : P.Couples B (m₁ >>= f₁) (m₂ >>= f₂) := by
  intro s₁ s₂ hs
  have hends := hm s₁ s₂ hs
  generalize hx₁ : m₁ s₁ = x₁ at hends
  generalize hx₂ : m₂ s₂ = x₂ at hends
  cases hends with
  | @ok a b t₁ t₂ h ht =>
    rw [bind_of_ok hx₁, bind_of_ok hx₂]
    exact hf a b h t₁ t₂ ht
  | error h ht =>
    rw [bind_of_error hx₁, bind_of_error hx₂]
    exact .error h ht
  | early h =>
    rw [bind_of_error hx₁]
    refine .early ?_
    cases x₂ with
    | ok b t₂ =>
      rw [bind_of_ok hx₂]
      exact hP.early_suffix h (hc b _ (hP.early_terminated h))
    | error d₂ t₂ =>
      rw [bind_of_error hx₂]
      exact h

theorem Lawful.map {m₁ : Parse α} {m₂ : Parse β} {g₁ : α → γ} {g₂ : β → δ}
    (hm : P.Couples A m₁ m₂) (hg : ∀ a b, A a b → B (g₁ a) (g₂ b)) :
    P.Couples B (m₁ >>= fun a => pure (g₁ a)) (m₂ >>= fun b => pure (g₂ b)) :=
  hP.bind hm (fun a b h => couples_pure (hg a b h)) fun _ => consumes_pure _

/-! ### Single tokens -/

variable {s₁ s₂ : ParseState} {m : Mark}

theorem Lawful.kind_eq (hs : P.states s₁ s₂) {k : Kind} (h : s₁.input.head.kind = k) :
    s₂.input.head.kind = k := (hP.kind hs).symm.trans h

theorem Lawful.kind_ne (hs : P.states s₁ s₂) {k : Kind} (h : s₁.input.head.kind ≠ k) :
    s₂.input.head.kind ≠ k := fun h₂ => h ((hP.kind hs).trans h₂)

theorem Lawful.isEnd_eq (hs : P.states s₁ s₂) : s₂.input.head.isEnd = s₁.input.head.isEnd := by
  rw [Token.isEnd, Token.isEnd, hP.kind hs]

theorem Lawful.next_of_mark (hs : P.states s₁ s₂) (hm : s₁.input.head.kind = .mark m) :
    P.states s₁.next s₂.next :=
  hP.next hs (Token.isEnd_of_mark hm) (Token.name?_of_mark hm)

theorem Lawful.expect (m : Mark) (description : String) :
    P.Couples (fun _ _ => True) (Parse.expect o₁ m description)
      (Parse.expect o₂ m description) := by
  intro s₁ s₂ hs
  by_cases hm : s₁.input.head.kind = .mark m
  · rw [expect_of_kind hm, expect_of_kind (hP.kind_eq hs hm)]
    exact .ok trivial (hP.next_of_mark hs hm)
  · rw [expect_of_ne hm, expect_of_ne (hP.kind_ne hs hm)]
    exact .error (hP.missingToken description hs) hs

/-! ### Operands -/

variable {inner₁ inner₂ : Parse Node}

theorem Lawful.parens (hi : P.Couples P.trees inner₁ inner₂) : P.Couples P.trees
    (do let e ← inner₁; Parse.expect o₁ .closeParen "')'"; pure e)
    (do let e ← inner₂; Parse.expect o₂ .closeParen "')'"; pure e) :=
  hP.bind hi (fun _ _ he => hP.map (hP.expect _ _) fun _ _ _ => he)
    fun e => sound_expect.consumes.bind fun _ => consumes_pure e

theorem Lawful.primary (hi : P.Couples P.trees inner₁ inner₂) :
    P.Couples P.trees (Grammar.primary o₁ inner₁) (Grammar.primary o₂ inner₂) := by
  intro s₁ s₂ hs
  have hkind := hP.kind hs
  by_cases hnumber : s₁.input.head.kind = .number
  · obtain ⟨v₁, h₁⟩ := Token.exists_number hnumber
    obtain ⟨v₂, h₂⟩ := Token.exists_number (hP.kind_eq hs hnumber)
    rw [primary_of_number h₁, primary_of_number h₂]
    refine .ok (hP.number hs h₁ h₂) (hP.next hs (Token.isEnd_of_number h₁) ?_)
    rw [Token.name?, h₁]
  by_cases hname : s₁.input.head.kind = .identifier
  · obtain ⟨x₁, h₁⟩ := Token.exists_identifier hname
    obtain ⟨x₂, h₂⟩ := Token.exists_identifier (hP.kind_eq hs hname)
    rw [primary_of_identifier h₁, primary_of_identifier h₂]
    exact hP.name hs h₁ h₂
  by_cases hparen : s₁.input.head.kind = .mark .openParen
  · rw [primary_of_openParen hparen, primary_of_openParen (hP.kind_eq hs hparen)]
    exact hP.parens hi _ _ (hP.next_of_mark hs hparen)
  · rw [primary_of_other hnumber hname hparen, primary_of_other (hP.kind_ne hs hnumber)
      (hP.kind_ne hs hname) (hP.kind_ne hs hparen)]
    exact .error (hP.missingOperand hs) hs

theorem Lawful.unary (hi : P.Couples P.trees inner₁ inner₂) :
    P.Couples P.trees (Grammar.unary o₁ inner₁) (Grammar.unary o₂ inner₂) := by
  intro s₁ s₂ hs
  have hp : P.Couples P.trees (Grammar.primary o₁ inner₁) (Grammar.primary o₂ inner₂) :=
    hP.primary hi
  by_cases hplus : s₁.input.head.kind = .mark .plus
  · rw [unary_of_plus hplus, unary_of_plus (hP.kind_eq hs hplus)]
    exact hp _ _ (hP.next_of_mark hs hplus)
  by_cases hminus : s₁.input.head.kind = .mark .minus
  · rw [unary_of_minus hminus, unary_of_minus (hP.kind_eq hs hminus)]
    exact hP.map hp (fun _ _ he => hP.minus hs he) _ _ (hP.next_of_mark hs hminus)
  · rw [unary_of_other hplus hminus, unary_of_other (hP.kind_ne hs hplus) (hP.kind_ne hs hminus)]
    exact hp _ _ hs

/-! ### Levels -/

section Levels

variable {level : Mark → Option Join} {n below : Nonterminal} {operand₁ operand₂ : Parse Node}
  (hn : Operands n below) (hf : Follows level n)
  (hs : Sound false (fun σ => Derives σ below) operand₂)
  (ho : P.Couples P.trees operand₁ operand₂)
include hn hf hs ho

theorem Lawful.chainFrom (fuel : Nat) {e₁ e₂ : Node} (he : P.trees e₁ e₂) :
    P.Couples P.trees (Grammar.chainFrom level operand₁ fuel e₁)
      (Grammar.chainFrom level operand₂ fuel e₂) := by
  induction fuel generalizing e₁ e₂ with
  | zero => exact couples_pure he
  | succ fuel ih =>
    intro s₁ s₂ hst
    cases hjoin : s₁.input.head.kind.join? level with
    | none =>
      rw [chainFrom_of_none hjoin, chainFrom_of_none (hP.kind hst ▸ hjoin)]
      exact .ok he hst
    | some j =>
      obtain ⟨m, hm, -⟩ := Kind.exists_mark_of_join? hjoin
      rw [chainFrom_of_some hjoin, chainFrom_of_some (hP.kind hst ▸ hjoin)]
      refine hP.bind ho (fun e₁' e₂' he' => ih (hP.join j he he')) (fun e => ?_) _ _
        (hP.next_of_mark hst hm)
      exact (sound_chainFrom hn hf hs fuel _).consumes

theorem Lawful.chain : P.Couples P.trees (Grammar.chain level operand₁)
    (Grammar.chain level operand₂) := by
  intro s₁ s₂ hst
  rw [chain_eq, chain_eq, hP.length hst]
  exact hP.bind ho (fun _ _ he => hP.chainFrom hn hf hs ho _ he)
    (fun e => (sound_chainFrom hn hf hs _ e).consumes) s₁ s₂ hst

end Levels

/-! ### Expressions -/

section Expressions

variable (hi : P.Couples P.trees inner₁ inner₂)
include hi

theorem Lawful.equality (hs : Sound true (fun σ => Derives σ .expression) inner₂) :
    P.Couples P.trees (Grammar.equality o₁ inner₁) (Grammar.equality o₂ inner₂) := by
  have hterm : P.Couples P.trees (Grammar.term o₁ inner₁) (Grammar.term o₂ inner₂) :=
    hP.chain .term follows_multiplicative (sound_unary hs) (hP.unary hi)
  have hadditive : P.Couples P.trees (Grammar.additive o₁ inner₁) (Grammar.additive o₂ inner₂) :=
    hP.chain .additive follows_additive (sound_term hs) hterm
  have hrelational : P.Couples P.trees (Grammar.relational o₁ inner₁)
      (Grammar.relational o₂ inner₂) :=
    hP.chain .relational follows_relational (sound_additive hs) hadditive
  exact hP.chain .equality follows_equality (sound_relational hs) hrelational

theorem Lawful.afterTarget {e₁ e₂ : Node} (he : P.trees e₁ e₂) :
    P.Couples P.trees (Grammar.afterTarget o₁ inner₁ e₁) (Grammar.afterTarget o₂ inner₂ e₂) := by
  intro s₁ s₂ hst
  by_cases hm : s₁.input.head.kind = .mark .assign
  · have hm₂ := hP.kind_eq hst hm
    have hnext := hP.next_of_mark hst hm
    cases hv : e₁.isVariable with
    | true =>
      rw [afterTarget_of_variable hm hv, afterTarget_of_variable hm₂ (hP.isVariable he ▸ hv)]
      exact hP.map hi (fun _ _ hvalue => hP.assign he hvalue) _ _ hnext
    | false =>
      rw [afterTarget_of_not_variable hm hv,
        afterTarget_of_not_variable hm₂ (hP.isVariable he ▸ hv)]
      exact .error (hP.target he) hnext
  · rw [afterTarget_of_ne hm, afterTarget_of_ne (hP.kind_ne hst hm)]
    exact .ok he hst

theorem Lawful.assignment (hs : Sound true (fun σ => Derives σ .expression) inner₂) :
    P.Couples P.trees (Grammar.assignment o₁ inner₁) (Grammar.assignment o₂ inner₂) := by
  rw [assignment_eq, assignment_eq]
  exact hP.bind (hP.equality hi hs) (fun _ _ he => hP.afterTarget hi he) (consumes_afterTarget hs)

end Expressions

theorem Lawful.expressionWithin (n : Nat) : P.Couples P.trees (Grammar.expressionWithin o₁ n)
    (Grammar.expressionWithin o₂ n) := by
  induction n with
  | zero => exact fun s₁ s₂ hst => .error (hP.missingOperand hst) hst
  | succ n ih => exact hP.assignment ih (sound_expressionWithin n)

theorem Lawful.expression : P.Couples P.trees (Grammar.expression o₁) (Grammar.expression o₂) := by
  intro s₁ s₂ hst
  rw [expression_eq, expression_eq, hP.length hst]
  exact hP.assignment (hP.expressionWithin _) (sound_expressionWithin _) s₁ s₂ hst

/-! ### Statements -/

theorem Lawful.statement : P.Couples P.trees (Grammar.statement o₁) (Grammar.statement o₂) := by
  intro s₁ s₂ hst
  by_cases hm : s₁.input.head.kind = .mark .keywordReturn
  · rw [statement_of_return hm, statement_of_return (hP.kind_eq hst hm)]
    exact hP.map hP.expression (fun _ _ he => hP.result hst he) _ _ (hP.next_of_mark hst hm)
  · rw [statement_of_other hm, statement_of_other (hP.kind_ne hst hm)]
    exact hP.expression s₁ s₂ hst

theorem Lawful.afterStatement {fuel count : Nat} {e₁ e₂ : Node} (he : P.trees e₁ e₂)
    (hrest : P.Couples (List.Forall₂ P.trees) (Grammar.statementsWithin o₁ fuel (count + 1))
      (Grammar.statementsWithin o₂ fuel (count + 1))) :
    P.Couples (List.Forall₂ P.trees) (afterStatement o₁ fuel count e₁)
      (afterStatement o₂ fuel count e₂) := by
  intro s₁ s₂ hst
  have hisEnd := hP.isEnd_eq hst
  cases hend : s₁.input.head.isEnd with
  | true =>
    rw [afterStatement_of_isEnd _ _ _ hend, afterStatement_of_isEnd _ _ _ (hisEnd.trans hend)]
    exact .ok (.cons he .nil) hst
  | false =>
    rw [afterStatement_of_not_isEnd _ _ _ hend,
      afterStatement_of_not_isEnd _ _ _ (hisEnd.trans hend)]
    refine hP.bind (hP.expect _ _) (fun _ _ _ => ?_) (fun _ => ?_) s₁ s₂ hst
    · exact hP.map hrest fun _ _ hmore => .cons he hmore
    · exact (sound_statementsWithin fuel (count + 1)).consumes.bind fun _ => consumes_pure _

/-- Statements, one after the other, within the same limit. -/
theorem Lawful.statementsWithin (hmax : o₁.maxStatements = o₂.maxStatements)
    (hlimit : ∀ {s₁ s₂}, P.states s₁ s₂ → P.diagnostics
      (failure o₁ s₁.input.head (.tooMany (some "statements") (some o₁.maxStatements)))
      (failure o₂ s₂.input.head (.tooMany (some "statements") (some o₂.maxStatements))))
    (fuel count : Nat) : P.Couples (List.Forall₂ P.trees) (Grammar.statementsWithin o₁ fuel count)
      (Grammar.statementsWithin o₂ fuel count) := by
  induction fuel generalizing count with
  | zero => exact couples_pure .nil
  | succ fuel ih =>
    intro s₁ s₂ hst
    have hisEnd := hP.isEnd_eq hst
    cases hend : s₁.input.head.isEnd with
    | true =>
      rw [statementsWithin_of_isEnd _ _ hend, statementsWithin_of_isEnd _ _ (hisEnd.trans hend)]
      exact .ok .nil hst
    | false =>
      by_cases hm : s₁.input.head.kind = .mark .semicolon
      · rw [statementsWithin_of_semicolon _ _ hm,
          statementsWithin_of_semicolon _ _ (hP.kind_eq hst hm)]
        exact ih count _ _ (hP.next_of_mark hst hm)
      rw [statementsWithin_of_statement _ _ hend hm,
        statementsWithin_of_statement _ _ (hisEnd.trans hend) (hP.kind_ne hst hm), ← hmax]
      split
      · exact .error (hmax ▸ hlimit hst) hst
      · exact hP.bind hP.statement (fun _ _ he => hP.afterStatement he (ih (count + 1)))
          (consumes_afterStatement fuel count) s₁ s₂ hst

end Lawful

end Parallel

end WordLang
