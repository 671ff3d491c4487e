import WordLang.Proofs.Generation
import WordLang.Proofs.Grammar.Acceptance

/-! What the parser answers: a tree that has code, or an objection to one of the tokens that it was
given, at the place of that token. Derivations are no help here: a table of slots that was made by
hand need not agree with any numbering of the names, and the end of input may stand anywhere. -/
namespace WordLang

/-! ### Objections -/

/-- What the parser has to say against a token. -/
inductive Objection (t : Token) : Cause → Prop
  | closeParen : Objection t (.missingToken (some "')'") (some t.describe))
  | semicolon : Objection t (.missingToken (some "';'") (some t.describe))
  | operand : Objection t (.missingOperand (some t.describe))
  | target : Objection t .targetNotVariable
  | statementLimit (limit : Int) : Objection t (.tooMany (some "statements") (some limit))
  | variableLimit (limit : Int) : Objection t (.tooMany (some "variables") (some limit))

/-- A diagnostic objects to a token: it has the place of the token and quotes the line there. -/
structure Diagnostic.ObjectsTo (d : Diagnostic) (o : ParseSettings) (t : Token) : Prop where
  cause : Objection t d.cause
  location : d.location = some t.location
  sourceLine : d.sourceLine = Text.lineAt? o.sourceLines t.location.line

theorem Objection.isInternal_eq {t : Token} {cause : Cause} (h : Objection t cause) :
    cause.isInternal = false := by
  cases h <;> rfl

/-! ### Answers -/

/-- Given tokens of one sort, a rule returns a result that it should and leaves tokens of that sort,
or it objects to one of that sort. -/
def Answers {α : Type} (o : ParseSettings) (T : Token → Prop) (Q : α → Prop) (r : Parse α) : Prop :=
  ∀ s : ParseState, (∀ t ∈ s.input.toList, T t) →
    match r s with
    | .ok a s' => Q a ∧ ∀ t ∈ s'.input.toList, T t
    | .error d _ => ∃ t, T t ∧ d.ObjectsTo o t

variable {α β : Type} {o : ParseSettings} {T : Token → Prop} {Q : α → Prop} {R : β → Prop}

theorem answers_pure {a : α} (ha : Q a) : Answers o T Q (pure a) := fun _ hs => ⟨ha, hs⟩

theorem Answers.bind {m : Parse α} {f : α → Parse β} (hm : Answers o T Q m)
    (hf : ∀ a, Q a → Answers o T R (f a)) : Answers o T R (m >>= f) := by
  intro s hs
  have h := hm s hs
  cases hms : m s with
  | ok a s' =>
    rw [hms] at h
    rw [bind_of_ok hms]
    exact hf a h.1 s' h.2
  | error d s' =>
    rw [hms] at h
    rwa [bind_of_error hms]

theorem Answers.imp {r : Parse α} {Q' : α → Prop} (h : Answers o T Q r) (hq : ∀ a, Q a → Q' a) :
    Answers o T Q' r := by
  intro s hs
  have h := h s hs
  cases hr : r s with
  | ok a s' =>
    rw [hr] at h
    exact ⟨hq a h.1, h.2⟩
  | error d s' =>
    rwa [hr] at h

theorem answers_ite {c : Prop} [Decidable c] {r r' : Parse α} (h : c → Answers o T Q r)
    (h' : ¬c → Answers o T Q r') : Answers o T Q (if c then r else r') := by
  split
  · exact h ‹c›
  · exact h' ‹¬c›

theorem answers_fail {t : Token} {cause : Cause} (ht : T t) (hc : Objection t cause) :
    Answers o T Q (Parse.fail o t cause) := fun _ _ => ⟨t, ht, hc, rfl, rfl⟩

theorem TokenStream.head_mem_toList (s : TokenStream) : s.head ∈ s.toList := List.mem_cons_self

theorem answers_current : Answers o T T Parse.current :=
  fun s hs => ⟨hs s.input.head s.input.head_mem_toList, hs⟩

theorem TokenStream.mem_advance {s : TokenStream} {t : Token} (h : t ∈ s.advance.toList) :
    t ∈ s.toList := by
  unfold advance at h
  split at h
  · exact h
  split at h
  · exact h
  · rename_i hs
    rw [toList, hs]
    exact List.mem_cons_of_mem _ h

theorem answers_advance : Answers o T (fun _ => True) Parse.advance :=
  fun _ hs => ⟨trivial, fun t ht => hs t (TokenStream.mem_advance ht)⟩

theorem answers_atEnd : Answers o T (fun _ => True) Parse.atEnd := fun _ hs => ⟨trivial, hs⟩

theorem answers_accept (m : Mark) : Answers o T (fun _ => True) (Parse.accept m) := by
  refine answers_current.bind fun t _ => answers_ite (fun _ => ?_) fun _ => answers_pure trivial
  exact answers_advance.bind fun _ _ => answers_pure trivial

theorem answers_expect {m : Mark} {description : String}
    (h : ∀ t, Objection t (.missingToken (some description) (some t.describe))) :
    Answers o T (fun _ => True) (Parse.expect o m description) := by
  refine answers_current.bind fun t ht => answers_ite (fun _ => answers_advance) fun _ => ?_
  exact answers_fail ht (h t)

theorem answers_resolve {t : Token} (ht : T t) (x : String) :
    Answers o T (fun _ => True) (Parse.resolve o t x) := by
  intro s hs
  rw [Parse.resolve]
  cases hx : s.slots.lookup? x with
  | some slot =>
    rw [SlotTable.resolve_of_some hx]
    exact ⟨trivial, hs⟩
  | none =>
    rw [SlotTable.resolve_of_none hx]
    by_cases hfull : s.slots.capacity ≤ s.slots.size
    · rw [if_pos hfull]
      exact ⟨t, ht, .variableLimit _, rfl, rfl⟩
    · rw [if_neg hfull]
      exact ⟨trivial, hs⟩

/-! ### Rules -/

/-- An expression that starts at a token of some sort. -/
def Built (T : Token → Prop) (e : Node) : Prop :=
  e.IsExpression ∧ ∃ t, T t ∧ e.location = some t.location

variable {inner operand : Parse Node}

theorem answers_primary (hi : Answers o T (Built T) inner) :
    Answers o T (Built T) (Grammar.primary o inner) := by
  refine answers_current.bind fun t ht => ?_
  -- A parenthesis, a number, a name, or a token that no operand starts with.
  split
  · exact answers_advance.bind fun _ _ => hi.bind fun e he =>
      (answers_expect fun t => .closeParen).bind fun _ _ => answers_pure he
  · exact answers_advance.bind fun _ _ => answers_pure ⟨.number, t, ht, rfl⟩
  · exact answers_advance.bind fun _ _ => (answers_resolve ht _).bind fun _ _ =>
      answers_pure ⟨.var, t, ht, rfl⟩
  · exact answers_fail ht .operand

theorem answers_unary (hi : Answers o T (Built T) inner) :
    Answers o T (Built T) (Grammar.unary o inner) := by
  refine answers_current.bind fun t ht => ?_
  split
  · exact answers_advance.bind fun _ _ => answers_primary hi
  · exact answers_advance.bind fun _ _ => (answers_primary hi).bind fun e he =>
      answers_pure ⟨.binary (by decide) .number he.1, t, ht, rfl⟩
  · exact answers_primary hi

theorem Join.isExpression_node {j : Join} (hj : j.operator ∈ Operator.known) {e e' : Node}
    (he : e.IsExpression) (he' : e'.IsExpression) : (j.node e e').IsExpression := by
  rw [Join.node]
  split
  · exact .binary hj he' he
  · exact .binary hj he he'

theorem Join.location_node (j : Join) (e e' : Node) : (j.node e e').location = e.location := by
  rw [Join.node]
  split <;> rfl

section Levels

variable {level : Mark → Option Join}
  (hl : ∀ m j, level m = some j → j.operator ∈ Operator.known)
include hl

theorem answers_chainFrom (ho : Answers o T (Built T) operand) (fuel : Nat) {e : Node}
    (he : Built T e) : Answers o T (Built T) (Grammar.chainFrom level operand fuel e) := by
  induction fuel generalizing e with
  | zero => exact answers_pure he
  | succ fuel ih =>
    refine answers_current.bind fun t _ => ?_
    split
    · exact answers_pure he
    · rename_i j hj
      obtain ⟨m, -, hm⟩ := Kind.exists_mark_of_join? hj
      refine answers_advance.bind fun _ _ => ho.bind fun e' he' => ih ⟨?_, ?_⟩
      · exact Join.isExpression_node (hl m j hm) he.1 he'.1
      · rw [Join.location_node]
        exact he.2

theorem answers_chain (ho : Answers o T (Built T) operand) :
    Answers o T (Built T) (Grammar.chain level operand) :=
  fun s hs => (ho.bind fun _ he => answers_chainFrom hl ho s.input.length he) s hs

end Levels

theorem answers_equality (hi : Answers o T (Built T) inner) :
    Answers o T (Built T) (Grammar.equality o inner) := by
  refine answers_chain ?_ <| answers_chain ?_ <| answers_chain ?_ <| answers_chain ?_ <|
    answers_unary hi
  -- What is left is that the marks of the four levels stand for known operators.
  all_goals
    intro m j h
    cases m <;> cases h <;> decide

/-- Only a variable is assigned to, and what is no variable is objected to where it starts. -/
theorem answers_assignment (hi : Answers o T (Built T) inner) :
    Answers o T (Built T) (Grammar.assignment o inner) := by
  refine (answers_equality hi).bind fun target ht => (answers_accept .assign).bind fun r _ => ?_
  obtain ⟨t, htt, htl⟩ := ht.2
  cases r with
  | none => exact answers_pure ht
  | some _ =>
    refine answers_ite (fun hv => hi.bind fun value hvalue => answers_pure ?_) fun _ s hs => ?_
    · cases target with
      | var x offset l => exact ⟨.assign hvalue.1, t, htt, htl⟩
      | _ => cases hv
    · exact ⟨t, htt, .target, htl, by rw [htl]; rfl⟩

theorem answers_expressionWithin (n : Nat) :
    Answers o T (Built T) (Grammar.expressionWithin o n) := by
  induction n with
  | zero => exact fun s hs => ⟨s.input.head, hs _ s.input.head_mem_toList, .operand, rfl, rfl⟩
  | succ n ih => exact answers_assignment ih

theorem answers_expression : Answers o T (Built T) (Grammar.expression o) :=
  fun s hs => answers_assignment (answers_expressionWithin s.input.length) s hs

theorem answers_statement : Answers o T Node.IsStatement (Grammar.statement o) := by
  refine (answers_accept .keywordReturn).bind fun r _ => ?_
  cases r with
  | none => exact answers_expression.imp fun _ he => .expression he.1
  | some _ => exact answers_expression.bind fun _ he => answers_pure (.result he.1)

theorem answers_afterStatement {n count : Nat} {e : Node} (he : e.IsStatement)
    (hn : Answers o T (fun ns => ∀ n ∈ ns, n.IsStatement)
      (Grammar.statementsWithin o n (count + 1))) :
    Answers o T (fun ns => ∀ n ∈ ns, n.IsStatement) (afterStatement o n count e) := by
  have hrest : Answers o T (fun ns => ∀ n ∈ ns, n.IsStatement)
      (Grammar.statementsWithin o n (count + 1) >>= fun more => pure (e :: more)) :=
    hn.bind fun ns hns => answers_pure (by simpa using ⟨he, hns⟩)
  refine answers_atEnd.bind fun atEnd _ => ?_
  cases atEnd with
  | true => exact hrest
  | false => exact (answers_expect fun t => .semicolon).bind fun _ _ => hrest

theorem answers_statementsWithin (n count : Nat) :
    Answers o T (fun ns => ∀ n ∈ ns, n.IsStatement) (Grammar.statementsWithin o n count) := by
  induction n generalizing count with
  | zero => exact answers_pure (by simp)
  | succ n ih =>
    refine answers_current.bind fun t ht => ?_
    refine answers_ite (fun _ => answers_pure (by simp)) fun _ => ?_
    refine answers_ite (fun _ => answers_advance.bind fun _ _ => ih count) fun _ => ?_
    refine answers_ite (fun _ => answers_fail ht (.statementLimit _)) fun _ => ?_
    exact answers_statement.bind fun e he => answers_afterStatement he (ih (count + 1))

/-! ### Whole lists -/

section Lists

variable {table : SlotTable} {tokens : List Token}

/-- A parsed program is made of statements. -/
theorem isStatement_of_parseTokens {P : Program}
    (h : (parseTokens o table tokens).outcome = .ok P) : ∀ n ∈ P.statements, n.IsStatement := by
  obtain ⟨input, rfl, hend⟩ := exists_stream_of_parseTokens h (by simp)
  obtain ⟨s', hs', -⟩ := exists_of_parseTokens_ok hend h
  have hanswer := answers_statementsWithin (o := o) (T := (· ∈ input.toList)) input.length 0
    ⟨input, table⟩ fun _ ht => ht
  rw [hs'] at hanswer
  exact hanswer.1

/-- A diagnostic of the parser objects to one of the tokens. -/
theorem objectsTo_of_parseTokens {d : Diagnostic}
    (h : (parseTokens o table tokens).outcome = .error (.diagnostic d)) :
    ∃ t ∈ tokens, d.ObjectsTo o t := by
  obtain ⟨input, rfl, hend⟩ := exists_stream_of_parseTokens h (by simp)
  obtain ⟨s', hs'⟩ := exists_of_parseTokens_error hend h
  have hanswer := answers_statementsWithin (o := o) (T := (· ∈ input.toList)) input.length 0
    ⟨input, table⟩ fun _ ht => ht
  rw [hs'] at hanswer
  exact hanswer

end Lists

end WordLang
