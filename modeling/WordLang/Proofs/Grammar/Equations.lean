import WordLang.Grammar
import WordLang.Proofs.Computation

/-! What the rules of the parser do, told by the current token. -/
namespace WordLang

/-- The state behind the current token. -/
def ParseState.next (s : ParseState) : ParseState := { s with input := s.input.advance }

theorem Token.isEnd_of_mark {t : Token} {m : Mark} (h : t.kind = .mark m) : t.isEnd = false := by
  rw [Token.isEnd, h]
  rfl

theorem Token.exists_lexeme_of_mark {t : Token} {m : Mark} (h : t.kind = .mark m) :
    ∃ v, t.lexeme = .mark m v := by
  rw [Token.kind] at h
  cases hl : t.lexeme with
  | mark m' v =>
    rw [hl] at h
    cases h
    exact ⟨v, rfl⟩
  | _ => rw [hl] at h; cases h

theorem Kind.exists_mark_of_join? {level : Mark → Option Join} {k : Kind} {j : Join}
    (h : k.join? level = some j) : ∃ m, k = .mark m ∧ level m = some j := by
  cases k with
  | mark m => exact ⟨m, rfl, h⟩
  | _ => cases h

variable {o : ParseSettings} {inner operand : Parse Node} {s : ParseState} {m : Mark}

/-! ### Single tokens -/

theorem current_bind {β : Type} (k : Token → Parse β) (s : ParseState) :
    (Parse.current >>= k) s = k s.input.head s := rfl

theorem expect_of_kind (h : s.input.head.kind = .mark m) (description : String) :
    Parse.expect o m description s = .ok () s.next := by
  rw [Parse.expect, current_bind, if_pos h]
  rfl

theorem expect_of_ne (h : s.input.head.kind ≠ .mark m) (description : String) :
    Parse.expect o m description s = Parse.fail o s.input.head
      (.missingToken (some description) (some s.input.head.describe)) s := by
  rw [Parse.expect, current_bind, if_neg h]

theorem accept_bind {β : Type} (m : Mark) (k : Option Token → Parse β) (s : ParseState) :
    (Parse.accept m >>= k) s =
      if s.input.head.kind = .mark m then k (some s.input.head) s.next else k none s := by
  show ((if s.input.head.kind = .mark m then _ else _ : Parse (Option Token)) >>= k) s = _
  split <;> rfl

/-! ### Operands -/

theorem primary_of_number {v : Int} (h : s.input.head.lexeme = .number v) :
    Grammar.primary o inner s = .ok (.number v (some s.input.head.location)) s.next := by
  rw [Grammar.primary, current_bind, h]
  rfl

theorem primary_of_identifier {x : String} (h : s.input.head.lexeme = .identifier x) :
    Grammar.primary o inner s = (do
      let offset ← Parse.resolve o s.input.head x
      pure (.var x offset (some s.input.head.location)) : Parse Node) s.next := by
  rw [Grammar.primary, current_bind, h]
  rfl

theorem primary_of_openParen (h : s.input.head.kind = .mark .openParen) :
    Grammar.primary o inner s = (do
      let e ← inner
      Parse.expect o .closeParen "')'"
      pure e : Parse Node) s.next := by
  obtain ⟨v, hl⟩ := Token.exists_lexeme_of_mark h
  rw [Grammar.primary, current_bind, hl]
  rfl

/-- Tokens that no operand starts with. -/
theorem primary_of_other (hn : s.input.head.kind ≠ .number) (hi : s.input.head.kind ≠ .identifier)
    (hp : s.input.head.kind ≠ .mark .openParen) :
    Grammar.primary o inner s =
      Parse.fail o s.input.head (.missingOperand (some s.input.head.describe)) s := by
  rw [Token.kind] at hn hi hp
  rw [Grammar.primary, current_bind]
  cases hl : s.input.head.lexeme with
  | number v => rw [hl] at hn; exact absurd rfl hn
  | identifier x => rw [hl] at hi; exact absurd rfl hi
  | endOfInput => rfl
  | mark m v =>
    rw [hl] at hp
    cases m with
    | openParen => exact absurd rfl hp
    | _ => rfl

theorem signed_of_plus (h : s.input.head.kind = .mark .plus) :
    Grammar.signed operand s = operand s.next := by
  obtain ⟨v, hl⟩ := Token.exists_lexeme_of_mark h
  rw [Grammar.signed, current_bind, hl]
  rfl

theorem signed_of_minus (h : s.input.head.kind = .mark .minus) :
    Grammar.signed operand s = (do
      let e ← operand
      pure (.binary .sub (.number 0 (some s.input.head.location)) e
        (some s.input.head.location)) : Parse Node) s.next := by
  obtain ⟨v, hl⟩ := Token.exists_lexeme_of_mark h
  rw [Grammar.signed, current_bind, hl]
  rfl

theorem signed_of_other (hp : s.input.head.kind ≠ .mark .plus)
    (hm : s.input.head.kind ≠ .mark .minus) : Grammar.signed operand s = operand s := by
  rw [Token.kind] at hp hm
  rw [Grammar.signed, current_bind]
  cases hl : s.input.head.lexeme with
  | mark m v =>
    rw [hl] at hp hm
    cases m with
    | plus => exact absurd rfl hp
    | minus => exact absurd rfl hm
    | _ => rfl
  | _ => rfl

theorem unary_of_plus (h : s.input.head.kind = .mark .plus) :
    Grammar.unary o inner s = Grammar.primary o inner s.next :=
  signed_of_plus h

theorem unary_of_minus (h : s.input.head.kind = .mark .minus) :
    Grammar.unary o inner s = (do
      let e ← Grammar.primary o inner
      pure (.binary .sub (.number 0 (some s.input.head.location)) e
        (some s.input.head.location)) : Parse Node) s.next :=
  signed_of_minus h

theorem unary_of_other (hp : s.input.head.kind ≠ .mark .plus)
    (hm : s.input.head.kind ≠ .mark .minus) :
    Grammar.unary o inner s = Grammar.primary o inner s :=
  signed_of_other hp hm

/-! ### Levels -/

variable {level : Mark → Option Join} {goOn : Node → Parse Node}

theorem joinNext_of_none (h : s.input.head.kind.join? level = none) (e : Node) :
    Grammar.joinNext level operand goOn e s = .ok e s := by
  rw [Grammar.joinNext, current_bind, h]
  rfl

theorem joinNext_of_some {j : Join} (h : s.input.head.kind.join? level = some j) (e : Node) :
    Grammar.joinNext level operand goOn e s =
      (operand >>= fun e' => goOn (j.node e e')) s.next := by
  rw [Grammar.joinNext, current_bind, h]
  rfl

theorem chainFrom_of_none (h : s.input.head.kind.join? level = none) (fuel : Nat) (e : Node) :
    Grammar.chainFrom level operand fuel e s = .ok e s := by
  cases fuel with
  | zero => rfl
  | succ fuel => exact joinNext_of_none h e

theorem chainFrom_of_some {j : Join} (h : s.input.head.kind.join? level = some j) (fuel : Nat)
    (e : Node) :
    Grammar.chainFrom level operand (fuel + 1) e s =
      (operand >>= fun e' => Grammar.chainFrom level operand fuel (j.node e e')) s.next :=
  joinNext_of_some h e

theorem chain_eq (s : ParseState) :
    Grammar.chain level operand s =
      (operand >>= Grammar.chainFrom level operand s.input.length) s := rfl

theorem expression_eq (s : ParseState) :
    Grammar.expression o s =
      Grammar.assignment o (Grammar.expressionWithin o s.input.length) s := rfl

theorem assignment_eq : Grammar.assignment o inner =
    (Grammar.equality o inner >>= Grammar.afterTarget o inner) := rfl

theorem afterTarget_of_ne (h : s.input.head.kind ≠ .mark .assign) (target : Node) :
    Grammar.afterTarget o inner target s = .ok target s := by
  rw [Grammar.afterTarget, accept_bind, if_neg h]
  rfl

theorem afterTarget_of_variable (h : s.input.head.kind = .mark .assign) {target : Node}
    (hv : target.isVariable = true) :
    Grammar.afterTarget o inner target s = (do
      let value ← inner
      pure (.assign target value target.location) : Parse Node) s.next := by
  rw [Grammar.afterTarget, accept_bind, if_pos h]
  simp only [hv, ↓reduceIte]

theorem afterTarget_of_not_variable (h : s.input.head.kind = .mark .assign) {target : Node}
    (hv : target.isVariable = false) :
    Grammar.afterTarget o inner target s = .error ⟨.targetNotVariable, target.location,
      target.location.bind fun l => Text.lineAt? o.sourceLines l.line⟩ s.next := by
  rw [Grammar.afterTarget, accept_bind, if_pos h]
  simp only [hv, Bool.false_eq_true, ↓reduceIte]

theorem returned_of_return (h : s.input.head.kind = .mark .keywordReturn) :
    Grammar.returned inner s = (do
      let value ← inner
      pure (.result value (some s.input.head.location)) : Parse Node) s.next := by
  rw [Grammar.returned, accept_bind, if_pos h]

theorem returned_of_other (h : s.input.head.kind ≠ .mark .keywordReturn) :
    Grammar.returned inner s = inner s := by
  rw [Grammar.returned, accept_bind, if_neg h]

theorem statement_of_return (h : s.input.head.kind = .mark .keywordReturn) :
    Grammar.statement o s = (do
      let value ← Grammar.expression o
      pure (.result value (some s.input.head.location)) : Parse Node) s.next :=
  returned_of_return h

theorem statement_of_other (h : s.input.head.kind ≠ .mark .keywordReturn) :
    Grammar.statement o s = Grammar.expression o s :=
  returned_of_other h

/-! ### Statements -/

/-- What follows a statement that was read. -/
def afterStatement (o : ParseSettings) (fuel count : Nat) (n : Node) : Parse (List Node) :=
  Grammar.separated o (Grammar.followedBy n (Grammar.statementsWithin o fuel (count + 1)))

section Separated

variable {α : Type} (rest : Parse α)

theorem separated_of_isEnd (h : s.input.head.isEnd = true) :
    Grammar.separated o rest s = rest s := by
  show (if s.input.head.isEnd then _ else _ : Parse α) s = _
  rw [if_pos h]

theorem separated_of_not_isEnd (h : s.input.head.isEnd = false) :
    Grammar.separated o rest s = (do
      Parse.expect o .semicolon "';'"
      rest : Parse α) s := by
  show (if s.input.head.isEnd then _ else _ : Parse α) s = _
  rw [if_neg (by simp [h])]

end Separated

section NextStatement

variable {α : Type} {count : Nat} {statement : Parse Node} {done skipped : Parse α}
  {goOn : Node → Parse α}

theorem nextStatement_of_isEnd (h : s.input.head.isEnd = true) :
    Grammar.nextStatement o count statement done skipped goOn s = done s := by
  rw [Grammar.nextStatement, current_bind, if_pos h]

theorem nextStatement_of_semicolon (h : s.input.head.kind = .mark .semicolon) :
    Grammar.nextStatement o count statement done skipped goOn s = skipped s.next := by
  have hh := Token.isEnd_of_mark h
  rw [Grammar.nextStatement, current_bind, if_neg (by simp [hh]), if_pos h]
  rfl

/-- Where a statement has to start, the limit comes first. -/
theorem nextStatement_of_statement (hh : s.input.head.isEnd = false)
    (hm : s.input.head.kind ≠ .mark .semicolon) :
    Grammar.nextStatement o count statement done skipped goOn s =
      (if o.maxStatements ≤ count then
        Parse.fail o s.input.head (.tooMany (some "statements") (some o.maxStatements))
      else statement >>= fun n => Grammar.separated o (goOn n) : Parse α) s := by
  rw [Grammar.nextStatement, current_bind, if_neg (by simp [hh]), if_neg hm]

end NextStatement

variable (fuel count : Nat)

theorem statementsWithin_of_isEnd (h : s.input.head.isEnd = true) :
    Grammar.statementsWithin o fuel count s = .ok [] s := by
  cases fuel with
  | zero => rfl
  | succ fuel => exact nextStatement_of_isEnd h

theorem statementsWithin_of_semicolon (h : s.input.head.kind = .mark .semicolon) :
    Grammar.statementsWithin o (fuel + 1) count s =
      Grammar.statementsWithin o fuel count s.next :=
  nextStatement_of_semicolon h

theorem statementsWithin_of_statement (hh : s.input.head.isEnd = false)
    (hm : s.input.head.kind ≠ .mark .semicolon) :
    Grammar.statementsWithin o (fuel + 1) count s =
      (if o.maxStatements ≤ count then
        Parse.fail o s.input.head (.tooMany (some "statements") (some o.maxStatements))
      else Grammar.statement o >>= afterStatement o fuel count : Parse (List Node)) s :=
  nextStatement_of_statement hh hm

variable (n : Node)

theorem afterStatement_of_isEnd (h : s.input.head.isEnd = true) :
    afterStatement o fuel count n s = .ok [n] s := by
  rw [afterStatement, separated_of_isEnd _ h]
  exact bind_of_ok (statementsWithin_of_isEnd fuel (count + 1) h) _

theorem afterStatement_of_not_isEnd (h : s.input.head.isEnd = false) :
    afterStatement o fuel count n s = (do
      Parse.expect o .semicolon "';'"
      let more ← Grammar.statementsWithin o fuel (count + 1)
      pure (n :: more) : Parse (List Node)) s :=
  separated_of_not_isEnd _ h

end WordLang
