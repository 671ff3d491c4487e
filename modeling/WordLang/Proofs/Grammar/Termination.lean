import WordLang.Proofs.Grammar.Acceptance
import WordLang.Proofs.Grammar.Spans

/-! The grammar as rules that call one another, with no bound on how deep they do. Every call either
goes down in the grammar or has fewer tokens left, so calls nest no deeper than the number of tokens
allows, and what the deepest of them would do never matters. Whatever a rule does, it stays within
the statement that it starts in. -/
namespace WordLang

namespace Grammar

/-! ### Calls -/

/-- What can be called: a rule, a rule of a binary level to go on behind its left part, or the rule
for programs to go on behind the statements that it has read. -/
inductive Task where
  | rule (n : Nonterminal)
  | more (n : Nonterminal) (left : Node)
  | statements (read : List Node) (start : Option Location)

/-- What a binary level joins. -/
def operandOf : Nonterminal → Nonterminal
  | .equality => .relational
  | .relational => .additive
  | .additive => .term
  | _ => .unary

/-- One rule of the grammar, given what the calls in it do. -/
def step (o : ParseSettings) (call : Task → Parse Node) : Task → Parse Node
  | .rule .primary => primary o (call (.rule .expression))
  | .rule .unary => signed (call (.rule .primary))
  | .rule .assignment => do
    let target ← call (.rule .equality)
    afterTarget o (call (.rule .assignment)) target
  | .rule .expression => call (.rule .assignment)
  | .rule .statement => returned (call (.rule .expression))
  | .rule .program => do
    let t ← Parse.current
    call (.statements [] (some t.location))
  | .rule level => do
    let left ← call (.rule (operandOf level))
    call (.more level left)
  | .more level left =>
    joinNext (levelMarks level) (call (.rule (operandOf level))) (fun e => call (.more level e)) left
  | .statements read start =>
    nextStatement o read.length (call (.rule .statement)) (pure (Program.node ⟨read, start⟩))
      (call (.statements read start)) fun n => call (.statements (read ++ [n]) start)

/-- Calls that nest no deeper than a bound. What is called beyond it may do anything. -/
def callWithin (o : ParseSettings) (beyond : Task → Parse Node) : Nat → Task → Parse Node
  | 0 => beyond
  | depth + 1 => step o (callWithin o beyond depth)

/-- How far up in the grammar a call is. -/
def Task.height : Task → Nat
  | .rule .primary | .more _ _ => 0
  | .rule .unary => 1
  | .rule .term => 2
  | .rule .additive => 3
  | .rule .relational => 4
  | .rule .equality => 5
  | .rule .assignment => 6
  | .rule .expression => 7
  | .rule .statement => 8
  | .statements _ _ => 9
  | .rule .program => 10

/-- How deep calls nest with so many tokens left. -/
def callDepth (tokens : Nat) : Nat := 11 * (tokens + 1)

/-- What a call comes to with so many tokens left. Of the bounds by which the rules are defined, any
will do that are not smaller than that. -/
inductive Task.Means (o : ParseSettings) (tokens : Nat) : Task → Parse Node → Prop
  | level {n : Nonterminal} {k : Nat} (hn : n.isExpression = true) (hk : tokens ≤ k + n.slack) :
      Means o tokens (.rule n) (levelRule o (expressionWithin o k) n)
  | more {level below : Nonterminal} {k fuel : Nat} {left : Node} (hb : Operands level below)
      (hk : tokens ≤ k + 1) (hf : tokens ≤ fuel) :
      Means o tokens (.more level left)
        (chainFrom (levelMarks level) (levelRule o (expressionWithin o k) below) fuel left)
  | statement : Means o tokens (.rule .statement) (statement o)
  | statements {read : List Node} {start : Option Location} {fuel : Nat} (hf : tokens ≤ fuel) :
      Means o tokens (.statements read start) (statementsWithin o fuel read.length >>= fun more =>
        pure (Program.node ⟨read ++ more, start⟩))
  | program : Means o tokens (.rule .program) (Program.node <$> program o)

/-! ### Single rules -/

/-- Calls come to what they mean, if they go no deeper than a bound. -/
def Faithful (o : ParseSettings) (call : Task → Parse Node) (bound : Nat) : Prop :=
  ∀ (task : Task) (s : ParseState) (r : Parse Node), Terminated s.input.toList →
    task.Means o s.input.length r → 11 * s.input.length + task.height < bound → call task s = r s

variable {o : ParseSettings} {call : Task → Parse Node} {bound k : Nat} {s s' : ParseState}
  {m : Mark} {n : Nonterminal} {e : Node}

theorem next_of_mark (hs : Terminated s.input.toList) (hm : s.input.head.kind = .mark m) :
    Terminated s.next.input.toList ∧ s.input.length = s.next.input.length + 1 := by
  have hp := (s.reads_mark hs hm).1
  have hlen := hp.length
  rw [List.length_singleton] at hlen
  exact ⟨hp.terminated hs, by omega⟩

/-- A rule that has read something leaves fewer tokens. -/
theorem lt_of_sound {D : Reading Node} {r : Parse Node} {atOnce : Bool} (h : Sound atOnce D r)
    (hD : ∀ σ p a, D σ p a → p ≠ []) (hs : Terminated s.input.toList) (hr : r s = .ok e s') :
    Terminated s'.input.toList ∧ s'.input.length < s.input.length := by
  have hsound := h s hs
  rw [SoundAt, hr] at hsound
  obtain ⟨p, hp, -, hd⟩ := hsound
  obtain ⟨σ, hσ⟩ := s'.slots.exists_resolves
  have hpos := List.length_pos_iff.mpr (hD σ p e (hd σ hσ))
  have hlen := hp.length
  exact ⟨hp.terminated hs, by omega⟩

theorem lt_of_levelRule (hn : n.isExpression = true) (hs : Terminated s.input.toList)
    (hr : levelRule o (expressionWithin o k) n s = .ok e s') :
    Terminated s'.input.toList ∧ s'.input.length < s.input.length :=
  lt_of_sound (sound_levelRule hn (sound_expressionWithin k)) (fun _ _ _ h => h.ne_nil) hs hr

section Step

variable (hc : Faithful o call bound) (hs : Terminated s.input.toList)
include hc hs

theorem step_primary (hk : s.input.length ≤ k + 1) (hd : 11 * s.input.length ≤ bound) :
    step o call (.rule .primary) s = primary o (expressionWithin o k) s := by
  rw [step]
  by_cases hm : s.input.head.kind = .mark .openParen
  · obtain ⟨hs₁, hlen⟩ := next_of_mark hs hm
    rw [primary_of_openParen hm, primary_of_openParen hm]
    refine bind_congr_at ?_ fun _ _ _ => rfl
    exact hc (.rule .expression) s.next _ hs₁ (.level rfl (show _ ≤ k by omega))
      (show 11 * _ + 7 < bound by omega)
  cases hl : s.input.head.lexeme with
  | number v => rw [primary_of_number hl, primary_of_number hl]
  | identifier x => rw [primary_of_identifier hl, primary_of_identifier hl]
  | _ =>
    have hnumber : s.input.head.kind ≠ .number := by simp [Token.kind, hl, Lexeme.kind]
    have hname : s.input.head.kind ≠ .identifier := by simp [Token.kind, hl, Lexeme.kind]
    rw [primary_of_other hnumber hname hm, primary_of_other hnumber hname hm]

theorem step_unary (hk : s.input.length ≤ k + 1) (hd : 11 * s.input.length + 1 ≤ bound) :
    step o call (.rule .unary) s = unary o (expressionWithin o k) s := by
  have hcall {s₁ : ParseState} (hs₁ : Terminated s₁.input.toList)
      (hle : s₁.input.length ≤ s.input.length) :
      call (.rule .primary) s₁ = primary o (expressionWithin o k) s₁ :=
    hc (.rule .primary) s₁ _ hs₁ (.level rfl (show _ ≤ k + 1 by omega))
      (show 11 * _ + 0 < bound by omega)
  rw [step]
  by_cases hp : s.input.head.kind = .mark .plus
  · obtain ⟨hs₁, hlen⟩ := next_of_mark hs hp
    rw [signed_of_plus hp, unary_of_plus hp]
    exact hcall hs₁ (by omega)
  by_cases hm : s.input.head.kind = .mark .minus
  · obtain ⟨hs₁, hlen⟩ := next_of_mark hs hm
    rw [signed_of_minus hm, unary_of_minus hm]
    exact bind_congr_at (hcall hs₁ (by omega)) fun _ _ _ => rfl
  · rw [signed_of_other hp hm, unary_of_other hp hm]
    exact hcall hs (Nat.le_refl _)

theorem step_level {below : Nonterminal} (hb : Operands n below) (hk : s.input.length ≤ k + 1)
    (hd : 11 * s.input.length + (Task.rule n).height ≤ bound) :
    step o call (.rule n) s = levelRule o (expressionWithin o k) n s := by
  have hstep : step o call (.rule n) =
      (call (.rule below) >>= fun left => call (.more n left)) := by cases hb <;> rfl
  have hslack : below.slack = 1 := by cases hb <;> rfl
  have hbelow := hb.isExpression_below
  have hheight : (Task.rule below).height < (Task.rule n).height := by cases hb <;> decide
  rw [hstep, hb.levelRule_eq, chain_eq]
  -- The first operand is lower in the grammar, and behind it there are fewer tokens left.
  refine bind_congr_at ?_ fun left s₁ hleft => ?_
  · exact hc (.rule below) s _ hs (.level hbelow (hslack ▸ hk)) (by omega)
  · obtain ⟨hs₁, hlt⟩ := lt_of_levelRule hbelow hs hleft
    exact hc (.more n left) s₁ _ hs₁ (.more hb (by omega) (by omega))
      (show 11 * _ + 0 < bound by omega)

theorem step_more {below : Nonterminal} {fuel : Nat} {left : Node} (hb : Operands n below)
    (hk : s.input.length ≤ k + 1) (hf : s.input.length ≤ fuel) (hd : 11 * s.input.length ≤ bound) :
    step o call (.more n left) s = chainFrom (levelMarks n)
      (levelRule o (expressionWithin o k) below) fuel left s := by
  have hoperand : operandOf n = below := by cases hb <;> rfl
  have hslack : below.slack = 1 := by cases hb <;> rfl
  have hbelow := hb.isExpression_below
  have hheight : (Task.rule below).height ≤ 10 := by cases hb <;> decide
  have hpos : 0 < s.input.length := Nat.succ_pos _
  obtain ⟨fuel, rfl⟩ : ∃ f, fuel = f + 1 := ⟨fuel - 1, by omega⟩
  rw [step]
  cases hj : s.input.head.kind.join? (levelMarks n) with
  | none => rw [joinNext_of_none hj, chainFrom_of_none hj]
  | some j =>
    obtain ⟨m, hm, -⟩ := Kind.exists_mark_of_join? hj
    obtain ⟨hs₁, hlen⟩ := next_of_mark hs hm
    rw [joinNext_of_some hj, chainFrom_of_some hj, hoperand]
    refine bind_congr_at ?_ fun right s₂ hright => ?_
    · exact hc (.rule below) s.next _ hs₁ (.level hbelow (by omega)) (by omega)
    · obtain ⟨hs₂, hlt⟩ := lt_of_levelRule hbelow hs₁ hright
      exact hc (.more n _) s₂ _ hs₂ (.more hb (by omega) (by omega))
        (show 11 * _ + 0 < bound by omega)

theorem step_assignment (hk : s.input.length ≤ k + 1) (hd : 11 * s.input.length + 6 ≤ bound) :
    step o call (.rule .assignment) s = assignment o (expressionWithin o k) s := by
  rw [step, assignment_eq]
  refine bind_congr_at ?_ fun target s₁ htarget => ?_
  · exact hc (.rule .equality) s _ hs (.level rfl hk) (show 11 * _ + 5 < bound by omega)
  obtain ⟨hs₁, hlt⟩ := lt_of_levelRule (n := .equality) rfl hs htarget
  by_cases hm : s₁.input.head.kind = .mark .assign
  · cases hv : target.isVariable with
    | true =>
      obtain ⟨hs₂, hlen⟩ := next_of_mark hs₁ hm
      have hpos : 0 < s₁.next.input.length := Nat.succ_pos _
      obtain ⟨k, rfl⟩ : ∃ i, k = i + 1 := ⟨k - 1, by omega⟩
      rw [afterTarget_of_variable hm hv, afterTarget_of_variable hm hv]
      refine bind_congr_at ?_ fun _ _ _ => rfl
      exact hc (.rule .assignment) s₁.next _ hs₂ (.level rfl (show _ ≤ k + 1 by omega))
        (show 11 * _ + 6 < bound by omega)
    | false => rw [afterTarget_of_not_variable hm hv, afterTarget_of_not_variable hm hv]
  · rw [afterTarget_of_ne hm, afterTarget_of_ne hm]

theorem step_expression (hk : s.input.length ≤ k) (hd : 11 * s.input.length + 7 ≤ bound) :
    step o call (.rule .expression) s = expressionWithin o k s := by
  have hpos : 0 < s.input.length := Nat.succ_pos _
  obtain ⟨k, rfl⟩ : ∃ i, k = i + 1 := ⟨k - 1, by omega⟩
  exact hc (.rule .assignment) s _ hs (.level rfl hk) (show 11 * _ + 6 < bound by omega)

theorem Faithful.expression (hd : 11 * s.input.length + 7 < bound) :
    call (.rule .expression) s = Grammar.expression o s :=
  hc (.rule .expression) s (levelRule o (expressionWithin o (s.input.length + 1)) .expression) hs
    (.level rfl (Nat.le_succ _)) hd

theorem step_statement (hd : 11 * s.input.length + 8 ≤ bound) :
    step o call (.rule .statement) s = statement o s := by
  rw [step]
  by_cases hm : s.input.head.kind = .mark .keywordReturn
  · obtain ⟨hs₁, hlen⟩ := next_of_mark hs hm
    rw [returned_of_return hm, statement_of_return hm]
    exact bind_congr_at (hc.expression hs₁ (by omega)) fun _ _ _ => rfl
  · rw [returned_of_other hm, statement_of_other hm]
    exact hc.expression hs (by omega)

/-- What follows a statement, when the statements before it are kept. -/
theorem statements_of_statement {read : List Node} {start : Option Location} {fuel : Nat}
    (hf : s.input.length ≤ fuel) (hd : 11 * s.input.length + 9 < bound) (n : Node) :
    separated o (call (.statements (read ++ [n]) start)) s =
      (afterStatement o fuel read.length n >>= fun more =>
        pure (Program.node ⟨read ++ more, start⟩)) s := by
  have hcall {s₁ : ParseState} (hs₁ : Terminated s₁.input.toList)
      (hle : s₁.input.length ≤ s.input.length) : call (.statements (read ++ [n]) start) s₁ =
        (statementsWithin o fuel (read.length + 1) >>= fun more =>
          pure (Program.node ⟨read ++ n :: more, start⟩)) s₁ := by
    have := hc (.statements (read ++ [n]) start) s₁ _ hs₁ (.statements (Nat.le_trans hle hf))
      (show 11 * _ + 9 < bound by omega)
    simpa using this
  cases hend : s.input.head.isEnd with
  | true =>
    rw [separated_of_isEnd _ hend, bind_of_ok (afterStatement_of_isEnd fuel read.length n hend),
      hcall hs (Nat.le_refl _), bind_of_ok (statementsWithin_of_isEnd fuel _ hend)]
  | false =>
    rw [separated_of_not_isEnd _ hend,
      bind_congr_at (afterStatement_of_not_isEnd fuel read.length n hend) fun _ _ _ => rfl]
    simp only [bind_assoc, pure_bind]
    refine bind_congr_at rfl fun _ s₁ hexpect => ?_
    obtain ⟨hm, rfl⟩ := expect_ok hexpect
    obtain ⟨hs₁, hlen⟩ := next_of_mark hs hm
    exact hcall hs₁ (by omega)

theorem step_statements {read : List Node} {start : Option Location} {fuel : Nat}
    (hf : s.input.length ≤ fuel) (hd : 11 * s.input.length + 9 ≤ bound) :
    step o call (.statements read start) s = (statementsWithin o fuel read.length >>= fun more =>
      pure (Program.node ⟨read ++ more, start⟩)) s := by
  have hpos : 0 < s.input.length := Nat.succ_pos _
  obtain ⟨fuel, rfl⟩ : ∃ f, fuel = f + 1 := ⟨fuel - 1, by omega⟩
  rw [step]
  cases hh : s.input.head.isEnd with
  | true =>
    rw [nextStatement_of_isEnd hh, bind_of_ok (statementsWithin_of_isEnd _ _ hh), List.append_nil]
  | false =>
    by_cases hm : s.input.head.kind = .mark .semicolon
    · obtain ⟨hs₁, hlen⟩ := next_of_mark hs hm
      rw [nextStatement_of_semicolon hm,
        bind_congr_at (statementsWithin_of_semicolon fuel _ hm) fun _ _ _ => rfl]
      exact hc (.statements read start) s.next _ hs₁ (.statements (by omega))
        (show 11 * _ + 9 < bound by omega)
    · rw [nextStatement_of_statement hh hm,
        bind_congr_at (statementsWithin_of_statement fuel _ hh hm) fun _ _ _ => rfl]
      by_cases hmax : o.maxStatements ≤ read.length
      · rw [if_pos hmax, if_pos hmax]
        rfl
      · rw [if_neg hmax, if_neg hmax, bind_assoc]
        refine bind_congr_at ?_ fun n s₁ hn => ?_
        · exact hc (.rule .statement) s _ hs .statement (show 11 * _ + 8 < bound by omega)
        · obtain ⟨hs₁, hlt⟩ := lt_of_sound sound_statement (fun _ _ _ h => h.ne_nil) hs hn
          exact statements_of_statement hc hs₁ (by omega) (by omega) n

theorem step_program (hd : 11 * s.input.length + 10 ≤ bound) :
    step o call (.rule .program) s = (Program.node <$> program o) s := by
  rw [step, current_bind]
  refine (hc (.statements [] _) s _ hs (.statements (Nat.le_refl _))
    (show 11 * _ + 9 < bound by omega)).trans ?_
  rw [map_eq_pure_bind]
  cases h : statementsWithin o s.input.length 0 s with
  | ok ns s' =>
    rw [bind_of_ok (program_of_ok h)]
    exact bind_of_ok h _
  | error d s' =>
    rw [bind_of_error (program_of_error h)]
    exact bind_of_error h _

end Step

/-- A call that goes one deeper than calls which come to what they mean does so too. -/
theorem step_eq (hc : Faithful o call bound) : Faithful o (step o call) (bound + 1) := by
  intro task s r hs hr hd
  cases hr with
  | @level n k hn hk =>
    cases n with
    | program | statement => cases hn
    | primary => exact step_primary hc hs hk (Nat.le_of_lt_succ hd)
    | unary => exact step_unary hc hs hk (Nat.le_of_lt_succ hd)
    | term => exact step_level hc hs .term hk (Nat.le_of_lt_succ hd)
    | additive => exact step_level hc hs .additive hk (Nat.le_of_lt_succ hd)
    | relational => exact step_level hc hs .relational hk (Nat.le_of_lt_succ hd)
    | equality => exact step_level hc hs .equality hk (Nat.le_of_lt_succ hd)
    | assignment => exact step_assignment hc hs hk (Nat.le_of_lt_succ hd)
    | expression => exact step_expression hc hs hk (Nat.le_of_lt_succ hd)
  | more hb hk hf => exact step_more hc hs hb hk hf (Nat.le_of_lt_succ hd)
  | statement => exact step_statement hc hs (Nat.le_of_lt_succ hd)
  | statements hf => exact step_statements hc hs hf (Nat.le_of_lt_succ hd)
  | program => exact step_program hc hs (Nat.le_of_lt_succ hd)

theorem faithful_callWithin (beyond : Task → Parse Node) (depth : Nat) :
    Faithful o (callWithin o beyond depth) depth := by
  induction depth with
  | zero => exact fun _ _ _ _ _ hd => absurd hd (Nat.not_lt_zero _)
  | succ depth ih => exact step_eq ih

/-- Calls never nest deeper than the number of tokens allows. -/
theorem callWithin_rule (beyond : Task → Parse Node) (n : Nonterminal) {depth : Nat}
    (hs : Terminated s.input.toList) (hd : callDepth s.input.length ≤ depth) :
    callWithin o beyond depth (.rule n) s = n.rule o s := by
  have hheight : (Task.rule n).height ≤ 10 := by cases n <;> decide
  rw [callDepth] at hd
  have hcall := faithful_callWithin (o := o) beyond depth
  cases hn : n.isExpression with
  | true =>
    by_cases he : n = .expression
    · subst he
      exact hcall.expression hs (by omega)
    · rw [n.rule_eq_levelRule hn he]
      exact hcall (.rule n) s _ hs (.level hn (Nat.le_add_right _ _)) (by omega)
  | false =>
    cases n with
    | program => exact hcall (.rule .program) s _ hs .program (by omega)
    | statement => exact hcall (.rule .statement) s _ hs .statement (by omega)
    | _ => cases hn

end Grammar

/-! ### Cursors -/

/-- A front of a list without an end of input stops before any of them. -/
theorem length_le_of_getElem?_isEnd {read tokens : List Token} (h : read <+: tokens)
    (hread : ∀ t ∈ read, t.isEnd = false) {i : Nat} {t : Token} (hi : tokens[i]? = some t)
    (ht : t.isEnd = true) : read.length ≤ i := by
  obtain ⟨rest, rfl⟩ := h
  by_contra hlt
  rw [List.getElem?_append_left (Nat.lt_of_not_le hlt)] at hi
  rw [hread t (List.mem_of_getElem? hi)] at ht
  cases ht

/-- At a cursor that is not before its list, every rule comes to an end, whatever a call beyond the
depth that the tokens allow would do. The cursor then stands in front of what the rule has left: not
before its old place, and not behind the first end of input from there on, however the rule ends. A
rule that succeeds has passed some token, unless it is the one for programs, and for expressions only
such tokens as stand within one statement and close the parentheses that they open. -/
theorem Cursor.parse_stays_in_statement (o : ParseSettings) (table : SlotTable) (n : Nonterminal)
    {c : Cursor} (ht : Terminated c.tokens = true) (hpos : 0 ≤ c.pos) :
    ∃ input c', c.stream? = some input ∧ (c.parse (n.rule o) table).2 = c' ∧
      (∀ beyond depth, Grammar.callDepth input.length ≤ depth →
        Grammar.callWithin o beyond depth (.rule n) ⟨input, table⟩ = n.rule o ⟨input, table⟩) ∧
      c'.stream? = some (finalState (n.rule o ⟨input, table⟩)).input ∧
      c'.tokens = c.tokens ∧ c.pos ≤ c'.pos ∧
      ((c.tokens.length : Int) ≤ c.pos → c'.pos = c.pos) ∧
      (∀ (i : Nat) (t : Token), c.pos ≤ i → c.tokens[i]? = some t → t.isEnd = true →
        c'.pos ≤ i) ∧
      ∀ e, (c.parse (n.rule o) table).1.outcome = .ok e → n ≠ .program →
        c.pos < c'.pos ∧ (n.isExpression = true → Balanced (c.passed c') ∧
          ∀ t ∈ c.passed c', t.isEnd = false ∧ t.kind ≠ .mark .semicolon ∧
            t.kind ≠ .mark .keywordReturn) := by
  obtain ⟨input, read, hinput, hterm, hfront, hread, hmove, hleft, hok, -⟩ :=
    exists_read (sound_rule (o := o) n) table ht hpos
  refine ⟨input, _, hinput, hmove, fun beyond depth hd => ?_, hmove ▸ hleft, rfl, ?_, ?_, ?_, ?_⟩
  · exact Grammar.callWithin_rule beyond n hterm hd
  · show c.pos ≤ c.pos + read.length
    omega
  · intro hlen
    have hnil : c.tokens.drop c.pos.toNat = [] := List.drop_eq_nil_of_le (by omega)
    rw [hnil, List.prefix_nil] at hfront
    subst hfront
    exact Int.add_zero c.pos
  · intro i t hi htok hend
    have hdrop : (c.tokens.drop c.pos.toNat)[i - c.pos.toNat]? = some t := by
      rw [List.getElem?_drop, ← htok]
      congr 1
      omega
    have := length_le_of_getElem?_isEnd hfront hread hdrop hend
    show c.pos + read.length ≤ i
    omega
  · intro e he hn
    obtain ⟨σ, hd⟩ := hok e he
    have hpositive := List.length_pos_iff.mpr (hd hn).ne_nil
    rw [passed_add hfront]
    refine ⟨show c.pos < c.pos + read.length by omega, fun hexpr => ⟨(hd hn).balanced, ?_⟩⟩
    exact fun t htok => ⟨hread t htok, (hd hn).ne_separator hexpr t htok⟩

/-- A table that has a name twice, and two more tokens behind the end of input that stops the rule. -/
theorem Cursor.parse_stays_in_statement_inner_end :
    let tokens := tokenRow [.mark .semicolon none, .mark .openParen none, .identifier "a",
      .mark .assign none, .number 1, .mark .closeParen none, .mark .star none, .mark .plus none,
      .identifier "a", .endOfInput, .mark .slash none, .endOfInput]
    let c : Cursor := ⟨tokens, 1⟩
    Terminated c.tokens = true ∧ 0 ≤ c.pos ∧ ∃ e c',
      (c.parse (Nonterminal.expression.rule ⟨[], 0⟩)
        ⟨8, 2, [⟨"a", 8⟩, ⟨"a", 24⟩], 24⟩).1.outcome = .ok e ∧
      (c.parse (Nonterminal.expression.rule ⟨[], 0⟩) ⟨8, 2, [⟨"a", 8⟩, ⟨"a", 24⟩], 24⟩).2 = c' ∧
      c.pos < c'.pos ∧ c'.pos ≤ 9 ∧ Balanced (c.passed c') := by
  intro tokens c
  have ht : Terminated c.tokens = true := by decide
  have hpos : 0 ≤ c.pos := by decide
  have hok : (c.parse (Nonterminal.expression.rule ⟨[], 0⟩)
      ⟨8, 2, [⟨"a", 8⟩, ⟨"a", 24⟩], 24⟩).1.outcome.toOption.any (fun _ => true) = true := by
    decide +kernel
  have hlast : c.tokens[9]? = some ⟨.endOfInput, "", ⟨none, 1, 10, 9⟩⟩ := by decide
  obtain ⟨e, he, -⟩ := exists_of_any_toOption hok
  obtain ⟨input, c', -, hc', -, -, -, -, -, hend, hsuccess⟩ :=
    Cursor.parse_stays_in_statement ⟨[], 0⟩ ⟨8, 2, [⟨"a", 8⟩, ⟨"a", 24⟩], 24⟩ .expression ht hpos
  obtain ⟨hlt, hbalanced⟩ := hsuccess e he (by decide)
  exact ⟨ht, hpos, e, c', he, hc', hlt, hend 9 _ (by decide) hlast rfl, (hbalanced rfl).1⟩

end WordLang
