import Mathlib.Data.List.TakeDrop
import WordLang.Proofs.Grammar.Nesting
import WordLang.Proofs.Grammar.Parallel

/-! The tokens that a cursor moves over when a rule of the parser runs at it, for each rule by its
name and whatever the table of slots was before. -/
namespace WordLang

variable {o : ParseSettings} {inner : Parse Node}

/-! ### Rules by name -/

/-- The rules that read expressions or parts of them. -/
def Nonterminal.isExpression : Nonterminal → Bool
  | .program | .statement => false
  | _ => true

theorem Operands.isExpression_below {level below : Nonterminal} (h : Operands level below) :
    below.isExpression = true := by
  cases h <;> rfl

/-- Rules for expressions are those of their levels, given the rule for expressions within the tokens
that are left. -/
theorem Nonterminal.rule_eq_levelRule {n : Nonterminal} (hn : n.isExpression = true)
    (he : n ≠ .expression) (s : ParseState) :
    n.rule o s = levelRule o (Grammar.expressionWithin o s.input.length) n s := by
  cases n with
  | program | statement => cases hn
  | expression => exact absurd rfl he
  | _ => rfl

theorem sound_levelRule {n : Nonterminal} (hn : n.isExpression = true)
    (hi : Sound true (fun σ => Derives σ .expression) inner) :
    Sound true (fun σ => Derives σ n) (levelRule o inner n) := by
  have himp {D : Reading Node} {r : Parse Node} (h : Sound false D r) : Sound true D r :=
    fun s hs => (h s hs).imp (by simp) fun _ _ _ hd => hd
  cases n with
  | program | statement => cases hn
  | expression => exact hi
  | assignment => exact sound_assignment hi
  | equality => exact himp (sound_equality hi)
  | relational => exact himp (sound_relational hi)
  | additive => exact himp (sound_additive hi)
  | term => exact himp (sound_term hi)
  | unary => exact himp (sound_unary hi)
  | primary => exact himp (sound_primary hi)

theorem sound_program :
    Sound true (fun σ p program => DerivesWithin o 0 σ p program.statements) (Grammar.program o) := by
  intro s hs
  refine SoundAt.congr (m := Grammar.statementsWithin o s.input.length 0 >>= fun ns =>
    pure ⟨ns, some s.input.head.location⟩) ?_ rfl
  exact (sound_statementsWithin s.input.length 0 s hs).map hs _ fun _ _ _ h => h

/-- Every rule reads tokens, and every rule but that for programs derives what it returns. -/
theorem sound_rule (n : Nonterminal) :
    Sound true (fun σ p e => n ≠ .program → Derives σ n p e) (n.rule o) := by
  intro s hs
  cases hn : n.isExpression with
  | true =>
    by_cases he : n = .expression
    · subst he
      exact (sound_expression s hs).imp id fun σ p e he _ => he
    · exact ((sound_levelRule hn (sound_expressionWithin _) s hs).imp id
        fun σ p e he _ => he).congr (n.rule_eq_levelRule hn he s)
  | false =>
    cases n with
    | program => exact (sound_program s hs).map hs Program.node fun _ _ _ _ h => absurd rfl h
    | statement => exact (sound_statement s hs).imp id fun σ p e he _ => he
    | _ => cases hn

/-- An expression has no part that sets off statements. -/
theorem Derives.ne_separator {σ : String → Nat} {n : Nonterminal} {ts : List Token} {e : Node}
    (h : Derives σ n ts e) (hn : n.isExpression = true) :
    ∀ t ∈ ts, t.kind ≠ .mark .semicolon ∧ t.kind ≠ .mark .keywordReturn := by
  induction h with
  | number h | name h => simp [Token.kind, h, Lexeme.kind]
  | unsigned _ ih | bare _ ih | expression _ ih => exact ih rfl
  | operand hb _ ih => exact ih hb.isExpression_below
  | parens ht _ hu ih =>
    have := ih rfl
    grind
  | plus ht _ ih | minus ht _ ih =>
    have := ih rfl
    grind
  | join hb hj _ ht _ ih ih' =>
    have := ih hn
    have := ih' hb.isExpression_below
    cases hj <;> grind
  | assign _ ht _ ih ih' =>
    have := ih rfl
    have := ih' rfl
    grind
  | statement | result => cases hn

/-! ### Cursors -/

theorem TokenStream.eq_of_toList {s t : TokenStream} (h : s.toList = t.toList) : s = t := by
  cases s
  cases t
  cases h
  rfl

namespace Cursor

variable {c : Cursor}

/-- The tokens from one cursor up to another on the same list. -/
def passed (c c' : Cursor) : List Token :=
  (c.tokens.drop c.pos.toNat).take (c'.pos - c.pos).toNat

theorem passed_add {read : List Token} (h : read <+: c.tokens.drop c.pos.toNat) :
    c.passed { c with pos := c.pos + read.length } = read := by
  rw [passed, show (c.pos + read.length - c.pos).toNat = read.length by omega]
  exact (List.prefix_iff_eq_take.mp h).symm

theorem stream?_of_drop {input : TokenStream} (hpos : 0 ≤ c.pos)
    (h : c.tokens.drop c.pos.toNat = input.toList) : c.stream? = some input := by
  have hlt : c.pos.toNat < c.tokens.length := by
    have := congrArg List.length h
    rw [List.length_drop, TokenStream.toList, List.length_cons] at this
    omega
  simp only [stream?, resolve?, if_neg (show ¬(c.tokens.length : Int) ≤ c.pos by omega),
    if_pos hpos, Option.bind_some]
  rw [h]
  rfl

/-- A cursor that is not before the list reads the rest of it, or behind the list its last token. -/
theorem exists_stream (ht : Terminated c.tokens = true) (hpos : 0 ≤ c.pos) :
    ∃ input, c.stream? = some input ∧ Terminated input.toList = true ∧
      (c.tokens.drop c.pos.toNat = input.toList ∨
        (c.tokens.length : Int) ≤ c.pos ∧ input.head.isEnd = true) := by
  have hne : c.tokens ≠ [] := by
    rintro h
    rw [h] at ht
    cases ht
  by_cases hlen : (c.tokens.length : Int) ≤ c.pos
  · have hdrop := List.drop_length_sub_one hne
    have hend : (c.tokens.getLast hne).isEnd = true := by
      simpa [Terminated, List.getLast?_eq_some_getLast hne] using ht
    refine ⟨⟨c.tokens.getLast hne, []⟩, ?_, ?_, .inr ⟨hlen, hend⟩⟩
    · simp [stream?, resolve?, hlen, hdrop, TokenStream.ofList?]
    · simp [Terminated, TokenStream.toList, hend]
  · have hlt : c.pos.toNat < c.tokens.length := by omega
    have hdrop := List.drop_eq_getElem_cons hlt
    refine ⟨⟨c.tokens[c.pos.toNat], c.tokens.drop (c.pos.toNat + 1)⟩, stream?_of_drop hpos hdrop,
      ?_, .inl hdrop⟩
    rw [TokenStream.toList, ← hdrop, Terminated, List.getLast?_drop, if_neg (by omega)]
    exact ht

variable {α : Type} {rule : Parse α} {D : Reading α} {input : TokenStream} {table : SlotTable}
  {s' : ParseState}

/-- Behind the tokens that a rule has read, a cursor reads what is left. -/
theorem stream?_of_reads {read : List Token} (ht : Terminated c.tokens = true) (hpos : 0 ≤ c.pos)
    (hinput : c.stream? = some input) (hp : Reads ⟨input, table⟩ read s') :
    read <+: c.tokens.drop c.pos.toNat ∧ input.length - s'.input.length = read.length ∧
      ({ c with pos := c.pos + read.length } : Cursor).stream? = some s'.input := by
  obtain ⟨input', hinput', -, htokens⟩ := exists_stream ht hpos
  obtain rfl : input' = input := Option.some.inj (hinput'.symm.trans hinput)
  have hlen : input'.length = read.length + s'.input.length := hp.length
  have hsplit : input'.toList = read ++ s'.input.toList := hp.input
  rcases htokens with htokens | ⟨-, hend⟩
  · refine ⟨⟨_, hsplit.symm.trans htokens.symm⟩, by omega, stream?_of_drop ?_ ?_⟩
    · exact Int.add_nonneg hpos (Int.natCast_nonneg _)
    · show c.tokens.drop (c.pos + read.length).toNat = s'.input.toList
      rw [show (c.pos + read.length).toNat = c.pos.toNat + read.length by omega, ← List.drop_drop,
        htokens, hsplit, List.drop_left]
  -- Where the end of input is the current token, nothing is read.
  · cases read with
    | cons t read =>
      have hhead : input'.head = t := (List.cons.inj hsplit).1
      rw [hhead, hp.isEnd t List.mem_cons_self] at hend
      cases hend
    | nil =>
      have hsame : input' = s'.input := TokenStream.eq_of_toList hsplit
      refine ⟨List.nil_prefix, by simp [hsame], ?_⟩
      rw [← hsame, ← hinput]
      simp

/-- A rule at a cursor moves it over the tokens that it reads. -/
theorem exists_read (h : Sound true D rule) (table : SlotTable) (ht : Terminated c.tokens = true)
    (hpos : 0 ≤ c.pos) :
    ∃ input read, c.stream? = some input ∧ Terminated input.toList = true ∧
      read <+: c.tokens.drop c.pos.toNat ∧ (∀ t ∈ read, t.isEnd = false) ∧
      (c.parse rule table).2 = { c with pos := c.pos + read.length } ∧
      (c.parse rule table).2.stream? = some (finalState (rule ⟨input, table⟩)).input ∧
      (∀ a, (c.parse rule table).1.outcome = .ok a → ∃ σ, D σ read a) ∧
      ∀ d, (c.parse rule table).1.outcome = .error (.diagnostic d) →
        d.cause = .targetNotVariable → ∃ σ, Rejects σ true read d := by
  obtain ⟨input, hinput, hterm, -⟩ := exists_stream ht hpos
  have hsound := h ⟨input, table⟩ hterm
  rw [SoundAt] at hsound
  cases hr : rule ⟨input, table⟩ with
  | ok a s' =>
    rw [hr] at hsound
    obtain ⟨read, hp, -, hd⟩ := hsound
    obtain ⟨hfront, hlen, hleft⟩ := stream?_of_reads ht hpos hinput hp
    obtain ⟨σ, hσ⟩ := s'.slots.exists_resolves
    rw [parse_of_stream_ok hinput hr, hlen]
    refine ⟨input, read, hinput, hterm, hfront, hp.isEnd, rfl, hr ▸ hleft, ?_, by simp⟩
    rintro _ ⟨⟩
    exact ⟨σ, hd σ hσ⟩
  | error d s' =>
    rw [hr] at hsound
    obtain ⟨read, hstop⟩ := hsound
    obtain ⟨hfront, hlen, hleft⟩ := stream?_of_reads ht hpos hinput hstop.reads
    obtain ⟨σ, hσ⟩ := s'.slots.exists_resolves
    rw [parse_of_stream_error hinput hr, hlen]
    refine ⟨input, read, hinput, hterm, hfront, hstop.reads.isEnd, rfl, hr ▸ hleft, by simp, ?_⟩
    rintro _ ⟨⟩ hcause
    exact ⟨σ, hstop.rejects hcause σ hσ⟩

end Cursor

end WordLang
