import WordLang.Proofs.Grammar.Soundness

/-! Whatever the grammar derives, the parser reads, where a token follows that the derivation could
not have gone on with. -/
namespace WordLang

/-! ### What may follow -/

/-- How loosely a mark binds. Marks that bind nothing stand last. -/
def Mark.rank : Mark → Nat
  | .star | .slash => 1
  | .plus | .minus => 2
  | .less | .lessEqual | .greater | .greaterEqual => 3
  | .equal | .notEqual => 4
  | .assign => 5
  | _ => 6

/-- The loosest marks that a rule goes on over. -/
def Nonterminal.rank : Nonterminal → Nat
  | .primary | .unary => 0
  | .term => 1
  | .additive => 2
  | .relational => 3
  | .equality => 4
  | _ => 5

/-- A token that a rule does not go on over. -/
def Closes (n : Nonterminal) (tok : Token) : Prop := ∀ m, tok.kind = .mark m → n.rank < m.rank

theorem closes_of_isEnd {n : Nonterminal} {tok : Token} (h : tok.isEnd = true) : Closes n tok := by
  intro m hm
  rw [Token.isEnd_of_mark hm] at h
  cases h

theorem closes_of_mark {n : Nonterminal} {tok : Token} {m : Mark} (h : tok.kind = .mark m)
    (hr : n.rank < m.rank) : Closes n tok := by
  intro m' hm'
  rw [h] at hm'
  cases hm'
  exact hr

theorem Closes.mono {n n' : Nonterminal} {tok : Token} (h : Closes n tok)
    (hr : n'.rank ≤ n.rank) : Closes n' tok :=
  fun m hm => Nat.lt_of_le_of_lt hr (h m hm)

theorem Operands.rank_lt {n below : Nonterminal} (h : Operands n below) : below.rank < n.rank := by
  cases h <;> decide

theorem Operands.unique {n below below' : Nonterminal} (h : Operands n below)
    (h' : Operands n below') : below' = below := by
  cases h <;> cases h' <;> rfl

theorem Joins.rank_eq {n : Nonterminal} {m : Mark} {f : Node → Node → Node} (h : Joins n m f) :
    m.rank = n.rank := by
  cases h <;> rfl

/-! ### Rules by name -/

/-- The rule of a level, given the rule for expressions. -/
def levelRule (o : ParseSettings) (inner : Parse Node) : Nonterminal → Parse Node
  | .primary => Grammar.primary o inner
  | .unary => Grammar.unary o inner
  | .term => Grammar.term o inner
  | .additive => Grammar.additive o inner
  | .relational => Grammar.relational o inner
  | .equality => Grammar.equality o inner
  | .assignment => Grammar.assignment o inner
  | _ => inner

/-- The marks of a binary level. -/
def levelMarks : Nonterminal → Mark → Option Join
  | .equality => Mark.equality?
  | .relational => Mark.relational?
  | .additive => Mark.additive?
  | .term => Mark.multiplicative?
  | _ => fun _ => none

theorem Operands.levelRule_eq {n below : Nonterminal} (h : Operands n below) (o : ParseSettings)
    (inner : Parse Node) :
    levelRule o inner n = Grammar.chain (levelMarks n) (levelRule o inner below) := by
  cases h <;> rfl

theorem follows_levelMarks (n : Nonterminal) : Follows (levelMarks n) n := by
  cases n with
  | equality => exact follows_equality
  | relational => exact follows_relational
  | additive => exact follows_additive
  | term => exact follows_multiplicative
  | _ => exact nofun

theorem Joins.exists_join {n : Nonterminal} {m : Mark} {f : Node → Node → Node}
    (h : Joins n m f) : ∃ j, levelMarks n m = some j ∧ j.node = f := by
  cases h <;> exact ⟨_, rfl, rfl⟩

theorem Closes.join?_eq_none {n : Nonterminal} {tok : Token} (h : Closes n tok) :
    tok.kind.join? (levelMarks n) = none := by
  cases hj : tok.kind.join? (levelMarks n) with
  | none => rfl
  | some j =>
    obtain ⟨m, hm, hl⟩ := Kind.exists_mark_of_join? hj
    have := (follows_levelMarks n m j hl).rank_eq
    have := h m hm
    omega

/-! ### Offered tokens -/

/-- A rule reads just these tokens and returns a tree. -/
def Accepted {α : Type} (r : Parse α) (s : ParseState) (ts : List Token) (a : α) : Prop :=
  ∃ s', r s = .ok a s' ∧ Reads s ts s'

/-- Tokens stand at the front of the input, before a token of some kind, and the table has room for
their names. -/
structure Offers (σ : String → Nat) (F : Token → Prop) (ts : List Token) (s : ParseState) :
    Prop where
  follow : ∃ a rest, s.input.toList = ts ++ a :: rest ∧ F a
  fits : s.slots.Fits ts
  agrees : (s.slots.enter ts).Agrees σ

namespace Offers

variable {σ : String → Nat} {F F' : Token → Prop} {t : Token} {ts us : List Token}
  {s s' : ParseState}

theorem mono (h : Offers σ F ts s) (hF : ∀ a, F a → F' a) : Offers σ F' ts s := by
  obtain ⟨a, rest, hi, hc⟩ := h.follow
  exact ⟨⟨a, rest, hi, hF a hc⟩, h.fits, h.agrees⟩

theorem tighten {n n' : Nonterminal} (h : Offers σ (Closes n) ts s) (hr : n'.rank ≤ n.rank) :
    Offers σ (Closes n') ts s :=
  h.mono fun _ hc => hc.mono hr

theorem length_lt (h : Offers σ F ts s) : ts.length < s.input.length := by
  obtain ⟨a, rest, hi, -⟩ := h.follow
  have hlen : s.input.length = (ts ++ a :: rest).length := congrArg List.length hi
  rw [List.length_append, List.length_cons] at hlen
  omega

/-- When the tokens are read, what follows them is the current token. -/
theorem head_of_reads (h : Offers σ F ts s) (hr : Reads s ts s') : F s'.input.head := by
  obtain ⟨a, rest, hi, hF⟩ := h.follow
  rw [hr.input] at hi
  have hhead : s'.input.head = a := (List.cons.inj (List.append_cancel_left hi)).1
  exact hhead ▸ hF

theorem left (h : Offers σ F (ts ++ t :: us) s) (hc : F' t) : Offers σ F' ts s := by
  obtain ⟨a, rest, hi, -⟩ := h.follow
  refine ⟨⟨t, us ++ a :: rest, by simpa using hi, hc⟩, (SlotTable.fits_append.mp h.fits).1, ?_⟩
  have := h.agrees
  rw [SlotTable.enter_append] at this
  exact this.of_enter

theorem right (h : Offers σ F (ts ++ us) s) (hr : Reads s ts s') : Offers σ F us s' := by
  obtain ⟨a, rest, hi, hc⟩ := h.follow
  have hs : s'.input.toList = us ++ a :: rest := by
    rw [hr.input, List.append_assoc] at hi
    exact List.append_cancel_left hi
  refine ⟨⟨a, rest, hs, hc⟩, ?_, ?_⟩
  · rw [hr.slots]
    exact (SlotTable.fits_append.mp h.fits).2
  · rw [hr.slots, ← SlotTable.enter_append]
    exact h.agrees

theorem tail (h : Offers σ F (t :: ts) s) (hr : Reads s [t] s') : Offers σ F ts s' :=
  right (show Offers σ F ([t] ++ ts) s from h) hr

theorem head_eq (h : Offers σ F (t :: ts) s) : s.input.head = t := by
  obtain ⟨a, rest, hi, -⟩ := h.follow
  exact (List.cons.inj hi).1

theorem toList_next (h : Offers σ F (t :: ts) s) (hh : t.isEnd = false) :
    s.input.toList = t :: s.next.input.toList := by
  obtain ⟨a, rest, hi, -⟩ := h.follow
  have htail : s.input.tail ≠ [] := by
    rw [(List.cons.inj hi).2]
    simp
  have := TokenStream.toList_advance (s := s.input) (h.head_eq ▸ hh) htail
  rwa [h.head_eq] at this

theorem reads_enroll (h : Offers σ F (t :: ts) s) (hh : t.isEnd = false) :
    Reads s [t] { s.next with slots := s.slots.enroll t } :=
  ⟨h.toList_next hh, by simpa using hh, rfl⟩

theorem reads_next (h : Offers σ F (t :: ts) s) (hh : t.isEnd = false) (hn : t.name? = none) :
    Reads s [t] s.next := by
  have hread := h.reads_enroll hh
  rwa [SlotTable.enroll_of_name?_none hn] at hread

theorem reads_mark (h : Offers σ F (t :: ts) s) {m : Mark} (hm : t.kind = .mark m) :
    Reads s [t] s.next :=
  h.reads_next (Token.isEnd_of_mark hm) (Token.name?_of_mark hm)

end Offers

/-! ### Rules -/

section Rules

variable {o : ParseSettings} {inner operand : Parse Node} {σ : String → Nat}
  {n below : Nonterminal} {F : Token → Prop} {t u : Token} {ts us : List Token} {e : Node}
  {s : ParseState}

theorem accepted_number {v : Int} (h : Offers σ F [t] s) (hl : t.lexeme = .number v) :
    Accepted (Grammar.primary o inner) s [t] (.number v (some t.location)) := by
  have hn : t.name? = none := by rw [Token.name?, hl]
  refine ⟨s.next, ?_, h.reads_next (Token.isEnd_of_number hl) hn⟩
  rw [primary_of_number (h.head_eq ▸ hl), h.head_eq]

theorem accepted_name {x : String} (h : Offers σ F [t] s) (hl : t.lexeme = .identifier x) :
    Accepted (Grammar.primary o inner) s [t] (.var x (σ x) (some t.location)) := by
  have hx : t.name? = some x := by rw [Token.name?, hl]
  obtain ⟨slot, hslot, hres⟩ := SlotTable.resolve_of_accepts hx h.fits.1
    (some t.location) (Text.lineAt? o.sourceLines t.location.line)
  have hok : Parse.resolve o t x s.next =
      .ok slot.offset { s.next with slots := s.slots.enroll t } := by
    rw [Parse.resolve, show s.next.slots = s.slots from rfl, hres]
  refine ⟨{ s.next with slots := s.slots.enroll t }, ?_,
    h.reads_enroll (Token.isEnd_of_identifier hl)⟩
  rw [primary_of_identifier (h.head_eq ▸ hl), h.head_eq, bind_of_ok hok,
    h.agrees.resolves x slot hslot]
  rfl

theorem accepted_parens (h : Offers σ F (t :: (ts ++ [u])) s) (ht : t.kind = .mark .openParen)
    (hu : u.kind = .mark .closeParen)
    (hi : ∀ s, Offers σ (Closes .expression) ts s → Accepted inner s ts e) :
    Accepted (Grammar.primary o inner) s (t :: (ts ++ [u])) e := by
  have hread := h.reads_mark ht
  have h₁ : Offers σ F (ts ++ [u]) s.next := h.tail hread
  obtain ⟨s₂, hok, hread₂⟩ := hi s.next (h₁.left (closes_of_mark hu (by decide)))
  have h₂ := h₁.right hread₂
  refine ⟨s₂.next, ?_, hread.trans (hread₂.trans (h₂.reads_mark hu))⟩
  rw [primary_of_openParen (h.head_eq ▸ ht), bind_of_ok hok,
    bind_of_ok (expect_of_kind (h₂.head_eq ▸ hu) _)]
  rfl

/-- No operand starts with a sign. -/
theorem Derives.exists_head (h : Derives σ .primary ts e) :
    ∃ t us, ts = t :: us ∧ t.kind ≠ .mark .plus ∧ t.kind ≠ .mark .minus := by
  cases h with
  | @number t v h => exact ⟨t, [], rfl, by simp [Token.kind, h, Lexeme.kind]⟩
  | @name t x h => exact ⟨t, [], rfl, by simp [Token.kind, h, Lexeme.kind]⟩
  | @parens t u us e ht => exact ⟨t, us ++ [u], rfl, by simp [ht]⟩
  | operand hb => cases hb
  | join hb => cases hb

theorem accepted_unsigned (h : Offers σ F ts s) (he : Derives σ .primary ts e)
    (hi : Accepted (Grammar.primary o inner) s ts e) :
    Accepted (Grammar.unary o inner) s ts e := by
  obtain ⟨t, us, rfl, hp, hm⟩ := he.exists_head
  obtain ⟨s₁, hok, hread⟩ := hi
  refine ⟨s₁, ?_, hread⟩
  rw [unary_of_other (h.head_eq ▸ hp) (h.head_eq ▸ hm), hok]

theorem accepted_plus (h : Offers σ F (t :: ts) s) (ht : t.kind = .mark .plus)
    (hi : ∀ s, Offers σ F ts s → Accepted (Grammar.primary o inner) s ts e) :
    Accepted (Grammar.unary o inner) s (t :: ts) e := by
  have hread := h.reads_mark ht
  obtain ⟨s₁, hok, hread₁⟩ := hi s.next (h.tail hread)
  refine ⟨s₁, ?_, hread.trans hread₁⟩
  rw [unary_of_plus (h.head_eq ▸ ht), hok]

theorem accepted_minus (h : Offers σ F (t :: ts) s) (ht : t.kind = .mark .minus)
    (hi : ∀ s, Offers σ F ts s → Accepted (Grammar.primary o inner) s ts e) :
    Accepted (Grammar.unary o inner) s (t :: ts)
      (.binary .sub (.number 0 (some t.location)) e (some t.location)) := by
  have hread := h.reads_mark ht
  obtain ⟨s₁, hok, hread₁⟩ := hi s.next (h.tail hread)
  refine ⟨s₁, ?_, hread.trans hread₁⟩
  rw [unary_of_minus (h.head_eq ▸ ht), bind_of_ok hok, h.head_eq]
  rfl

/-- However many operands a chain is to have at most, it comes over these tokens to their tree, and
then goes on. -/
def Chained (marks : Mark → Option Join) (operand : Parse Node) (σ : String → Nat)
    (below : Nonterminal) (ts : List Token) (e : Node) : Prop :=
  ∀ s, Offers σ (Closes below) ts s → ∀ fuel, ts.length ≤ fuel → ∃ s' left,
    (operand >>= Grammar.chainFrom marks operand fuel) s =
        Grammar.chainFrom marks operand left e s' ∧
      Reads s ts s' ∧ fuel ≤ left + ts.length

theorem chained_operand {marks : Mark → Option Join}
    (hi : ∀ s, Offers σ (Closes below) ts s → Accepted operand s ts e) :
    Chained marks operand σ below ts e := by
  intro s h fuel _
  obtain ⟨s₁, hok, hread⟩ := hi s h
  exact ⟨s₁, fuel, bind_of_ok hok _, hread, by omega⟩

theorem chained_join {m : Mark} {f : Node → Node → Node} {e' : Node} (hb : Operands n below)
    (hj : Joins n m f) (ht : t.kind = .mark m)
    (hl : Chained (levelMarks n) operand σ below ts e)
    (hr : ∀ s, Offers σ (Closes below) us s → Accepted operand s us e') :
    Chained (levelMarks n) operand σ below (ts ++ t :: us) (f e e') := by
  intro s h fuel hfuel
  rw [List.length_append, List.length_cons] at hfuel
  have hc : Closes below t := closes_of_mark ht (hj.rank_eq ▸ hb.rank_lt)
  obtain ⟨s₁, left, heq, hread, hleft⟩ := hl s (h.left hc) fuel (by omega)
  have h₁ := h.right hread
  have hread₁ := h₁.reads_mark ht
  obtain ⟨s₂, hok, hread₂⟩ := hr s₁.next (h₁.tail hread₁)
  obtain ⟨j, hmarks, rfl⟩ := hj.exists_join
  have hjoin : s₁.input.head.kind.join? (levelMarks n) = some j := by
    rw [h₁.head_eq, ht]
    exact hmarks
  obtain ⟨left', rfl⟩ : ∃ left', left = left' + 1 := ⟨left - 1, by omega⟩
  refine ⟨s₂, left', ?_, hread.trans (hread₁.trans hread₂), ?_⟩
  · rw [heq, chainFrom_of_some hjoin, bind_of_ok hok]
  · rw [List.length_append, List.length_cons]
    omega

/-- Before a token that no mark of the level announces, a chain comes to its end. -/
theorem Chained.accepted (hc : Chained (levelMarks n) operand σ below ts e)
    (h : Offers σ (Closes n) ts s) (hr : below.rank ≤ n.rank) :
    Accepted (Grammar.chain (levelMarks n) operand) s ts e := by
  obtain ⟨s₁, left, heq, hread, -⟩ := hc s (h.tighten hr) _ (Nat.le_of_lt h.length_lt)
  refine ⟨s₁, ?_, hread⟩
  rw [chain_eq, heq, chainFrom_of_none (h.head_of_reads hread).join?_eq_none]

theorem accepted_bare (h : Offers σ (Closes .assignment) ts s)
    (hi : Accepted (Grammar.equality o inner) s ts e) :
    Accepted (Grammar.assignment o inner) s ts e := by
  obtain ⟨s₁, hok, hread⟩ := hi
  have hne : s₁.input.head.kind ≠ .mark .assign := by
    intro hm
    exact absurd (h.head_of_reads hread .assign hm) (by decide)
  refine ⟨s₁, ?_, hread⟩
  rw [assignment_eq, bind_of_ok hok, afterTarget_of_ne hne]

theorem accepted_assign {x : String} {off : Int} {l : Option Location}
    (h : Offers σ (Closes .assignment) (ts ++ t :: us) s) (ht : t.kind = .mark .assign)
    (hx : ∀ s, Offers σ (Closes .equality) ts s →
      Accepted (Grammar.equality o inner) s ts (.var x off l))
    (hi : ∀ s, Offers σ (Closes .assignment) us s → Accepted inner s us e) :
    Accepted (Grammar.assignment o inner) s (ts ++ t :: us) (.assign (.var x off l) e l) := by
  obtain ⟨s₁, hok, hread⟩ := hx s (h.left (closes_of_mark ht (by decide)))
  have h₁ := h.right hread
  have hread₁ := h₁.reads_mark ht
  obtain ⟨s₂, hok₂, hread₂⟩ := hi s₁.next (h₁.tail hread₁)
  refine ⟨s₂, ?_, hread.trans (hread₁.trans hread₂)⟩
  rw [assignment_eq, bind_of_ok hok, afterTarget_of_variable (h₁.head_eq ▸ ht) rfl,
    bind_of_ok hok₂]
  rfl

end Rules

/-! ### Derivations -/

/-- How many more tokens a rule reads than expressions nest in it. -/
def Nonterminal.slack : Nonterminal → Nat
  | .expression => 0
  | _ => 1

/-- Tokens are read by the rule of their level, when expressions may nest as deep as there are
tokens; at a binary level also as a part of more. -/
structure Parsable (o : ParseSettings) (σ : String → Nat) (n : Nonterminal) (ts : List Token)
    (e : Node) : Prop where
  accepted : n ≠ .statement → ∀ k s, ts.length ≤ k + n.slack → Offers σ (Closes n) ts s →
    Accepted (levelRule o (Grammar.expressionWithin o k) n) s ts e
  chained : ∀ below, Operands n below → ∀ k, ts.length ≤ k + 1 →
    Chained (levelMarks n) (levelRule o (Grammar.expressionWithin o k) below) σ below ts e

section Derivations

variable {o : ParseSettings} {σ : String → Nat} {n below : Nonterminal} {ts : List Token} {e : Node}

theorem Parsable.of_chained (hb : Operands n below) (h : ∀ k, ts.length ≤ k + 1 →
    Chained (levelMarks n) (levelRule o (Grammar.expressionWithin o k) below) σ below ts e) :
    Parsable o σ n ts e := by
  refine ⟨fun _ k s hk hs => ?_, fun below' hb' k hk => ?_⟩
  · rw [hb.levelRule_eq]
    have hslack : n.slack = 1 := by cases hb <;> rfl
    exact (h k (hslack ▸ hk)).accepted hs (Nat.le_of_lt hb.rank_lt)
  · rw [hb.unique hb']
    exact h k hk

theorem Parsable.operand (h : Parsable o σ below ts e) (hb : Operands n below) (k : Nat)
    (hk : ts.length ≤ k + 1) (s : ParseState) (hs : Offers σ (Closes below) ts s) :
    Accepted (levelRule o (Grammar.expressionWithin o k) below) s ts e := by
  have hslack : below.slack = 1 := by cases hb <;> rfl
  exact h.accepted (by cases hb <;> decide) k s (hslack ▸ hk) hs

theorem Parsable.expressionWithin (h : Parsable o σ .assignment ts e) (hne : ts ≠ []) {k : Nat}
    (hk : ts.length ≤ k) {s : ParseState} (hs : Offers σ (Closes .assignment) ts s) :
    Accepted (Grammar.expressionWithin o k) s ts e := by
  have := List.length_pos_iff.mpr hne
  obtain ⟨k', rfl⟩ : ∃ k', k = k' + 1 := ⟨k - 1, by omega⟩
  exact h.accepted nofun k' s hk hs

/-- The parser reads what the grammar derives. The induction is on the derivation; a chain of
operands is carried on from left to right, as it is derived. -/
theorem Derives.parsable (h : Derives σ n ts e) : Parsable o σ n ts e := by
  induction h with
  | number h => exact ⟨fun _ k s _ hs => accepted_number hs h, nofun⟩
  | name h => exact ⟨fun _ k s _ hs => accepted_name hs h, nofun⟩
  | parens ht _ hu ih =>
    refine ⟨fun _ k s hk hs => accepted_parens hs ht hu fun s' hs' => ?_, nofun⟩
    refine ih.accepted nofun k s' ?_ hs'
    simp only [List.length_cons, List.length_append, Nonterminal.slack] at hk ⊢
    omega
  | unsigned he ih =>
    exact ⟨fun _ k s hk hs => accepted_unsigned hs he
      (ih.accepted nofun k s hk (hs.tighten (by decide))), nofun⟩
  | plus ht _ ih =>
    refine ⟨fun _ k s hk hs => accepted_plus hs ht fun s' hs' => ?_, nofun⟩
    exact ih.accepted nofun k s' (Nat.le_of_succ_le hk) (hs'.tighten (by decide))
  | minus ht _ ih =>
    refine ⟨fun _ k s hk hs => accepted_minus hs ht fun s' hs' => ?_, nofun⟩
    exact ih.accepted nofun k s' (Nat.le_of_succ_le hk) (hs'.tighten (by decide))
  | operand hb _ ih =>
    exact .of_chained hb fun k hk => chained_operand fun s hs => ih.operand hb k hk s hs
  | join hb hj _ ht _ ihl ihr =>
    refine .of_chained hb fun k hk => ?_
    rw [List.length_append, List.length_cons] at hk
    exact chained_join hb hj ht (ihl.chained _ hb k (by omega))
      fun s hs => ihr.operand hb k (by omega) s hs
  | bare _ ih => exact ⟨fun _ k s hk hs => accepted_bare hs
      (ih.accepted nofun k s hk (hs.tighten (by decide))), nofun⟩
  | assign hx ht he ihx ihe =>
    refine ⟨fun _ k s hk hs => accepted_assign hs ht (fun s' hs' => ?_) fun s' hs' => ?_, nofun⟩
    all_goals simp only [List.length_append, List.length_cons, Nonterminal.slack] at hk
    · exact ihx.accepted nofun k s' (show _ ≤ k + 1 by omega) hs'
    · exact ihe.expressionWithin he.ne_nil (by omega) hs'
  | expression he ih =>
    exact ⟨fun _ k s hk hs => ih.expressionWithin he.ne_nil hk (hs.tighten (by decide)), nofun⟩
  | statement _ ih => exact ⟨fun h => absurd rfl h, nofun⟩
  | result _ _ ih => exact ⟨fun h => absurd rfl h, nofun⟩

theorem Derives.accepted_expression (h : Derives σ .expression ts e) {s : ParseState}
    (hs : Offers σ (Closes .expression) ts s) : Accepted (Grammar.expression o) s ts e := by
  have hp : Parsable o σ .assignment ts e := h.assignment_of_expression.parsable
  have hlen : ts.length ≤ s.input.length + 1 := Nat.le_succ_of_le (Nat.le_of_lt hs.length_lt)
  exact hp.accepted nofun s.input.length s hlen (hs.tighten (by decide))

/-- No statement starts with a semicolon, and only a statement starts with a return. -/
theorem Derives.exists_start (h : Derives σ n ts e) :
    ∃ t us, ts = t :: us ∧ t.kind ≠ .mark .semicolon ∧
      (n ≠ .statement → t.kind ≠ .mark .keywordReturn) := by
  induction h with
  | @number t v h => exact ⟨t, [], rfl, by simp [Token.kind, h, Lexeme.kind]⟩
  | @name t x h => exact ⟨t, [], rfl, by simp [Token.kind, h, Lexeme.kind]⟩
  | parens ht | plus ht | minus ht => exact ⟨_, _, rfl, by simp [ht]⟩
  | result ht => exact ⟨_, _, rfl, by simp [ht], fun h => absurd rfl h⟩
  | unsigned _ ih | bare _ ih | expression _ ih =>
    obtain ⟨t, us, rfl, hm, hr⟩ := ih
    exact ⟨t, us, rfl, hm, fun _ => hr (by simp)⟩
  | operand hb _ ih =>
    obtain ⟨t, us, rfl, hm, hr⟩ := ih
    exact ⟨t, us, rfl, hm, fun _ => hr (by cases hb <;> simp)⟩
  | join hb _ _ _ _ ih =>
    obtain ⟨t, us, rfl, hm, hr⟩ := ih
    exact ⟨t, _, rfl, hm, hr⟩
  | assign _ _ _ ih =>
    obtain ⟨t, us, rfl, hm, hr⟩ := ih
    exact ⟨t, _, rfl, hm, fun _ => hr (by simp)⟩
  | statement _ ih =>
    obtain ⟨t, us, rfl, hm, -⟩ := ih
    exact ⟨t, us, rfl, hm, fun h => absurd rfl h⟩

theorem Derives.accepted_statement (h : Derives σ .statement ts e) {s : ParseState}
    (hs : Offers σ (Closes .statement) ts s) : Accepted (Grammar.statement o) s ts e := by
  cases h with
  | operand hb => cases hb
  | join hb => cases hb
  | statement he =>
    obtain ⟨t, us, rfl, -, hr⟩ := he.exists_start
    obtain ⟨s₁, hok, hread⟩ := he.accepted_expression (o := o) (hs.tighten (by decide))
    refine ⟨s₁, ?_, hread⟩
    rw [statement_of_other (hs.head_eq ▸ hr nofun), hok]
  | result ht he =>
    have hread := hs.reads_mark ht
    obtain ⟨s₁, hok, hread₁⟩ :=
      he.accepted_expression (o := o) ((hs.tail hread).tighten (by decide))
    refine ⟨s₁, ?_, hread.trans hread₁⟩
    rw [statement_of_return (hs.head_eq ▸ ht), bind_of_ok hok, hs.head_eq]
    rfl

end Derivations

/-! ### Programs -/

section Programs

variable {o : ParseSettings} {σ : String → Nat} {t : Token} {ts us : List Token}
  {n : Node} {ns : List Node} {s : ParseState}

theorem Derives.statementsWithin_eq (h : Derives σ .statement ts n)
    (hs : Offers σ (Closes .statement) ts s) (fuel count : Nat)
    (hmax : (count : Int) < o.maxStatements) :
    ∃ s', Grammar.statementsWithin o (fuel + 1) count s = afterStatement o fuel count n s' ∧
      Reads s ts s' := by
  obtain ⟨s₁, hok, hread⟩ := h.accepted_statement (o := o) hs
  obtain ⟨t, us, rfl, hm, -⟩ := h.exists_start
  have hh : s.input.head.isEnd = false := by
    rw [hs.head_eq]
    exact h.isEnd_eq t List.mem_cons_self
  refine ⟨s₁, ?_, hread⟩
  rw [statementsWithin_of_statement fuel count hh (hs.head_eq ▸ hm),
    if_neg (Int.not_le.mpr hmax), bind_of_ok hok]

/-- What the grammar derives before the end of input is read as a program within its limit. -/
theorem DerivesAll.accepted (h : DerivesAll σ ts ns)
    (hs : Offers σ (fun a => a.isEnd = true) ts s) (fuel count : Nat) (hf : ts.length ≤ fuel)
    (hmax : ns = [] ∨ (count : Int) + ns.length ≤ o.maxStatements) :
    Accepted (Grammar.statementsWithin o fuel count) s ts ns := by
  induction h generalizing fuel count s with
  | nil =>
    have hread : Reads s [] s := .refl s
    exact ⟨s, statementsWithin_of_isEnd fuel count (hs.head_of_reads hread), hread⟩
  | skip ht _ ih =>
    rw [List.length_cons] at hf
    obtain ⟨fuel, rfl⟩ : ∃ k, fuel = k + 1 := ⟨fuel - 1, by omega⟩
    have hread := hs.reads_mark ht
    obtain ⟨s₁, hok, hread₁⟩ := ih (hs.tail hread) fuel count (by omega) hmax
    refine ⟨s₁, ?_, hread.trans hread₁⟩
    rw [statementsWithin_of_semicolon fuel count (hs.head_eq ▸ ht), hok]
  | @last ts n hn =>
    have hpos := List.length_pos_iff.mpr hn.ne_nil
    obtain ⟨fuel, rfl⟩ : ∃ k, fuel = k + 1 := ⟨fuel - 1, by omega⟩
    have hlt : (count : Int) < o.maxStatements := by simpa [Int.add_one_le_iff] using hmax
    obtain ⟨s₁, heq, hread⟩ := hn.statementsWithin_eq (o := o)
      (hs.mono fun _ => closes_of_isEnd) fuel count hlt
    have hhead := hs.head_of_reads hread
    exact ⟨s₁, heq.trans (afterStatement_of_isEnd fuel count n hhead), hread⟩
  | @cons t ts us n ns hn ht _ ih =>
    rw [List.length_append, List.length_cons] at hf
    obtain ⟨fuel, rfl⟩ : ∃ k, fuel = k + 1 := ⟨fuel - 1, by omega⟩
    have hle : (count : Int) + (ns.length + 1) ≤ o.maxStatements := by simpa using hmax
    obtain ⟨s₁, heq, hread⟩ := hn.statementsWithin_eq (o := o)
      (hs.left (closes_of_mark ht (by decide))) fuel count (by omega)
    have hs₁ := hs.right hread
    have hread₁ := hs₁.reads_mark ht
    obtain ⟨s₂, hok, hread₂⟩ := ih (hs₁.tail hread₁) fuel (count + 1) (by omega)
      (.inr (by push_cast; omega))
    refine ⟨s₂, ?_, hread.trans (hread₁.trans hread₂)⟩
    rw [heq, afterStatement_of_not_isEnd fuel count n (hs₁.head_eq ▸ Token.isEnd_of_mark ht),
      bind_of_ok (expect_of_kind (hs₁.head_eq ▸ ht) _), bind_of_ok hok]
    rfl

end Programs

end WordLang
