import WordLang.Proofs.Grammar.Acceptance
import WordLang.Proofs.Grammar.Spans

/-! Where the nodes of a tree stand. An expression starts at its first token that leaves a trace in
the tree; opening parentheses and pluses in front of it do not. What is joined, assigned or under a
minus sign starts where its part on the left in the source does, and so a target that is rejected is
reported at the start of all that stands left of the equals sign. -/
namespace WordLang

/-! ### Starts -/

/-- A token that leaves no trace in the tree, when it stands in front of an operand. -/
def Token.isTraceless (t : Token) : Bool := t.kind = .mark .openParen || t.kind = .mark .plus

/-- The first token that leaves a trace. -/
def firstTrace (ts : List Token) : Option Token := ts.find? fun t => !t.isTraceless

section FirstTrace

variable {t u : Token} {ts : List Token} {m : Mark}

theorem firstTrace_cons_of_isTraceless (h : t.isTraceless = true) :
    firstTrace (t :: ts) = firstTrace ts :=
  List.find?_cons_of_neg (by simp [h])

theorem firstTrace_cons_of_not_isTraceless (h : t.isTraceless = false) :
    firstTrace (t :: ts) = some t :=
  List.find?_cons_of_pos (by simp [h])

theorem firstTrace_append (h : firstTrace ts = some u) (us : List Token) :
    firstTrace (ts ++ us) = some u := by
  rw [firstTrace] at h ⊢
  rw [List.find?_append, h, Option.some_or]

theorem Token.isTraceless_of_mark (h : t.kind = .mark m) :
    t.isTraceless = (m == .openParen || m == .plus) := by
  rw [isTraceless, h]
  cases m <;> rfl

end FirstTrace

theorem Joins.location_eq {level : Nonterminal} {m : Mark} {f : Node → Node → Node}
    (h : Joins level m f) (x y : Node) : (f x y).location = x.location := by
  cases h <;> rfl

section Derives

variable {σ : String → Nat} {n : Nonterminal} {ts : List Token} {e : Node}

/-- An expression starts at its first token that leaves a trace. -/
theorem Derives.exists_firstTrace (h : Derives σ n ts e) (hn : n.isExpression = true) :
    ∃ t, firstTrace ts = some t ∧ e.location = some t.location := by
  induction h with
  | @number t v h | @name t v h =>
    have ht : t.isTraceless = false := by simp [Token.isTraceless, Token.kind, h, Lexeme.kind]
    exact ⟨t, firstTrace_cons_of_not_isTraceless ht, rfl⟩
  | parens ht _ _ ih =>
    obtain ⟨u, hu, hl⟩ := ih rfl
    rw [firstTrace_cons_of_isTraceless (Token.isTraceless_of_mark ht)]
    exact ⟨u, firstTrace_append hu _, hl⟩
  | unsigned _ ih | bare _ ih | expression _ ih => exact ih rfl
  | operand hb _ ih => exact ih hb.isExpression_below
  | plus ht _ ih =>
    rw [firstTrace_cons_of_isTraceless (Token.isTraceless_of_mark ht)]
    exact ih rfl
  | minus ht _ _ =>
    exact ⟨_, firstTrace_cons_of_not_isTraceless (Token.isTraceless_of_mark ht), rfl⟩
  | join _ hj _ _ _ ih _ =>
    obtain ⟨u, hu, hl⟩ := ih hn
    exact ⟨u, firstTrace_append hu _, (hj.location_eq _ _).trans hl⟩
  | assign _ _ _ ih _ =>
    obtain ⟨u, hu, hl⟩ := ih rfl
    exact ⟨u, firstTrace_append hu _, hl⟩
  | statement | result => cases hn

end Derives

/-! ### Nodes below -/

/-- How a node stands in the tokens of the tree that it belongs to. Numbers, names and the zero that
a minus sign subtracts from stand at their tokens. What is made of two parts starts where the part
on the left in the source does, also if that part comes second in the node. -/
inductive Node.Standing (σ : String → Nat) (ts : List Token) : Node → Prop
  | number {t : Token} {v : Int} (ht : t ∈ ts) (h : t.lexeme = .number v) :
      Standing σ ts (.number v (some t.location))
  | name {t : Token} {x : String} (ht : t ∈ ts) (h : t.lexeme = .identifier x) :
      Standing σ ts (.var x (σ x) (some t.location))
  | zero {t : Token} (ht : t ∈ ts) (h : t.kind = .mark .minus) :
      Standing σ ts (.number 0 (some t.location))
  | sign {t : Token} {us : List Token} {e : Node} (hpart : t :: us <:+: ts)
      (h : t.kind = .mark .minus) (he : Derives σ .primary us e) :
      Standing σ ts (.binary .sub (.number 0 (some t.location)) e (some t.location))
  | join {level below : Nonterminal} {m : Mark} {f : Node → Node → Node} {t u : Token}
      {us vs : List Token} {x y : Node} (hpart : us ++ t :: vs <:+: ts) (hj : Joins level m f)
      (hx : Derives σ level us x) (ht : t.kind = .mark m) (hy : Derives σ below vs y)
      (hu : firstTrace us = some u) (hl : (f x y).location = some u.location) :
      Standing σ ts (f x y)
  | assign {t u : Token} {us vs : List Token} {x v : Node} (hpart : us ++ t :: vs <:+: ts)
      (hx : Derives σ .equality us x) (ht : t.kind = .mark .assign)
      (hv : Derives σ .assignment vs v) (hu : firstTrace us = some u) :
      Standing σ ts (.assign x v (some u.location))

namespace Node

variable {σ : String → Nat} {ts us : List Token} {e : Node}

theorem Standing.mono (h : e.Standing σ us) (hpart : us <:+: ts) : e.Standing σ ts := by
  cases h with
  | number ht h => exact .number (hpart.subset ht) h
  | name ht h => exact .name (hpart.subset ht) h
  | zero ht h => exact .zero (hpart.subset ht) h
  | sign h ht he => exact .sign (h.trans hpart) ht he
  | join h hj hx ht hy hu hl => exact .join (h.trans hpart) hj hx ht hy hu hl
  | assign h hx ht hv hu => exact .assign (h.trans hpart) hx ht hv hu

end Node

theorem Joins.mem_preorder {level : Nonterminal} {m : Mark} {f : Node → Node → Node}
    (h : Joins level m f) {x y e : Node} (he : e ∈ (f x y).preorder) :
    e = f x y ∨ e ∈ x.preorder ∨ e ∈ y.preorder := by
  cases h <;> simp only [Node.preorder, List.mem_cons, List.mem_append] at he <;> grind

section Derives

variable {σ : String → Nat} {n : Nonterminal} {ts : List Token} {e : Node}

/-- Every node of an expression stands in its tokens as it should. -/
theorem Derives.standing (h : Derives σ n ts e) (hn : n.isExpression = true) :
    ∀ m ∈ e.preorder, m.Standing σ ts := by
  induction h with
  | number h => simpa [Node.preorder] using .number (by simp) h
  | name h => simpa [Node.preorder] using .name (by simp) h
  | @parens t u _ _ _ _ _ ih => exact fun m hm => (ih rfl m hm).mono ⟨[t], [u], rfl⟩
  | unsigned _ ih | bare _ ih | expression _ ih => exact ih rfl
  | operand hb _ ih => exact ih hb.isExpression_below
  | plus _ _ ih => exact fun m hm => (ih rfl m hm).mono (List.suffix_cons _ _).isInfix
  | minus ht he ih =>
    intro m hm
    simp only [Node.preorder, List.singleton_append, List.mem_cons] at hm
    rcases hm with rfl | rfl | hm
    · exact .sign List.infix_rfl ht he
    · exact .zero List.mem_cons_self ht
    · exact (ih rfl m hm).mono (List.suffix_cons _ _).isInfix
  | join hb hj hx ht hy ih ih' =>
    intro m hm
    rcases hj.mem_preorder hm with rfl | hm | hm
    · obtain ⟨u, hu, hl⟩ := hx.exists_firstTrace hn
      exact .join List.infix_rfl hj hx ht hy hu ((hj.location_eq _ _).trans hl)
    · exact (ih hn m hm).mono (List.prefix_append _ _).isInfix
    · exact (ih' hb.isExpression_below m hm).mono
        ((List.suffix_cons _ _).trans (List.suffix_append _ _)).isInfix
  | assign hx ht hv ih ih' =>
    intro m hm
    simp only [Node.preorder, List.mem_cons, List.mem_append] at hm
    rcases hm with rfl | hm | hm
    · obtain ⟨u, hu, hl⟩ := hx.exists_firstTrace rfl
      obtain rfl : _ = some u.location := hl
      exact .assign List.infix_rfl hx ht hv hu
    · exact (ih rfl m (by simpa [Node.preorder] using hm)).mono (List.prefix_append _ _).isInfix
    · exact (ih' rfl m hm).mono ((List.suffix_cons _ _).trans (List.suffix_append _ _)).isInfix
  | statement | result => cases hn

end Derives

/-! ### Cursors -/

/-- At a cursor that is not before its list, an expression that is read starts at the first token
from there on that is neither an opening parenthesis nor a plus, and every node of it stands in the
tokens that were passed as it should. A target that is rejected is the whole left side of the equals
sign that was passed last, and is reported at the first such token of its own. -/
theorem Cursor.parse_locations (o : ParseSettings) (table : SlotTable) (n : Nonterminal)
    {c : Cursor} (ht : Terminated c.tokens = true) (hpos : 0 ≤ c.pos) :
    ∃ c', (c.parse (n.rule o) table).2 = c' ∧
      (∀ e, (c.parse (n.rule o) table).1.outcome = .ok e → n.isExpression = true →
        ∃ σ t, firstTrace (c.tokens.drop c.pos.toNat) = some t ∧ e.location = some t.location ∧
          Derives σ n (c.passed c') e ∧ ∀ m ∈ e.preorder, m.Standing σ (c.passed c')) ∧
      ∀ d, (c.parse (n.rule o) table).1.outcome = .error (.diagnostic d) →
        d.cause = .targetNotVariable →
        ∃ σ front target mark e t, c.passed c' = front ++ (target ++ [mark]) ∧ Begins true front ∧
          Derives σ .equality target e ∧ e.isVariable = false ∧ mark.kind = .mark .assign ∧
          firstTrace target = some t ∧ d.location = some t.location := by
  obtain ⟨input, read, -, -, hfront, -, hmove, -, hok, herror⟩ :=
    exists_read (sound_rule (o := o) n) table ht hpos
  refine ⟨_, hmove, fun e he hn => ?_, fun d hd hcause => ?_⟩
  · obtain ⟨σ, hderives⟩ := hok e he
    replace hderives := hderives (by rintro rfl; cases hn)
    obtain ⟨t, htrace, hl⟩ := hderives.exists_firstTrace hn
    rw [passed_add hfront]
    obtain ⟨rest, hrest⟩ := hfront
    exact ⟨σ, t, hrest ▸ firstTrace_append htrace rest, hl, hderives, hderives.standing hn⟩
  · obtain ⟨σ, front, target, mark, e, hread, hbegins, hderives, hv, hm, hl⟩ := herror d hd hcause
    obtain ⟨t, htrace, hstart⟩ := hderives.exists_firstTrace rfl
    rw [passed_add hfront]
    exact ⟨σ, front, target, mark, e, t, hread, hbegins, hderives, hv, hm, htrace,
      hl.trans hstart⟩

/-- The operands of greater-or-equal change places behind a parenthesis and a plus, and a product
that starts with a sign in parentheses is no target. -/
theorem Cursor.parse_locations_exchanged :
    let c : Cursor := ⟨tokenRow [.mark .semicolon none, .mark .openParen none, .mark .plus none,
      .identifier "a", .mark .closeParen none, .mark .greaterEqual none, .mark .minus none,
      .number 2, .endOfInput], 1⟩
    let c₁ : Cursor := ⟨tokenRow [.identifier "a", .mark .assign none, .mark .openParen none,
      .mark .minus none, .number 1, .mark .closeParen none, .mark .star none, .identifier "a",
      .mark .assign none, .number 2, .endOfInput], 0⟩
    (Terminated c.tokens = true ∧ 0 ≤ c.pos ∧ ∃ e,
      (c.parse (Nonterminal.relational.rule ⟨[], 0⟩) ⟨8, 1, [], 0⟩).1.outcome = .ok e ∧
      e.location = some ⟨none, 1, 4, 3⟩) ∧
    Terminated c₁.tokens = true ∧ 0 ≤ c₁.pos ∧ ∃ c₂,
      (c₁.parse (Nonterminal.program.rule ⟨[], 1⟩) ⟨8, 1, [], 0⟩).2 = c₂ ∧
      (c₁.parse (Nonterminal.program.rule ⟨[], 1⟩) ⟨8, 1, [], 0⟩).1.outcome = .error
        (.diagnostic ⟨.targetNotVariable, some ⟨none, 1, 4, 3⟩, none⟩) ∧
      ∃ front target mark t, c₁.passed c₂ = front ++ (target ++ [mark]) ∧
        firstTrace target = some t ∧ t.location = ⟨none, 1, 4, 3⟩ := by
  intro c c₁
  have ht : Terminated c.tokens = true := by decide
  have ht₁ : Terminated c₁.tokens = true := by decide
  have hok : (c.parse (Nonterminal.relational.rule ⟨[], 0⟩)
      ⟨8, 1, [], 0⟩).1.outcome.toOption.any (fun _ => true) = true := by decide +kernel
  have hfirst : firstTrace (c.tokens.drop 1) =
      some ⟨.identifier "a", "", ⟨none, 1, 4, 3⟩⟩ := by decide
  have hreject := eq_error_of_errorOf
    (show errorOf (c₁.parse (Nonterminal.program.rule ⟨[], 1⟩) ⟨8, 1, [], 0⟩).1.outcome =
      some (.diagnostic ⟨.targetNotVariable, some ⟨none, 1, 4, 3⟩, none⟩) by decide +kernel)
  obtain ⟨e, he, -⟩ := exists_of_any_toOption hok
  obtain ⟨_, -, hread, -⟩ := Cursor.parse_locations ⟨[], 0⟩ ⟨8, 1, [], 0⟩ .relational ht (by decide)
  obtain ⟨σ, t, htrace, hl, -⟩ := hread e he rfl
  obtain ⟨c₂, hc₂, -, hrejected⟩ :=
    Cursor.parse_locations ⟨[], 1⟩ ⟨8, 1, [], 0⟩ .program ht₁ (by decide)
  obtain ⟨_, front, target, mark, _, u, hpassed, -, -, -, -, hu, hlu⟩ := hrejected _ hreject rfl
  refine ⟨⟨ht, by decide, e, he, ?_⟩, ht₁, by decide, c₂, hc₂, hreject, front, target, mark, u,
    hpassed, hu, (Option.some.inj hlu).symm⟩
  rw [hl, ← Option.some.inj (hfirst.symm.trans htrace)]

end WordLang
