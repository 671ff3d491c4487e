import WordLang.Proofs.Grammar.Completeness

/-! Parentheses in derivations. Derived tokens close what they open, and where no parenthesis is
open they can be taken apart in one way only: a number, a name or a group in parentheses is not
split, and what is joined to it by a mark is joined to all of it. -/
namespace WordLang

/-! ### Depth -/

/-- What a token adds to the number of open parentheses. -/
def Token.weight (t : Token) : Int :=
  if t.kind = .mark .openParen then 1 else if t.kind = .mark .closeParen then -1 else 0

/-- The parentheses that tokens open, less those that they close. -/
def depth : List Token → Int
  | [] => 0
  | t :: ts => t.weight + depth ts

@[simp] theorem depth_nil : depth [] = 0 := rfl

@[simp] theorem depth_cons (t : Token) (ts : List Token) :
    depth (t :: ts) = t.weight + depth ts := rfl

@[simp] theorem depth_append (ts us : List Token) : depth (ts ++ us) = depth ts + depth us := by
  induction ts with
  | nil => exact (Int.zero_add _).symm
  | cons t ts ih => rw [List.cons_append, depth_cons, depth_cons, ih, Int.add_assoc]

namespace Token

variable {t : Token} {m : Mark}

theorem weight_of_openParen (h : t.kind = .mark .openParen) : t.weight = 1 := if_pos h

theorem weight_of_closeParen (h : t.kind = .mark .closeParen) : t.weight = -1 := by
  rw [weight, h]
  rfl

theorem weight_of_mark (h : t.kind = .mark m) (ho : m ≠ .openParen) (hc : m ≠ .closeParen) :
    t.weight = 0 := by
  simp [weight, h, ho, hc]

/-- A token that an operand without a sign can start with. -/
def StartsOperand (t : Token) : Prop :=
  t.kind = .number ∨ t.kind = .identifier ∨ t.kind = .mark .openParen

theorem StartsOperand.ne_mark (h : t.StartsOperand) (hm : m ≠ .openParen) : t.kind ≠ .mark m := by
  intro ht
  rw [StartsOperand, ht] at h
  simp [hm] at h

end Token

/-- Of two places in a list, one is before the other, unless both are the same. -/
theorem append_cons_cases {as bs cs ds : List Token} {t u : Token}
    (h : as ++ t :: bs = cs ++ u :: ds) :
    (as = cs ∧ t = u ∧ bs = ds) ∨ (∃ more, cs = as ++ t :: more) ∨
      ∃ more, as = cs ++ u :: more ∧ ds = more ++ t :: bs := by
  simp only [List.append_eq_append_iff, List.cons_eq_append_iff, List.cons_eq_cons] at h
  rcases h with ⟨_, rfl, ⟨rfl, rfl, rfl⟩ | ⟨more, rfl, -⟩⟩ |
    ⟨_, rfl, ⟨rfl, rfl, rfl⟩ | ⟨more, rfl, hds⟩⟩
  · exact .inl ⟨(List.append_nil as).symm, rfl, rfl⟩
  · exact .inr (.inl ⟨more, rfl⟩)
  · exact .inl ⟨List.append_nil cs, rfl, rfl⟩
  · exact .inr (.inr ⟨more, rfl, hds⟩)

/-- Tokens that close just what they have opened. -/
structure Balanced (ts : List Token) : Prop where
  depth_eq : depth ts = 0
  nonneg : ∀ front back, front ++ back = ts → 0 ≤ depth front

/-- Tokens of one operand: wherever they are cut, a parenthesis is open. -/
structure Sealed (ts : List Token) : Prop where
  head : ∃ t rest, ts = t :: rest ∧ t.StartsOperand
  depth_eq : depth ts = 0
  inner : ∀ front back, front ++ back = ts → front ≠ [] → back ≠ [] → 0 < depth front

namespace Balanced

variable {ts us : List Token} {t u : Token}

theorem single (h : t.weight = 0) : Balanced [t] := by
  refine ⟨by simp [h], fun front back heq => ?_⟩
  rcases List.append_eq_singleton_iff.mp heq with ⟨rfl, -⟩ | ⟨rfl, -⟩ <;> simp [h]

theorem append (h : Balanced ts) (h' : Balanced us) : Balanced (ts ++ us) := by
  refine ⟨by simp [h.depth_eq, h'.depth_eq], fun front back heq => ?_⟩
  rcases List.append_eq_append_iff.mp heq with ⟨as, rfl, -⟩ | ⟨bs, rfl, rfl⟩
  · exact h.nonneg front as rfl
  · rw [depth_append, h.depth_eq, Int.zero_add]
    exact h'.nonneg bs back rfl

theorem cons (ht : t.weight = 0) (h : Balanced ts) : Balanced (t :: ts) := (single ht).append h

end Balanced

namespace Sealed

variable {as bs ts us : List Token} {t u o : Token} {m : Mark}

theorem ne_nil (h : Sealed ts) : ts ≠ [] := by
  obtain ⟨t, rest, rfl, -⟩ := h.head
  exact List.cons_ne_nil t rest

theorem single (h : t.kind = .number ∨ t.kind = .identifier) : Sealed [t] := by
  have hw : t.weight = 0 := by
    rcases h with h | h <;> simp [Token.weight, h]
  refine ⟨⟨t, [], rfl, ?_⟩, by simp [hw], fun front back heq hf hb => ?_⟩
  · rcases h with h | h
    · exact .inl h
    · exact .inr (.inl h)
  · rcases List.append_eq_singleton_iff.mp heq with ⟨rfl, -⟩ | ⟨-, rfl⟩
    · exact absurd rfl hf
    · exact absurd rfl hb

theorem number {v : Int} (h : t.lexeme = .number v) : Sealed [t] :=
  single (.inl (by rw [Token.kind, h]; rfl))

theorem name {x : String} (h : t.lexeme = .identifier x) : Sealed [t] :=
  single (.inr (by rw [Token.kind, h]; rfl))

/-- Within a group its first parenthesis is open. -/
theorem group (ht : t.kind = .mark .openParen) (h : Balanced ts) (hu : u.kind = .mark .closeParen) :
    Sealed (t :: (ts ++ [u])) := by
  have hopen := Token.weight_of_openParen ht
  refine ⟨⟨t, _, rfl, .inr (.inr ht)⟩, ?_, fun front back heq hf hb => ?_⟩
  · simp [hopen, Token.weight_of_closeParen hu, h.depth_eq]
  · obtain ⟨a, front, rfl⟩ := List.exists_cons_of_ne_nil hf
    obtain ⟨rfl, htail⟩ := List.cons.inj heq
    obtain ⟨as, x, rfl⟩ := (List.eq_nil_or_concat back).resolve_left hb
    rw [List.concat_eq_append, List.append_eq, ← List.append_assoc] at htail
    have := h.nonneg front as (List.append_inj' htail rfl).1
    rw [depth_cons, hopen]
    omega

theorem balanced (h : Sealed ts) : Balanced ts := by
  refine ⟨h.depth_eq, fun front back heq => ?_⟩
  rcases eq_or_ne front [] with rfl | hf
  · exact Int.le_refl 0
  rcases eq_or_ne back [] with rfl | hb
  · rw [List.append_nil] at heq
    exact heq ▸ Int.le_of_eq h.depth_eq.symm
  · exact Int.le_of_lt (h.inner front back heq hf hb)

/-- No operand is a part of another one at its front. -/
theorem ne_append_cons (h : Sealed as) (h' : Sealed ts) : ts ≠ as ++ o :: bs := by
  intro heq
  have hinner := h'.inner as (o :: bs) heq.symm h.ne_nil (List.cons_ne_nil o bs)
  rw [h.depth_eq] at hinner
  exact Int.lt_irrefl 0 hinner

/-- Tokens that are split behind balanced ones are split behind the operand at their front, or later
than that. -/
theorem split (h : Sealed as) (hts : ts ≠ []) (hd : depth ts = 0)
    (heq : ts ++ t :: us = as ++ o :: bs) :
    (ts = as ∧ t = o ∧ us = bs) ∨ ∃ more, ts = as ++ o :: more ∧ bs = more ++ t :: us := by
  rcases append_cons_cases heq with heq | ⟨more, rfl⟩ | hlater
  · exact .inl heq
  · -- the balanced tokens would be a part of the operand
    have hinner := h.inner ts (t :: more) rfl hts (List.cons_ne_nil t more)
    rw [hd] at hinner
    exact absurd hinner (Int.lt_irrefl 0)
  · exact .inr hlater

end Sealed

/-! ### Derived tokens -/

theorem Joins.ne_parens {level : Nonterminal} {m : Mark} {f : Node → Node → Node}
    (h : Joins level m f) : m ≠ .openParen ∧ m ≠ .closeParen := by
  cases h <;> decide

namespace Derives

variable {σ : String → Nat} {n : Nonterminal} {ts : List Token} {e : Node}

/-- Derived tokens close just what they open. -/
theorem balanced (h : Derives σ n ts e) : Balanced ts := by
  induction h with
  | number h => exact (Sealed.number h).balanced
  | name h => exact (Sealed.name h).balanced
  | parens ht _ hu ih => exact (Sealed.group ht ih hu).balanced
  | unsigned _ ih | operand _ _ ih | bare _ ih | expression _ ih | statement _ ih => exact ih
  | plus ht _ ih | minus ht _ ih | result ht _ ih =>
    exact ih.cons (Token.weight_of_mark ht (by decide) (by decide))
  | join _ hj _ ht _ ih ih' =>
    exact ih.append (ih'.cons (Token.weight_of_mark ht hj.ne_parens.1 hj.ne_parens.2))
  | assign _ ht _ ih ih' =>
    exact ih.append (ih'.cons (Token.weight_of_mark ht (by decide) (by decide)))

/-- Below assignments, an equals sign stands under an open parenthesis. -/
theorem depth_pos_of_assign (h : Derives σ n ts e) (hn : n.rank ≤ 4) {front back : List Token}
    {t : Token} (ht : t.kind = .mark .assign) (heq : front ++ t :: back = ts) :
    0 < depth front := by
  induction h generalizing front back with
  | number h | name h =>
    rcases List.append_eq_singleton_iff.mp heq with ⟨rfl, heq⟩ | ⟨rfl, heq⟩
    · obtain ⟨rfl, -⟩ := List.cons.inj heq
      rw [Token.kind, h] at ht
      cases ht
    · cases heq
  | @parens t₀ u us e ht₀ he hu =>
    refine (Sealed.group ht₀ he.balanced hu).inner front (t :: back) heq ?_ (List.cons_ne_nil _ _)
    rintro rfl
    obtain ⟨rfl, -⟩ := List.cons.inj heq
    rw [ht] at ht₀
    cases ht₀
  | unsigned _ ih => exact ih (by decide) heq
  | plus ht₀ _ ih | minus ht₀ _ ih =>
    cases front with
    | nil =>
      obtain ⟨rfl, -⟩ := List.cons.inj heq
      rw [ht] at ht₀
      cases ht₀
    | cons a front =>
      obtain ⟨rfl, htail⟩ := List.cons.inj heq
      have := ih (by decide) htail
      rw [depth_cons, Token.weight_of_mark ht₀ (by decide) (by decide)]
      omega
  | operand hb _ ih => exact ih (Nat.le_of_lt (Nat.lt_of_lt_of_le hb.rank_lt hn)) heq
  | @join level below t₀ m f us vs x y hb hj hx ht₀ _ ih ih' =>
    rcases append_cons_cases heq with ⟨-, rfl, -⟩ | ⟨more, rfl⟩ | ⟨more, rfl, hvs⟩
    · rw [ht] at ht₀
      cases ht₀
      cases hj
    · exact ih hn rfl
    · have := ih' (Nat.le_of_lt (Nat.lt_of_lt_of_le hb.rank_lt hn)) hvs.symm
      rw [depth_append, depth_cons, hx.balanced.depth_eq,
        Token.weight_of_mark ht₀ hj.ne_parens.1 hj.ne_parens.2]
      omega
  | bare | assign | expression | statement | result => exact absurd hn (by decide)

/-- An operation is derived below assignments. -/
theorem exists_level_of_binary {op : Operator} {x y : Node} {l : Option Location}
    (h : Derives σ n ts (.binary op x y l)) :
    ∃ level : Nonterminal, level.rank ≤ 4 ∧ Derives σ level ts (.binary op x y l) := by
  generalize he : Node.binary op x y l = e at h ⊢
  induction h with
  | number | name | assign | result => cases he
  | parens ht hi hu => exact ⟨.primary, by decide, .parens ht hi hu⟩
  | unsigned hi => exact ⟨.unary, by decide, .unsigned hi⟩
  | plus ht hi => exact ⟨.unary, by decide, .plus ht hi⟩
  | minus ht hi => exact ⟨.unary, by decide, .minus ht hi⟩
  | @operand level _ _ _ hb hi => exact ⟨level, by cases hb <;> decide, .operand hb hi⟩
  | @join level _ _ _ _ _ _ _ _ hb hj hi ht hi' =>
    exact ⟨level, by cases hb <;> decide, .join hb hj hi ht hi'⟩
  | bare hi => exact ⟨.equality, by decide, hi⟩
  | expression _ ih | statement _ ih => exact ih he

end Derives

/-! ### One way to take tokens apart -/

/-- What an operand, a token and more tokens are a derivation of. The operand is the left part of a
join or the target of an assignment, unless the derivation goes on over the token and is split
later. -/
inductive Splits (σ : String → Nat) (as : List Token) (o : Token) (bs : List Token) : Node → Prop
  | join {level below : Nonterminal} {m : Mark} {f : Node → Node → Node} {x y : Node}
      (hj : Joins level m f) (ho : o.kind = .mark m) (hx : Derives σ level as x)
      (hy : Derives σ below bs y) : Splits σ as o bs (f x y)
  | assign {x : String} {offset : Int} {l : Option Location} {v : Node}
      (ho : o.kind = .mark .assign) (hv : Derives σ .assignment bs v) :
      Splits σ as o bs (.assign (.var x offset l) v l)
  | later {level : Nonterminal} {more us : List Token} {t : Token} {m : Mark} {x e : Node}
      (hr : level.rank ≤ 4) (hx : Derives σ level (as ++ o :: more) x) (ht : t.kind = .mark m)
      (hm : m ≠ .openParen) (hus : us ≠ []) (hbs : bs = more ++ t :: us) : Splits σ as o bs e

namespace Derives

variable {σ : String → Nat} {n : Nonterminal} {as bs ts : List Token} {o t u : Token} {e : Node}

theorem splits (h : Derives σ n ts e) (ha : Sealed as) (heq : ts = as ++ o :: bs) :
    Splits σ as o bs e := by
  obtain ⟨a, rest, rfl, hstart⟩ := ha.head
  induction h generalizing bs with
  | number | name => simp at heq
  | parens ht he hu => exact absurd heq (ha.ne_append_cons (.group ht he.balanced hu))
  | unsigned _ ih | operand _ _ ih | bare _ ih | expression _ ih | statement _ ih => exact ih heq
  | plus ht | minus ht | result ht =>
    rw [(List.cons.inj heq).1] at ht
    exact absurd ht (hstart.ne_mark (by decide))
  | @join level below t m f us vs x y hb hj hx ht hy =>
    rcases ha.split hx.ne_nil hx.balanced.depth_eq heq with ⟨rfl, rfl, rfl⟩ | ⟨more, rfl, hbs⟩
    · exact .join hj ht hx hy
    · exact .later (by cases hb <;> decide) hx ht hj.ne_parens.1 hy.ne_nil hbs
  | @assign t us vs x offset l v hx ht hv =>
    rcases ha.split hx.ne_nil hx.balanced.depth_eq heq with ⟨rfl, rfl, rfl⟩ | ⟨more, rfl, hbs⟩
    · exact .assign ht hv
    · exact .later (by decide) hx ht (by decide) hv.ne_nil hbs

/-- Two operands and a mark between them are a join. -/
theorem exists_join {m : Mark} (h : Derives σ n (as ++ o :: bs) e) (ha : Sealed as)
    (hb : Sealed bs) (ho : o.kind = .mark m) (hm : m.rank ≤ 4) :
    ∃ level f n₁ x n₂ y, Joins level m f ∧ Derives σ n₁ as x ∧ Derives σ n₂ bs y ∧
      e = f x y := by
  cases h.splits ha rfl with
  | @join level below m' f x y hj ho' hx hy =>
    rw [ho] at ho'
    cases ho'
    exact ⟨level, f, level, x, below, y, hj, hx, hy, rfl⟩
  | assign ho' =>
    rw [ho] at ho'
    cases ho'
    exact absurd hm (by decide)
  | @later level more us t m' x e hr hx ht hm' hus hbs =>
    exfalso
    cases more with
    | nil =>
      obtain ⟨a, rest, rfl, hstart⟩ := hb.head
      rw [(List.cons.inj hbs).1] at hstart
      exact hstart.ne_mark hm' ht
    | cons a more =>
      have hinner := hb.inner (a :: more) (t :: us) hbs.symm (List.cons_ne_nil _ _)
        (List.cons_ne_nil _ _)
      have hdepth := hx.balanced.depth_eq
      have hweight : o.weight = 0 := Token.weight_of_mark ho
        (by rintro rfl; exact absurd hm (by decide)) (by rintro rfl; exact absurd hm (by decide))
      rw [depth_append, depth_cons, ha.depth_eq, hweight] at hdepth
      omega

/-- An operand before an equals sign is the target of an assignment. -/
theorem exists_assign (h : Derives σ n (as ++ o :: bs) e) (ha : Sealed as)
    (ho : o.kind = .mark .assign) :
    ∃ x offset l v, e = .assign (.var x offset l) v l ∧ Derives σ .assignment bs v := by
  cases h.splits ha rfl with
  | join hj ho' =>
    rw [ho] at ho'
    cases ho'
    cases hj
  | assign ho hv => exact ⟨_, _, _, _, rfl, hv⟩
  | later hr hx =>
    have hpos := hx.depth_pos_of_assign hr ho rfl
    rw [ha.depth_eq] at hpos
    exact absurd hpos (Int.lt_irrefl 0)

/-- A group in parentheses is what it holds. -/
theorem expression_of_group (h : Derives σ n (t :: (ts ++ [u])) e) (ht : t.kind = .mark .openParen)
    (hs : Sealed (t :: (ts ++ [u]))) : Derives σ .expression ts e := by
  generalize heq : t :: (ts ++ [u]) = all at h hs
  induction h with
  | number | name => simp at heq
  | parens ht' he hu =>
    obtain ⟨-, htail⟩ := List.cons.inj heq
    rwa [(List.append_inj' htail rfl).1]
  | unsigned _ ih | operand _ _ ih | bare _ ih | expression _ ih | statement _ ih => exact ih heq hs
  | plus ht' | minus ht' | result ht' =>
    rw [← (List.cons.inj heq).1, ht] at ht'
    cases ht'
  | join _ _ hx | assign hx =>
    have hinner := hs.inner _ _ rfl hx.ne_nil (List.cons_ne_nil _ _)
    rw [hx.balanced.depth_eq] at hinner
    exact absurd hinner (Int.lt_irrefl 0)

end Derives

end WordLang
