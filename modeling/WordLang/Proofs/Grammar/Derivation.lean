import WordLang.Proofs.Grammar.Equations

/-! The grammar as a relation between lists of tokens and trees. It knows nothing of the order in
which a parser tries things, nor of what may follow; binary levels are left recursive, assignment is
right recursive. -/
namespace WordLang

/-- What the binary levels join. -/
inductive Operands : Nonterminal → Nonterminal → Prop
  | equality : Operands .equality .relational
  | relational : Operands .relational .additive
  | additive : Operands .additive .term
  | term : Operands .term .unary

/-- The marks of the binary levels, and the trees that they make of what stands left and right of
them. A tree starts where its left part does. -/
inductive Joins : Nonterminal → Mark → (Node → Node → Node) → Prop
  | equal : Joins .equality .equal fun x y => .binary .equal x y x.location
  | notEqual : Joins .equality .notEqual fun x y => .binary .notEqual x y x.location
  | less : Joins .relational .less fun x y => .binary .less x y x.location
  | lessEqual : Joins .relational .lessEqual fun x y => .binary .lessEqual x y x.location
  | greater : Joins .relational .greater fun x y => .binary .less y x x.location
  | greaterEqual : Joins .relational .greaterEqual fun x y => .binary .lessEqual y x x.location
  | plus : Joins .additive .plus fun x y => .binary .add x y x.location
  | minus : Joins .additive .minus fun x y => .binary .sub x y x.location
  | star : Joins .term .star fun x y => .binary .mul x y x.location
  | slash : Joins .term .slash fun x y => .binary .div x y x.location

/-- The tokens that derive a tree from a rule, when names have the given offsets. -/
inductive Derives (σ : String → Nat) : Nonterminal → List Token → Node → Prop
  | number {t : Token} {v : Int} (h : t.lexeme = .number v) :
      Derives σ .primary [t] (.number v (some t.location))
  | name {t : Token} {x : String} (h : t.lexeme = .identifier x) :
      Derives σ .primary [t] (.var x (σ x) (some t.location))
  | parens {t u : Token} {ts : List Token} {e : Node} (ht : t.kind = .mark .openParen)
      (he : Derives σ .expression ts e) (hu : u.kind = .mark .closeParen) :
      Derives σ .primary (t :: (ts ++ [u])) e
  | unsigned {ts : List Token} {e : Node} (he : Derives σ .primary ts e) : Derives σ .unary ts e
  | plus {t : Token} {ts : List Token} {e : Node} (ht : t.kind = .mark .plus)
      (he : Derives σ .primary ts e) : Derives σ .unary (t :: ts) e
  | minus {t : Token} {ts : List Token} {e : Node} (ht : t.kind = .mark .minus)
      (he : Derives σ .primary ts e) :
      Derives σ .unary (t :: ts)
        (.binary .sub (.number 0 (some t.location)) e (some t.location))
  | operand {level below : Nonterminal} {ts : List Token} {e : Node} (hb : Operands level below)
      (he : Derives σ below ts e) : Derives σ level ts e
  | join {level below : Nonterminal} {t : Token} {m : Mark} {f : Node → Node → Node}
      {ts us : List Token} {e e' : Node} (hb : Operands level below) (hj : Joins level m f)
      (he : Derives σ level ts e) (ht : t.kind = .mark m) (he' : Derives σ below us e') :
      Derives σ level (ts ++ t :: us) (f e e')
  | bare {ts : List Token} {e : Node} (he : Derives σ .equality ts e) : Derives σ .assignment ts e
  | assign {t : Token} {ts us : List Token} {x : String} {o : Int} {l : Option Location} {e : Node}
      (hx : Derives σ .equality ts (.var x o l)) (ht : t.kind = .mark .assign)
      (he : Derives σ .assignment us e) :
      Derives σ .assignment (ts ++ t :: us) (.assign (.var x o l) e l)
  | expression {ts : List Token} {e : Node} (he : Derives σ .assignment ts e) :
      Derives σ .expression ts e
  | statement {ts : List Token} {e : Node} (he : Derives σ .expression ts e) :
      Derives σ .statement ts e
  | result {t : Token} {ts : List Token} {e : Node} (ht : t.kind = .mark .keywordReturn)
      (he : Derives σ .expression ts e) :
      Derives σ .statement (t :: ts) (.result e (some t.location))

/-- The tokens of a program and its statements. Statements are set off by semicolons, between which
there may be nothing. -/
inductive DerivesAll (σ : String → Nat) : List Token → List Node → Prop
  | nil : DerivesAll σ [] []
  | skip {t : Token} {ts : List Token} {ns : List Node} (ht : t.kind = .mark .semicolon)
      (h : DerivesAll σ ts ns) : DerivesAll σ (t :: ts) ns
  | last {ts : List Token} {n : Node} (hn : Derives σ .statement ts n) : DerivesAll σ ts [n]
  | cons {t : Token} {ts us : List Token} {n : Node} {ns : List Node}
      (hn : Derives σ .statement ts n) (ht : t.kind = .mark .semicolon)
      (h : DerivesAll σ us ns) : DerivesAll σ (ts ++ t :: us) (n :: ns)

theorem Token.isEnd_of_number {t : Token} {v : Int} (h : t.lexeme = .number v) :
    t.isEnd = false := by
  rw [Token.isEnd, Token.kind, h]
  rfl

theorem Token.isEnd_of_identifier {t : Token} {x : String} (h : t.lexeme = .identifier x) :
    t.isEnd = false := by
  rw [Token.isEnd, Token.kind, h]
  rfl

namespace Derives

variable {σ : String → Nat} {n : Nonterminal} {ts : List Token} {e : Node}

/-- The end of input is no part of a derivation. -/
theorem isEnd_eq (h : Derives σ n ts e) : ∀ t ∈ ts, t.isEnd = false := by
  induction h with
  | number h => simpa using Token.isEnd_of_number h
  | name h => simpa using Token.isEnd_of_identifier h
  | parens ht _ hu ih =>
    have ht := Token.isEnd_of_mark ht
    have hu := Token.isEnd_of_mark hu
    grind
  | unsigned _ ih | operand _ _ ih | bare _ ih | expression _ ih | statement _ ih => exact ih
  | plus ht _ ih | minus ht _ ih | result ht _ ih =>
    have ht := Token.isEnd_of_mark ht
    grind
  | join _ _ _ ht _ ih ih' | assign _ ht _ ih ih' =>
    have ht := Token.isEnd_of_mark ht
    grind

theorem ne_nil (h : Derives σ n ts e) : ts ≠ [] := by
  induction h with
  | unsigned _ ih | operand _ _ ih | bare _ ih | expression _ ih | statement _ ih => exact ih
  | _ => simp

/-- An operand is a derivation at every level above it. -/
theorem equality_of_unary (h : Derives σ .unary ts e) : Derives σ .equality ts e :=
  .operand .equality (.operand .relational (.operand .additive (.operand .term h)))

theorem assignment_of_expression (h : Derives σ .expression ts e) : Derives σ .assignment ts e := by
  cases h with
  | operand hb => cases hb
  | join hb => cases hb
  | expression h => exact h

theorem expression_of_primary (h : Derives σ .primary ts e) : Derives σ .expression ts e :=
  .expression (.bare (.equality_of_unary (.unsigned h)))

end Derives

theorem DerivesAll.isEnd_eq {σ : String → Nat} {ts : List Token} {ns : List Node}
    (h : DerivesAll σ ts ns) : ∀ t ∈ ts, t.isEnd = false := by
  induction h with
  | nil => simp
  | skip ht _ ih =>
    have ht := Token.isEnd_of_mark ht
    grind
  | last hn => exact hn.isEnd_eq
  | cons hn ht _ ih =>
    have ht := Token.isEnd_of_mark ht
    have := hn.isEnd_eq
    grind

/-! ### What can be assigned to -/

/-- A name in any number of parentheses, with a plus before any of them; the flag tells of a plus at
the front, where there can be one only. -/
inductive Target : Bool → List Token → Prop
  | name {t : Token} (h : t.kind = .identifier) : Target false [t]
  | parens {t u : Token} {ts : List Token} {signed : Bool} (ht : t.kind = .mark .openParen)
      (h : Target signed ts) (hu : u.kind = .mark .closeParen) : Target false (t :: (ts ++ [u]))
  | plus {t : Token} {ts : List Token} (ht : t.kind = .mark .plus) (h : Target false ts) :
      Target true (t :: ts)

theorem Token.exists_identifier {t : Token} (h : t.kind = .identifier) :
    ∃ x, t.lexeme = .identifier x := by
  rw [Token.kind] at h
  cases hl : t.lexeme with
  | identifier x => exact ⟨x, rfl⟩
  | _ => rw [hl] at h; cases h

theorem Derives.target {σ : String → Nat} {n : Nonterminal} {ts : List Token} {e : Node}
    (h : Derives σ n ts e) (he : e.isVariable = true) :
    (∃ signed, Target signed ts) ∧ (n = .primary → Target false ts) := by
  induction h with
  | number h => cases he
  | @name t x h =>
    have hn : Target false [t] := .name (by rw [Token.kind, h]; rfl)
    exact ⟨⟨_, hn⟩, fun _ => hn⟩
  | parens ht _ hu ih =>
    obtain ⟨⟨signed, h⟩, -⟩ := ih he
    exact ⟨⟨_, .parens ht h hu⟩, fun _ => .parens ht h hu⟩
  | unsigned _ ih => exact ⟨⟨_, (ih he).2 rfl⟩, by simp⟩
  | plus ht _ ih => exact ⟨⟨_, .plus ht ((ih he).2 rfl)⟩, by simp⟩
  | minus => cases he
  | operand hb _ ih => exact ⟨(ih he).1, by rintro rfl; cases hb⟩
  | join _ hj => cases hj <;> cases he
  | bare _ ih | expression _ ih | statement _ ih => exact ⟨(ih he).1, by simp⟩
  | assign => cases he
  | result => cases he

theorem Target.derives {signed : Bool} {ts : List Token} (h : Target signed ts)
    (σ : String → Nat) : ∃ e, e.isVariable = true ∧ Derives σ .unary ts e ∧
      (signed = false → Derives σ .primary ts e) := by
  induction h with
  | name h =>
    obtain ⟨x, hx⟩ := Token.exists_identifier h
    exact ⟨_, rfl, .unsigned (.name hx), fun _ => .name hx⟩
  | parens ht _ hu ih =>
    obtain ⟨e, hv, he, -⟩ := ih
    have hp := Derives.parens ht (.expression (.bare he.equality_of_unary)) hu
    exact ⟨e, hv, .unsigned hp, fun _ => hp⟩
  | plus ht _ ih =>
    obtain ⟨e, hv, -, he⟩ := ih
    exact ⟨e, hv, .plus ht (he rfl), nofun⟩

/-- A variable stands left of an assignment just where there is a name under parentheses and
pluses. -/
theorem exists_derives_variable_iff {σ : String → Nat} {ts : List Token} :
    (∃ e, Derives σ .equality ts e ∧ e.isVariable = true) ↔ ∃ signed, Target signed ts := by
  constructor
  · rintro ⟨e, h, he⟩
    exact (h.target he).1
  · rintro ⟨signed, h⟩
    obtain ⟨e, hv, he, -⟩ := h.derives σ
    exact ⟨e, he.equality_of_unary, hv⟩

end WordLang
