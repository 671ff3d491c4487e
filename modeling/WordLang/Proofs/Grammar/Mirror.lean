import WordLang.Proofs.Grammar.Allocation
import WordLang.Proofs.Grammar.Relocation

/-! A comparison and its mirror image are the same tree. What a rule reads does not depend on what
follows it, so either order of two operands reads both of them as each is read alone, and where all
names have slots neither order hands out a new one. -/
namespace WordLang

/-! ### Trees built of other trees -/

mutual

theorem Node.agrees_symm : (n m : Node) → n.agrees m = true → m.agrees n = true
  | .number .., m, h => by
    obtain ⟨l', rfl⟩ := exists_of_number_agrees h
    simp [agrees]
  | .var .., m, h => by
    obtain ⟨l', rfl⟩ := exists_of_var_agrees h
    simp [agrees]
  | .assign t v _, m, h => by
    obtain ⟨t', v', l', rfl, ht, hv⟩ := exists_of_assign_agrees h
    rw [agrees, Node.agrees_symm t t' ht, Node.agrees_symm v v' hv]
    rfl
  | .binary op x y _, m, h => by
    obtain ⟨x', y', l', rfl, hx, hy⟩ := exists_of_binary_agrees h
    rw [agrees, Node.agrees_symm x x' hx, Node.agrees_symm y y' hy, beq_self_eq_true]
    rfl
  | .result v _, m, h => by
    obtain ⟨v', l', rfl, hv⟩ := exists_of_result_agrees h
    rw [agrees, Node.agrees_symm v v' hv]
  | .program ss _, m, h => by
    cases m with
    | program ss' _ => exact Node.agreesList_symm ss ss' h
    | _ => simp [agrees] at h
  | .bareExpression _, m, h => by
    cases m with
    | bareExpression => rfl
    | _ => simp [agrees] at h
  | .bareNode _, m, h => by
    cases m with
    | bareNode => rfl
    | _ => simp [agrees] at h

theorem Node.agreesList_symm : (ns ms : List Node) →
    Node.agreesList ns ms = true → Node.agreesList ms ns = true
  | [], [], _ => rfl
  | [], _ :: _, h => by simp [agreesList] at h
  | _ :: _, [], h => by simp [agreesList] at h
  | n :: ns, m :: ms, h => by
    simp only [agreesList, Bool.and_eq_true] at h ⊢
    exact ⟨Node.agrees_symm n m h.1, Node.agreesList_symm ns ms h.2⟩

end

/-- Trees that are built alike, one of a tree and the other of another in its stead, as often as one
likes. Places play no part. -/
inductive Node.BuiltAlike (x y : Node) : Node → Node → Prop
  | here : BuiltAlike x y x y
  | same {n m : Node} (h : n.agrees m = true) : BuiltAlike x y n m
  | assign {t t' v v' : Node} {l l' : Option Location} (ht : BuiltAlike x y t t')
      (hv : BuiltAlike x y v v') : BuiltAlike x y (.assign t v l) (.assign t' v' l')
  | binary {op : Operator} {a a' b b' : Node} {l l' : Option Location} (ha : BuiltAlike x y a a')
      (hb : BuiltAlike x y b b') : BuiltAlike x y (.binary op a b l) (.binary op a' b' l')
  | result {v v' : Node} {l l' : Option Location} (hv : BuiltAlike x y v v') :
      BuiltAlike x y (.result v l) (.result v' l')

theorem Node.BuiltAlike.agrees {x y n m : Node} (h : BuiltAlike x y n m)
    (hxy : x.agrees y = true) : n.agrees m = true := by
  induction h with
  | here => exact hxy
  | same h => exact h
  | assign _ _ iht ihv => rw [Node.agrees, iht, ihv]; rfl
  | binary _ _ iha ihb => rw [Node.agrees, iha, ihb, beq_self_eq_true]; rfl
  | result _ ihv => rw [Node.agrees, ihv]

/-- Statements that are built alike of trees that agree have the same assembly, or none. -/
theorem Program.assembly_iff_of_builtAlike {x y : Node} (hxy : x.agrees y = true) {P Q : Program}
    (h : List.Forall₂ (Node.BuiltAlike x y) P.statements Q.statements) (frameSize : Int)
    (comments : Bool) (lines : List AssemblyLine) :
    P.assembly frameSize comments = .ok lines ↔ Q.assembly frameSize comments = .ok lines := by
  have hagrees : P.node.agrees Q.node = true := by
    rw [Program.node, Program.node, Node.agrees]
    exact agreesList_of_forall₂ (fun _ _ hn => hn.agrees hxy) h
  exact ⟨assembly_of_agrees hagrees, assembly_of_agrees (Node.agrees_symm _ _ hagrees)⟩

/-! ### Tables in which names have one slot -/

namespace SlotTable

variable {t : SlotTable}

theorem agrees_lookupOffset (h : t.names.Nodup) : t.Agrees t.lookupOffset := by
  intro slot hs
  obtain ⟨slot', hslot'⟩ := exists_lookup?_of_mem_names (List.mem_map_of_mem hs)
  obtain ⟨hs', hname⟩ := mem_names_of_lookup? hslot'
  rw [lookupOffset, hslot', List.inj_on_of_nodup_map h hs' hs hname]
  rfl

end SlotTable

/-! ### Other offsets for the same tokens -/

/-- A tree with other offsets for its variables. -/
def Node.placed (σ : String → Nat) : Node → Node
  | .var x _ l => .var x (σ x) l
  | .assign t v l => .assign (t.placed σ) (v.placed σ) l
  | .binary op x y l => .binary op (x.placed σ) (y.placed σ) l
  | .result v l => .result (v.placed σ) l
  | n => n

@[simp] theorem Node.location_placed (σ : String → Nat) (n : Node) :
    (n.placed σ).location = n.location := by
  cases n <;> rfl

theorem Joins.placed {n : Nonterminal} {m : Mark} {f : Node → Node → Node} (h : Joins n m f)
    (σ : String → Nat) (x y : Node) : (f x y).placed σ = f (x.placed σ) (y.placed σ) := by
  cases h <;> simp [Node.placed]

/-- What tokens derive does not depend on the offsets, but for the offsets in it. -/
theorem Derives.placed {σ : String → Nat} {n : Nonterminal} {ts : List Token} {e : Node}
    (h : Derives σ n ts e) (σ' : String → Nat) : Derives σ' n ts (e.placed σ') := by
  induction h with
  | number h => exact .number h
  | name h => exact .name h
  | parens ht _ hu ih => exact .parens ht ih hu
  | unsigned _ ih => exact .unsigned ih
  | plus ht _ ih => exact .plus ht ih
  | minus ht _ ih => exact .minus ht ih
  | operand hb _ ih => exact .operand hb ih
  | join hb hj _ ht _ ih ih' =>
    rw [hj.placed]
    exact .join hb hj ih ht ih'
  | bare _ ih => exact .bare ih
  | assign _ ht _ ih ih' => exact .assign ih ht ih'
  | expression _ ih => exact .expression ih
  | statement _ ih => exact .statement ih
  | result ht _ ih => exact .result ht ih

/-! ### Rules that read all there is -/

/-- A rule reads tokens up to the end of input, which stands behind them. -/
def Nonterminal.ReadsAll (n : Nonterminal) (o : ParseSettings) (table : SlotTable)
    (ts : List Token) (last : Token) (e : Node) (table' : SlotTable) : Prop :=
  (⟨ts ++ [last], 0⟩ : Cursor).parse (n.rule o) table =
    (⟨.ok e, table'⟩, ⟨ts ++ [last], ts.length⟩)

/-- A rule consumes tokens completely, whatever they need a table for. -/
def Nonterminal.Covers (n : Nonterminal) (ts : List Token) : Prop :=
  ∃ o table last e table', table.names.Nodup ∧ last.isEnd = true ∧
    n.ReadsAll o table ts last e table'

section ReadsAll

variable {n : Nonterminal} {o : ParseSettings} {table table' : SlotTable} {ts : List Token}
  {last : Token} {e : Node}

theorem sound_bounded {atOnce : Bool} {rule : Parse Node → Parse Node}
    (h : ∀ {inner : Parse Node}, Sound true (fun σ => Derives σ .expression) inner →
      Sound atOnce (fun σ => Derives σ n) (rule inner)) :
    Sound atOnce (fun σ => Derives σ n) (Grammar.bounded o rule) := by
  intro s hs
  refine SoundAt.congr ?_ (show Grammar.bounded o rule s =
    rule (Grammar.expressionWithin o s.input.length) s from rfl)
  exact h (sound_expressionWithin s.input.length) s hs

theorem Nonterminal.ReadsAll.derives {atOnce : Bool} (h : n.ReadsAll o table ts last e table')
    (hn : Sound atOnce (fun σ => Derives σ n) (n.rule o)) (hlast : last.isEnd = true) :
    table' = table.enter ts ∧ ∀ σ, table'.Resolves σ → Derives σ n ts e := by
  obtain ⟨input, hi, hend⟩ := TokenStream.exists_toList_eq ts hlast
  have hsound := hn ⟨input, table⟩ hend
  rw [ReadsAll, ← hi] at h
  rw [SoundAt] at hsound
  cases hr : n.rule o ⟨input, table⟩ with
  | error d s' =>
    rw [Cursor.parse_of_error hr] at h
    cases h
  | ok e' s' =>
    rw [hr] at hsound
    obtain ⟨p, hp, -, hd⟩ := hsound
    obtain ⟨htake, hlen⟩ := hp.take_eq
    rw [Cursor.parse_of_ok hr, hlen, Int.zero_add] at h
    simp only [Prod.mk.injEq, Parsed.mk.injEq, Except.ok.injEq, Cursor.mk.injEq, true_and,
      Int.ofNat_inj] at h
    obtain ⟨⟨rfl, rfl⟩, hcount⟩ := h
    obtain rfl : p = ts := by rw [← htake, hi, hcount, List.take_left]
    exact ⟨hp.slots, hd⟩

/-- What is derived is read, whatever comes before the end of input, if all its names have slots;
and no slot is handed out. -/
theorem Operands.readsAll {below : Nonterminal} (hb : Operands n below) {σ : String → Nat}
    (h : Derives σ n ts e) (hσ : table.Agrees σ)
    (hknown : ∀ tok ∈ ts, ∀ x ∈ tok.name?, x ∈ table.names) (hlast : last.isEnd = true) :
    n.ReadsAll o table ts last e table := by
  obtain ⟨input, hi, -⟩ := TokenStream.exists_toList_eq ts hlast
  obtain ⟨henter, hfits⟩ := SlotTable.enter_of_known hknown
  have hs : Offers σ (Closes n) ts ⟨input, table⟩ :=
    ⟨⟨last, [], hi, closes_of_isEnd hlast⟩, hfits, by rwa [henter]⟩
  have hrule : n.rule o ⟨input, table⟩ =
      levelRule o (Grammar.expressionWithin o input.length) n ⟨input, table⟩ := by
    cases hb <;> rfl
  obtain ⟨s', hok, hread⟩ := h.parsable.accepted (by cases hb <;> decide) input.length
    ⟨input, table⟩ (Nat.le_trans (Nat.le_of_lt hs.length_lt) (Nat.le_add_right _ _)) hs
  rw [Nonterminal.ReadsAll, ← hi, Cursor.parse_of_ok (hrule.trans hok), hread.take_eq.2,
    hread.slots, henter, Int.zero_add]

end ReadsAll

/-! ### Mirrored comparisons -/

/-- A mark, the mark that says the same from right to left, and the operator that both stand for. -/
inductive Mirrored : Mark → Mark → Operator → Prop
  | less : Mirrored .greater .less .less
  | lessEqual : Mirrored .greaterEqual .lessEqual .lessEqual

/-- A sum that is consumed completely has a tree in every table in which its names have slots. -/
theorem Nonterminal.Covers.derives {ts : List Token} (h : Nonterminal.additive.Covers ts)
    (σ : String → Nat) : ∃ e, Derives σ .additive ts e := by
  obtain ⟨o, table, last, e, table', hnodup, hlast, hread⟩ := h
  obtain ⟨rfl, hd⟩ := hread.derives (sound_bounded sound_additive) hlast
  obtain ⟨τ, hτ⟩ := (table.enter ts).exists_resolves
  exact ⟨_, (hd τ hτ).placed σ⟩

section Comparisons

variable {σ : String → Nat} {E₁ E₂ : List Token} {e₁ e₂ : Node} {t last : Token} {table : SlotTable}

theorem Joins.isExpression {n : Nonterminal} {m : Mark} {f : Node → Node → Node} (h : Joins n m f)
    (h₁ : e₁.IsExpression) (h₂ : e₂.IsExpression) : (f e₁ e₂).IsExpression := by
  cases h with
  | greater | greaterEqual => exact .binary (by decide) h₂ h₁
  | _ => exact .binary (by decide) h₁ h₂

theorem Derives.isExpression {n : Nonterminal} {ts : List Token} {e : Node}
    (h : Derives σ n ts e) (hn : n ≠ .statement) : e.IsExpression := by
  induction h with
  | number => exact .number
  | name => exact .var
  | minus _ _ ih => exact .binary (by decide) .number (ih (by decide))
  | parens _ _ _ ih | unsigned _ ih | plus _ _ ih | bare _ ih | expression _ ih =>
    exact ih (by decide)
  | operand hb _ ih => exact ih (by cases hb <;> decide)
  | join hb hj _ _ _ ih ih' => exact hj.isExpression (ih hn) (ih' (by cases hb <;> decide))
  | assign _ _ _ _ ih' => exact .assign (ih' (by decide))
  | statement | result => exact absurd rfl hn

/-- Two sums with a mark between them are read as a comparison. -/
theorem Joins.readsAll {m : Mark} {f : Node → Node → Node} (hj : Joins .relational m f)
    (ht : t.kind = .mark m) (h₁ : Derives σ .additive E₁ e₁) (h₂ : Derives σ .additive E₂ e₂)
    (hσ : table.Agrees σ) (hknown₁ : ∀ tok ∈ E₁, ∀ x ∈ tok.name?, x ∈ table.names)
    (hknown₂ : ∀ tok ∈ E₂, ∀ x ∈ tok.name?, x ∈ table.names) (hlast : last.isEnd = true)
    (o : ParseSettings) :
    Nonterminal.relational.ReadsAll o table (E₁ ++ t :: E₂) last (f e₁ e₂) table := by
  refine Operands.relational.readsAll (.join .relational hj (.operand .relational h₁) ht h₂) hσ
    (fun tok htok => ?_) hlast
  rw [List.mem_append, List.mem_cons] at htok
  obtain htok | rfl | htok := htok
  · exact hknown₁ tok htok
  · exact SlotTable.known_of_name?_none (Token.name?_of_mark ht)
  · exact hknown₂ tok htok

end Comparisons

/-- A comparison and its mirror image. Two sums that are consumed completely are read on either side
of a comparison as each is read alone, where all their names have slots. Both orders are read to the
end, neither hands out a slot, and their trees differ in places only. Statements that are built
alike of the two trees have the same assembly. -/
theorem mirrored_comparisons {E₁ E₂ : List Token} (h₁ : Nonterminal.additive.Covers E₁)
    (h₂ : Nonterminal.additive.Covers E₂) {table : SlotTable} (htable : table.names.Nodup)
    (hknown₁ : ∀ tok ∈ E₁, ∀ x ∈ tok.name?, x ∈ table.names)
    (hknown₂ : ∀ tok ∈ E₂, ∀ x ∈ tok.name?, x ∈ table.names) {m₁ m₂ : Mark} {op : Operator}
    (hm : Mirrored m₁ m₂ op) {t₁ t₂ last₁ last₂ : Token} (ht₁ : t₁.kind = .mark m₁)
    (ht₂ : t₂.kind = .mark m₂) (hlast₁ : last₁.isEnd = true) (hlast₂ : last₂.isEnd = true)
    (o₁ o₂ : ParseSettings) :
    ∃ e₁ e₂, Nonterminal.additive.ReadsAll o₁ table E₁ last₁ e₁ table ∧
      Nonterminal.additive.ReadsAll o₂ table E₂ last₂ e₂ table ∧
      let n₁ : Node := .binary op e₂ e₁ e₁.location
      let n₂ : Node := .binary op e₂ e₁ e₂.location
      Nonterminal.relational.ReadsAll o₁ table (E₁ ++ t₁ :: E₂) last₁ n₁ table ∧
      Nonterminal.relational.ReadsAll o₂ table (E₂ ++ t₂ :: E₁) last₂ n₂ table ∧
      n₁.agrees n₂ = true ∧ n₁.IsExpression ∧ n₂.IsExpression ∧
      ∀ P Q : Program, List.Forall₂ (Node.BuiltAlike n₁ n₂) P.statements Q.statements →
        ∀ frameSize comments lines, P.assembly frameSize comments = .ok lines ↔
          Q.assembly frameSize comments = .ok lines := by
  have hσ := SlotTable.agrees_lookupOffset htable
  -- Both orders are derivations over the offsets of this table, whatever table covered the sums.
  obtain ⟨e₁, he₁⟩ := h₁.derives table.lookupOffset
  obtain ⟨e₂, he₂⟩ := h₂.derives table.lookupOffset
  have hagrees : (Node.binary op e₂ e₁ e₁.location).agrees (.binary op e₂ e₁ e₂.location) := by
    simp [Node.agrees, Node.agrees_refl]
  have hop : op ∈ Operator.known := by cases hm <;> decide
  have hx₁ := he₁.isExpression (by decide)
  have hx₂ := he₂.isExpression (by decide)
  refine ⟨e₁, e₂, Operands.additive.readsAll he₁ hσ hknown₁ hlast₁,
    Operands.additive.readsAll he₂ hσ hknown₂ hlast₂, ?_, ?_, hagrees, .binary hop hx₂ hx₁,
    .binary hop hx₂ hx₁, fun P Q => Program.assembly_iff_of_builtAlike hagrees⟩
  · cases hm with
    | less => exact Joins.greater.readsAll ht₁ he₁ he₂ hσ hknown₁ hknown₂ hlast₁ o₁
    | lessEqual => exact Joins.greaterEqual.readsAll ht₁ he₁ he₂ hσ hknown₁ hknown₂ hlast₁ o₁
  · cases hm with
    | less => exact Joins.less.readsAll ht₂ he₂ he₁ hσ hknown₂ hknown₁ hlast₂ o₂
    | lessEqual => exact Joins.lessEqual.readsAll ht₂ he₂ he₁ hσ hknown₂ hknown₁ hlast₂ o₂

/-- An assignment in parentheses on one side and a sign on the other, in a result statement. -/
theorem mirrored_comparisons_nested_assignment :
    let table : SlotTable := ⟨8, 2, [⟨"b", 8⟩, ⟨"a", 16⟩], 16⟩
    let E₁ := tokenRow [.mark .openParen none, .identifier "a", .mark .assign none,
      .identifier "b", .mark .closeParen none, .mark .star none, .number 2]
    let E₂ := tokenRow [.mark .minus none, .identifier "b", .mark .plus none, .number 1]
    let mark (m : Mark) : Token := ⟨.mark m none, "", ⟨none, 1, 1, 0⟩⟩
    let last : Token := ⟨.endOfInput, "", ⟨none, 2, 1, 9⟩⟩
    Nonterminal.additive.Covers E₁ ∧ Nonterminal.additive.Covers E₂ ∧ table.names.Nodup ∧
      (∀ tok ∈ E₁ ++ E₂, ∀ x ∈ tok.name?, x ∈ table.names) ∧
      ∃ n₁ n₂ lines,
        Nonterminal.relational.ReadsAll ⟨[], 5⟩ table (E₁ ++ mark .greaterEqual :: E₂) last n₁
          table ∧
        Nonterminal.relational.ReadsAll ⟨[], 5⟩ table (E₂ ++ mark .lessEqual :: E₁) last n₂
          table ∧
        n₁.agrees n₂ = true ∧
        (⟨[.result n₁ none], none⟩ : Program).assembly 16 true = .ok lines ∧
        (⟨[.result n₂ none], none⟩ : Program).assembly 16 true = .ok lines := by
  intro table E₁ E₂ mark last
  have hnodup : table.names.Nodup := by decide
  have hknown₁ : ∀ tok ∈ E₁, ∀ x ∈ tok.name?, x ∈ table.names := by decide
  have hknown₂ : ∀ tok ∈ E₂, ∀ x ∈ tok.name?, x ∈ table.names := by decide
  have hσ := SlotTable.agrees_lookupOffset hnodup
  have hname (i : Fin 7) {x : String} (h : E₁[i].lexeme = .identifier x) :
      Derives table.lookupOffset .equality [E₁[i]]
        (.var x (table.lookupOffset x) (some E₁[i].location)) :=
    .equality_of_unary (.unsigned (.name h))
  have hassign := Derives.assign (hname 1 rfl) (show E₁[2].kind = .mark .assign from rfl)
    (.bare (hname 3 rfl))
  have hparens := Derives.parens (show E₁[0].kind = .mark .openParen from rfl)
    (.expression hassign) (show E₁[4].kind = .mark .closeParen from rfl)
  have hproduct := Derives.join .term .star (.operand .term (.unsigned hparens))
    (show E₁[5].kind = .mark .star from rfl)
    (.unsigned (.number (show E₁[6].lexeme = .number 2 from rfl)))
  have hminus : Derives table.lookupOffset .unary (E₂.take 2) _ := .minus rfl (.name rfl)
  have hsum := Derives.join .additive .plus (.operand .additive (.operand .term hminus))
    (show E₂[2].kind = .mark .plus from rfl)
    (.operand .term (.unsigned (.number (show E₂[3].lexeme = .number 1 from rfl))))
  have hcover₁ : Nonterminal.additive.Covers E₁ := ⟨⟨[], 5⟩, table, last, _, table, hnodup, rfl,
    Operands.additive.readsAll (.operand .additive hproduct) hσ hknown₁ rfl⟩
  have hcover₂ : Nonterminal.additive.Covers E₂ := ⟨⟨[], 5⟩, table, last, _, table, hnodup, rfl,
    Operands.additive.readsAll hsum hσ hknown₂ rfl⟩
  obtain ⟨e₁, e₂, -, -, hread₁, hread₂, hagrees, hx, -, halike⟩ := mirrored_comparisons hcover₁
    hcover₂ hnodup hknown₁ hknown₂ .lessEqual
    (show (mark .greaterEqual).kind = .mark .greaterEqual from rfl)
    (show (mark .lessEqual).kind = .mark .lessEqual from rfl) (show last.isEnd = true from rfl)
    (show last.isEnd = true from rfl) ⟨[], 5⟩ ⟨[], 5⟩
  obtain ⟨lines, hlines⟩ := Program.exists_assembly (p := ⟨[.result _ none], none⟩)
    (List.forall_mem_singleton.mpr (.result hx)) 16 true
  exact ⟨hcover₁, hcover₂, hnodup, List.forall_mem_append.mpr ⟨hknown₁, hknown₂⟩, _, _, lines,
    hread₁, hread₂, hagrees, hlines,
    (halike _ ⟨[.result _ none], none⟩ (.cons (.result .here) .nil) 16 true lines).mp hlines⟩

end WordLang
