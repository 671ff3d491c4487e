import WordLang.Proofs.Grammar.Allocation
import WordLang.Proofs.Token.Tiling

/-! Trees that can be scanned again: their numbers are literals, and their names are spelled as names
and have slots. Every statement of a parsed source is one. -/
namespace WordLang

/-- The offset of a name by its place among the names of a table. -/
def SlotTable.offsetOf (table : SlotTable) : String → Nat := offsetIn table.wordSize table.names

/-- A token that can be scanned, and whose name, if it has one, is in a table. -/
structure Token.Scannable (table : SlotTable) (t : Token) : Prop where
  spells : ∃ text, Spells text t.lexeme ∧ Admitted text t.lexeme
  known : ∀ x, t.name? = some x → x ∈ table.names

/-- Expressions with numbers that can be scanned and names that have slots in a table. -/
inductive Node.Legible (table : SlotTable) : Node → Prop
  | number {v : Int} {l : Option Location} (hv : 0 ≤ v) (hmax : v ≤ maxLiteral) :
      Legible table (.number v l)
  | var {x : String} {l : Option Location} (hx : Spells x.toList (.identifier x))
      (hknown : x ∈ table.names) : Legible table (.var x (table.offsetOf x) l)
  | assign {x : String} {offset : Int} {v : Node} {l l' : Option Location}
      (ht : Legible table (.var x offset l)) (hv : Legible table v) :
      Legible table (.assign (.var x offset l) v l')
  | binary {op : Operator} {x y : Node} {l : Option Location} (ho : op ∈ Operator.known)
      (hx : Legible table x) (hy : Legible table y) : Legible table (.binary op x y l)

section Legible

variable {table : SlotTable} {n : Nonterminal} {ts : List Token} {e e' : Node}

theorem Token.Scannable.node_number {t : Token} (h : t.Scannable table) {v : Int}
    (hl : t.lexeme = .number v) (l : Option Location) : (Node.number v l).Legible table := by
  obtain ⟨text, hs, ha⟩ := h.spells
  rw [hl] at hs ha
  have hmax := (ha v rfl).2
  cases hs
  exact .number (Int.natCast_nonneg _) hmax

theorem Token.Scannable.node_var {t : Token} (h : t.Scannable table) {x : String}
    (hl : t.lexeme = .identifier x) (l : Option Location) :
    (Node.var x (table.offsetOf x) l).Legible table := by
  obtain ⟨text, hs, -⟩ := h.spells
  have hknown := h.known x (by rw [Token.name?, hl])
  rw [hl] at hs
  cases hs with
  | name hc hcs hw => exact .var (by rw [String.toList_ofList]; exact .name hc hcs hw) hknown

theorem Joins.legible {m : Mark} {f : Node → Node → Node} (hj : Joins n m f)
    (h : e.Legible table) (h' : e'.Legible table) : (f e e').Legible table := by
  cases hj with
  | greater | greaterEqual => exact .binary (by decide) h' h
  | _ => exact .binary (by decide) h h'

/-- What is derived from tokens that can be scanned can be scanned again. -/
theorem Derives.legible (h : Derives table.offsetOf n ts e) (hn : n ≠ .statement)
    (hts : ∀ t ∈ ts, t.Scannable table) : e.Legible table := by
  induction h with
  | number h => exact (hts _ (List.mem_singleton_self _)).node_number h _
  | name h => exact (hts _ (List.mem_singleton_self _)).node_var h _
  | parens _ _ _ ih => exact ih (by decide) fun t ht => hts t (by simp [ht])
  | unsigned _ ih | bare _ ih | expression _ ih => exact ih (by decide) hts
  | plus _ _ ih => exact ih (by decide) fun t ht => hts t (.tail _ ht)
  | minus _ _ ih =>
    refine .binary (by decide) (.number (Int.le_refl 0) (by decide)) ?_
    exact ih (by decide) fun t ht => hts t (.tail _ ht)
  | operand hb _ ih => exact ih (by cases hb <;> decide) hts
  | join hb hj _ _ _ ih ih' =>
    exact hj.legible (ih hn fun t ht => hts t (by simp [ht]))
      (ih' (by cases hb <;> decide) fun t ht => hts t (by simp [ht]))
  | assign _ _ _ ih ih' =>
    exact .assign (ih (by decide) fun t ht => hts t (by simp [ht]))
      (ih' (by decide) fun t ht => hts t (by simp [ht]))
  | statement | result => exact absurd rfl hn

/-- Statements of expressions with numbers and names that can be scanned again. -/
inductive Node.LegibleStatement (table : SlotTable) : Node → Prop
  | expression {n : Node} (h : n.Legible table) : LegibleStatement table n
  | result {v : Node} {l : Option Location} (h : v.Legible table) :
      LegibleStatement table (.result v l)

/-- A statement is an expression or a result. -/
theorem Derives.statement_cases {σ : String → Nat} (h : Derives σ .statement ts e) :
    Derives σ .expression ts e ∨ ∃ t us v l, ts = t :: us ∧ e = .result v l ∧
      Derives σ .expression us v := by
  cases h with
  | statement h => exact .inl h
  | result _ h => exact .inr ⟨_, _, _, _, rfl, rfl, h⟩
  | operand hb => cases hb
  | join hb => cases hb

theorem Derives.legibleStatement (h : Derives table.offsetOf .statement ts e)
    (hts : ∀ t ∈ ts, t.Scannable table) : e.LegibleStatement table := by
  rcases h.statement_cases with he | ⟨t, us, v, l, rfl, rfl, hv⟩
  · exact .expression (he.legible (by decide) hts)
  · exact .result (hv.legible (by decide) fun u hu => hts u (.tail _ hu))

/-- Each statement of a program is derived from some of the tokens. -/
theorem DerivesAll.exists_derives {σ : String → Nat} {ns : List Node} (h : DerivesAll σ ts ns)
    (he : e ∈ ns) : ∃ us ⊆ ts, Derives σ .statement us e := by
  induction h with
  | nil => cases he
  | skip _ _ ih =>
    obtain ⟨us, hsub, hus⟩ := ih he
    exact ⟨us, List.subset_cons_of_subset _ hsub, hus⟩
  | @last ts n hn =>
    obtain rfl := List.mem_singleton.mp he
    exact ⟨ts, List.Subset.refl ts, hn⟩
  | @cons t ts us n ns hn _ _ ih =>
    rcases List.mem_cons.mp he with rfl | he
    · exact ⟨ts, List.subset_append_left _ _, hn⟩
    · obtain ⟨vs, hsub, hvs⟩ := ih he
      exact ⟨vs, fun u hu => by simp [hsub hu], hvs⟩

end Legible

/-! ### Parsed sources -/

namespace Source

variable {s : Source} {table : SlotTable} {maxStatements : Int} {ts : List Token} {p : Position}

theorem parse_of_passes (h : Passes s.file .start s.text.toList ts p []) :
    s.parse table maxStatements =
      parseTokens ⟨s.lines, maxStatements⟩ table (ts ++ [s.endToken p]) := by
  have htokens : s.tokens = .ok (ts ++ [s.endToken p]) := scan_eq_ok_iff.mpr ⟨ts, p, h, rfl⟩
  rw [parse, htokens]

theorem exists_passes_of_parse {P : Program} (h : (s.parse table maxStatements).outcome = .ok P) :
    ∃ ts p, Passes s.file .start s.text.toList ts p [] := by
  cases htokens : s.tokens with
  | error e =>
    rw [parse, htokens] at h
    cases h
  | ok tokens =>
    obtain ⟨ts, p, hp, -⟩ := scan_eq_ok_iff.mp htokens
    exact ⟨ts, p, hp⟩

/-- A statement of a program can be scanned again, and its names have slots. -/
theorem legibleStatement_of_parse {P : Program} (htable : table.Regular)
    (hP : (s.parse table maxStatements).outcome = .ok P) {n : Node} (hn : n ∈ P.statements) :
    (s.parse table maxStatements).slots.Regular ∧
      n.LegibleStatement (s.parse table maxStatements).slots := by
  obtain ⟨ts, p, hp⟩ := exists_passes_of_parse hP
  rw [parse_of_passes hp] at hP ⊢
  obtain ⟨-, hfits, hslots, hd⟩ := derivesAll_of_parseTokens htable hp.isEnd_eq rfl hP
  have hregular : (table.enter ts).Regular := htable.enter ts
  rw [hslots]
  obtain ⟨us, hsub, hus⟩ := (hd _ hregular.agrees).exists_derives hn
  refine ⟨hregular, hus.legibleStatement fun t ht => ⟨?_, fun x hx => ?_⟩⟩
  · obtain ⟨-, -, text, -, -, hs, ha, -⟩ := hp.exists_of_mem (hsub ht)
    exact ⟨text, hs, ha⟩
  · rw [SlotTable.names_enter hfits, mem_foldl_addName]
    exact .inr ⟨t, hsub ht, hx⟩

end Source

end WordLang
