import WordLang.Proofs.Grammar.Nesting
import WordLang.Proofs.Grammar.Relocation
import WordLang.Proofs.Legible
import WordLang.Syntax.Outline

/-! Statements written as source and read again. Operations are written in parentheses, assignments
are not: a statement is read back as it was, unless an assignment is an operand in it. -/
namespace WordLang

/-! ### Assignments among operands -/

namespace Node

/-- A node that assigns. -/
def isAssignment : Node → Bool
  | .assign .. => true
  | _ => false

/-- An operation with an assignment for an operand. -/
def hasAssignedOperand : Node → Bool
  | .binary _ x y _ => x.isAssignment || y.isAssignment
  | _ => false

/-- Somewhere in a tree an assignment is the operand of an operation. -/
def assignsInOperand (n : Node) : Bool := n.preorder.any hasAssignedOperand

variable {l : Option Location}

@[simp] theorem assignsInOperand_number (v : Int) : (number v l).assignsInOperand = false := rfl

@[simp] theorem assignsInOperand_var (x : String) (offset : Int) :
    (var x offset l).assignsInOperand = false := rfl

@[simp] theorem assignsInOperand_assign (t v : Node) :
    (assign t v l).assignsInOperand = (t.assignsInOperand || v.assignsInOperand) := by
  simp [assignsInOperand, preorder, hasAssignedOperand]

@[simp] theorem assignsInOperand_binary (op : Operator) (x y : Node) :
    (binary op x y l).assignsInOperand = (x.isAssignment || y.isAssignment ||
      (x.assignsInOperand || y.assignsInOperand)) := by
  simp [assignsInOperand, preorder, hasAssignedOperand]

@[simp] theorem assignsInOperand_result (v : Node) :
    (result v l).assignsInOperand = v.assignsInOperand := by
  simp [assignsInOperand, preorder, hasAssignedOperand]

end Node

/-! ### Marks of operators -/

/-- The mark that an operator is written with. -/
def Operator.mark? : Operator → Option Mark
  | .add => some .plus
  | .sub => some .minus
  | .mul => some .star
  | .div => some .slash
  | .equal => some .equal
  | .notEqual => some .notEqual
  | .less => some .less
  | .lessEqual => some .lessEqual
  | .other _ => none

namespace Operator

variable {op : Operator} {m : Mark}

theorem exists_mark (h : op ∈ known) : ∃ m, op.mark? = some m := by
  cases op with
  | other s => exact absurd h (by simp [known])
  | _ => exact ⟨_, rfl⟩

theorem spelling_of_mark (h : op.mark? = some m) : op.spelling.toList = m.spelling := by
  cases op <;> cases h <;> rfl

theorem rank_of_mark (h : op.mark? = some m) : m.rank ≤ 4 := by
  cases op <;> cases h <;> decide

/-- The mark of an operator joins operands in the order in which they stand. -/
theorem exists_joins_of_mark (h : op.mark? = some m) :
    ∃ level, Joins level m fun x y => .binary op x y x.location := by
  cases op <;> cases h
  exacts [⟨_, .plus⟩, ⟨_, .minus⟩, ⟨_, .star⟩, ⟨_, .slash⟩, ⟨_, .equal⟩, ⟨_, .notEqual⟩,
    ⟨_, .less⟩, ⟨_, .lessEqual⟩]

theorem eq_of_joins {level : Nonterminal} {f : Node → Node → Node} (h : op.mark? = some m)
    (hj : Joins level m f) : f = fun x y => .binary op x y x.location := by
  cases op <;> cases h <;> cases hj <;> rfl

theorem weight_of_mark {t : Token} (h : op.mark? = some m) (ht : t.kind = .mark m) :
    t.weight = 0 := by
  cases op <;> cases h <;> exact Token.weight_of_mark ht (by decide) (by decide)

end Operator

/-! ### Written tokens -/

/-- The tokens of an expression as it is written. -/
inductive Writes : Node → List Token → Prop
  | number {v : Int} {l : Option Location} {t : Token} (h : t.lexeme = .number v) :
      Writes (.number v l) [t]
  | var {x : String} {offset : Int} {l : Option Location} {t : Token}
      (h : t.lexeme = .identifier x) : Writes (.var x offset l) [t]
  | assign {x : String} {offset : Int} {v : Node} {l l' : Option Location} {t u : Token}
      {ts : List Token} (ht : t.lexeme = .identifier x) (hu : u.kind = .mark .assign)
      (hv : Writes v ts) : Writes (.assign (.var x offset l) v l') ([t] ++ u :: ts)
  | binary {op : Operator} {m : Mark} {x y : Node} {l : Option Location} {t u o : Token}
      {ts us : List Token} (hm : op.mark? = some m) (ht : t.kind = .mark .openParen)
      (hx : Writes x ts) (ho : o.kind = .mark m) (hy : Writes y us)
      (hu : u.kind = .mark .closeParen) : Writes (.binary op x y l) (t :: ((ts ++ o :: us) ++ [u]))

/-- The tokens of a statement as it is written, if it can be scanned again. -/
inductive WritesStatement (table : SlotTable) : Node → List Token → Prop
  | expression {n : Node} {ts : List Token} (hl : n.Legible table) (h : Writes n ts) :
      WritesStatement table n ts
  | result {v : Node} {l : Option Location} {t : Token} {ts : List Token} (hl : v.Legible table)
      (ht : t.kind = .mark .keywordReturn) (h : Writes v ts) :
      WritesStatement table (.result v l) (t :: ts)

namespace Writes

variable {n : Node} {ts : List Token}

theorem balanced (h : Writes n ts) : Balanced ts := by
  induction h with
  | number h => exact (Sealed.number h).balanced
  | var h => exact (Sealed.name h).balanced
  | assign ht hu _ ih =>
    exact (Sealed.name ht).balanced.append
      (ih.cons (Token.weight_of_mark hu (by decide) (by decide)))
  | binary hm ht _ ho _ hu ih ih' =>
    exact (Sealed.group ht (ih.append (ih'.cons (Operator.weight_of_mark hm ho))) hu).balanced

/-- What is not an assignment is written as one operand. -/
theorem operand (h : Writes n ts) (hn : n.isAssignment = false) : Sealed ts := by
  cases h with
  | number h => exact .number h
  | var h => exact .name h
  | assign => cases hn
  | binary hm ht hx ho hy hu =>
    exact .group ht (hx.balanced.append (hy.balanced.cons (Operator.weight_of_mark hm ho))) hu

/-- An assignment is written with an equals sign in the open. -/
theorem exists_assign (h : Writes n ts) (hn : n.isAssignment = true) :
    ∃ front t back, ts = front ++ t :: back ∧ t.kind = .mark .assign ∧ depth front = 0 := by
  cases h with
  | number | var | binary => cases hn
  | @assign x offset v l l' t u us ht hu hv =>
    exact ⟨[t], u, us, rfl, hu, (Sealed.name ht).depth_eq⟩

theorem kind_ne_semicolon (h : Writes n ts) : ∀ t ∈ ts, t.kind ≠ .mark .semicolon := by
  induction h with
  | number h | var h => simp [Token.kind, h, Lexeme.kind]
  | assign ht hu _ ih =>
    have ht : Token.kind _ = .identifier := congrArg Lexeme.kind ht
    simpa [ht, hu] using ih
  | @binary op m x y l t u o ts us hm ht _ ho _ hu ih ih' =>
    have hne : m ≠ .semicolon := by
      rintro rfl
      exact absurd (Operator.rank_of_mark hm) (by decide)
    intro tok htok
    simp only [List.mem_cons, List.mem_append, List.not_mem_nil, or_false] at htok
    rcases htok with rfl | (htok | rfl | htok) | rfl
    · simp [ht]
    · exact ih tok htok
    · simpa [ho] using hne
    · exact ih' tok htok
    · simp [hu]

/-- The names in what is written are known. -/
theorem known {table : SlotTable} (h : Writes n ts) (hl : n.Legible table) :
    ∀ t ∈ ts, ∀ x ∈ t.name?, x ∈ table.names := by
  have hmark {t : Token} {m : Mark} (ht : t.kind = .mark m) : ∀ x ∈ t.name?, x ∈ table.names :=
    SlotTable.known_of_name?_none (Token.name?_of_mark ht)
  have hname {t : Token} {x : String} (ht : t.lexeme = .identifier x) (hx : x ∈ table.names) :
      ∀ y ∈ t.name?, y ∈ table.names := by
    simpa [Token.name?, ht] using hx
  induction h with
  | number h => simp [Token.name?, h]
  | var h =>
    cases hl with
    | var _ hknown => exact List.forall_mem_singleton.mpr (hname h hknown)
  | assign ht hu _ ih =>
    cases hl with
    | assign htarget hv =>
      cases htarget with
      | var _ hknown =>
        exact List.forall_mem_cons.mpr ⟨hname ht hknown,
          List.forall_mem_cons.mpr ⟨hmark hu, ih hv⟩⟩
  | binary hm ht _ ho _ hu ih ih' =>
    cases hl with
    | binary _ hx hy =>
      refine List.forall_mem_cons.mpr ⟨hmark ht, ?_⟩
      refine List.forall_mem_append.mpr ⟨List.forall_mem_append.mpr ⟨ih hx, ?_⟩, ?_⟩
      · exact List.forall_mem_cons.mpr ⟨hmark ho, ih' hy⟩
      · exact List.forall_mem_singleton.mpr (hmark hu)

end Writes

/-! ### Reading a written expression -/

section Reading

variable {σ : String → Nat} {level below : Nonterminal} {n : Node} {ts us : List Token}

theorem Joins.exists_operands {m : Mark} {f : Node → Node → Node} (h : Joins level m f) :
    ∃ below, Operands level below := by
  cases h
  exacts [⟨_, .equality⟩, ⟨_, .equality⟩, ⟨_, .relational⟩, ⟨_, .relational⟩, ⟨_, .relational⟩,
    ⟨_, .relational⟩, ⟨_, .additive⟩, ⟨_, .additive⟩, ⟨_, .term⟩, ⟨_, .term⟩]

theorem Operands.derives_below {e : Node} (h : Operands level below)
    (he : Derives σ .primary ts e) : Derives σ below ts e := by
  have hunary : Derives σ .unary ts e := .unsigned he
  cases h with
  | term => exact hunary
  | additive => exact .operand .term hunary
  | relational => exact .operand .additive (.operand .term hunary)
  | equality => exact .operand .relational (.operand .additive (.operand .term hunary))

theorem Operands.derives_equality {e : Node} (h : Operands level below)
    (he : Derives σ level ts e) : Derives σ .equality ts e := by
  cases h with
  | equality => exact he
  | relational => exact .operand .equality he
  | additive => exact .operand .equality (.operand .relational he)
  | term => exact .operand .equality (.operand .relational (.operand .additive he))

/-- Two operands and a mark are an expression. -/
theorem Joins.derives_expression {m : Mark} {f : Node → Node → Node} {t : Token} {x y : Node}
    (hj : Joins level m f) (hx : Derives σ .primary ts x) (ht : t.kind = .mark m)
    (hy : Derives σ .primary us y) : Derives σ .expression (ts ++ t :: us) (f x y) := by
  obtain ⟨below, hb⟩ := hj.exists_operands
  have hjoin := Derives.join hb hj (.operand hb (hb.derives_below hx)) ht (hb.derives_below hy)
  exact .expression (.bare (hb.derives_equality hjoin))

/-- A written expression without assignments among operands is read as it was; as one operand, if it
is no assignment itself. -/
theorem Writes.exists_derives {table : SlotTable} (h : Writes n ts) (hl : n.Legible table)
    (hn : n.assignsInOperand = false) :
    ∃ m, n.agrees m = true ∧ Derives table.offsetOf .expression ts m ∧
      (n.isAssignment = false → Derives table.offsetOf .primary ts m) := by
  induction h with
  | number h =>
    exact ⟨_, by simp [Node.agrees], .expression_of_primary (.number h), fun _ => .number h⟩
  | var h =>
    cases hl
    exact ⟨_, by simp [Node.agrees], .expression_of_primary (.name h), fun _ => .name h⟩
  | @assign x offset v l l' t u us ht hu hv ih =>
    obtain ⟨htarget, hvalue⟩ : (Node.var x offset l).Legible table ∧ v.Legible table := by
      cases hl
      exact ⟨‹_›, ‹_›⟩
    rw [Node.assignsInOperand_assign, Node.assignsInOperand_var, Bool.false_or] at hn
    obtain ⟨m, hm, hd, -⟩ := ih hvalue hn
    cases htarget
    have hassign := Derives.assign (Derives.equality_of_unary (.unsigned (.name ht))) hu
      hd.assignment_of_expression
    exact ⟨_, by simpa [Node.agrees] using hm, .expression hassign, fun h => by cases h⟩
  | @binary op mark x y l t u o ts us hm ht hx ho hy hu ih ih' =>
    obtain ⟨hlx, hly⟩ : x.Legible table ∧ y.Legible table := by
      cases hl
      exact ⟨‹_›, ‹_›⟩
    simp only [Node.assignsInOperand_binary, Bool.or_eq_false_iff] at hn
    obtain ⟨⟨hax, hay⟩, hnx, hny⟩ := hn
    obtain ⟨x', hx', -, hdx⟩ := ih hlx hnx
    obtain ⟨y', hy', -, hdy⟩ := ih' hly hny
    obtain ⟨level, hj⟩ := Operator.exists_joins_of_mark hm
    have hgroup := Derives.parens ht (hj.derives_expression (hdx hax) ho (hdy hay)) hu
    exact ⟨_, by simp [Node.agrees, hx', hy'], .expression_of_primary hgroup, fun _ => hgroup⟩

/-- If a written expression is read as it was, no assignment is an operand in it. -/
theorem Writes.assignsInOperand_eq {m : Node} {k : Nonterminal} (h : Writes n ts)
    (hd : Derives σ k ts m) (hm : n.agrees m = true) : n.assignsInOperand = false := by
  induction h generalizing k m with
  | number | var => rfl
  | assign ht hu hv ih =>
    obtain ⟨t', v', loc', rfl, -, hagrees⟩ := Node.exists_of_assign_agrees hm
    obtain ⟨x, offset, l, v'', heq, hvalue⟩ := hd.exists_assign (.name ht) hu
    cases heq
    rw [Node.assignsInOperand_assign, Node.assignsInOperand_var, Bool.false_or]
    exact ih hvalue hagrees
  | @binary op mark x y l t u o ts us hmark ht hx ho hy hu ih ih' =>
    obtain ⟨x', y', loc', rfl, hxx, hyy⟩ := Node.exists_of_binary_agrees hm
    have hbody := hx.balanced.append (hy.balanced.cons (Operator.weight_of_mark hmark ho))
    have hinner := hd.expression_of_group ht (.group ht hbody hu)
    -- with an equals sign in the open, the group would hold an assignment
    have hopen (front back : List Token) {a : Token} (ha : a.kind = .mark .assign)
        (hfront : depth front = 0) : front ++ a :: back ≠ ts ++ o :: us := by
      intro heq
      obtain ⟨level, hrank, hlevel⟩ := hinner.exists_level_of_binary
      have hpos := hlevel.depth_pos_of_assign hrank ha heq
      rw [hfront] at hpos
      exact absurd hpos (Int.lt_irrefl 0)
    have hax : x.isAssignment = false := by
      by_contra hassign
      obtain ⟨front, a, back, rfl, ha, hfront⟩ := hx.exists_assign (by simpa using hassign)
      exact hopen front (back ++ o :: us) ha hfront (by simp)
    have hay : y.isAssignment = false := by
      by_contra hassign
      obtain ⟨front, a, back, rfl, ha, hfront⟩ := hy.exists_assign (by simpa using hassign)
      refine hopen (ts ++ o :: front) back ha ?_ (by simp)
      rw [depth_append, depth_cons, hx.balanced.depth_eq, Operator.weight_of_mark hmark ho, hfront]
      rfl
    obtain ⟨level, f, n₁, x'', n₂, y'', hj, hdx, hdy, heq⟩ := hinner.exists_join (hx.operand hax)
      (hy.operand hay) ho (Operator.rank_of_mark hmark)
    rw [Operator.eq_of_joins hmark hj] at heq
    cases heq
    rw [Node.assignsInOperand_binary, hax, hay, ih hdx hxx, ih' hdy hyy]
    rfl

end Reading

/-! ### Scanning a written expression -/

/-- Texts that no token goes on over: they end, or start with a blank or a closing parenthesis. -/
def StopsToken (rest : List Char) : Prop := ∀ d ∈ rest.head?, d = ' ' ∨ d = ')'

section Scanning

variable {text rest : List Char}

theorem StopsToken.absorbs_eq (h : StopsToken rest) (l : Lexeme) :
    ∀ d ∈ rest.head?, l.absorbs d = false := by
  intro d hd
  rcases h d hd with rfl | rfl
  · exact Lexeme.absorbs_of_isSpace (by decide) l
  · cases l with
    | mark m v => cases m <;> rfl
    | _ => rfl

theorem stopsToken_blank (rest : List Char) : StopsToken (' ' :: rest) := by simp [StopsToken]

theorem stopsToken_closeParen (rest : List Char) :
    StopsToken (Mark.closeParen.spelling ++ rest) := by
  simp [StopsToken, Mark.spelling]

theorem admitted_mark (text : List Char) (m : Mark) (v : Option String) :
    Admitted text (.mark m v) := by
  intro i h
  cases h

theorem passes_token {l : Lexeme} (hs : Spells text l) (ha : Admitted text l)
    (hrest : ∀ d ∈ rest.head?, l.absorbs d = false) (file : Option String) (p : Position) :
    Passes file p (text ++ rest) [⟨l, String.ofList text, p.locate file⟩] (p.after text) rest :=
  .token (hs.longest hrest) hs ha (.stop _ _)

/-- A mark between blanks is one token. -/
theorem exists_passes_mark (m : Mark) (rest : List Char) (file : Option String) (p : Position) :
    ∃ t p', Passes file p (' ' :: (m.spelling ++ ' ' :: rest)) [t] p' rest ∧ t.kind = .mark m := by
  have hmark := passes_token (.mark m) (admitted_mark _ m _) ((stopsToken_blank rest).absorbs_eq _)
    file (p.next ' ')
  exact ⟨_, _, .blank (by decide) (hmark.trans (.blank (by decide) (.stop _ _))), rfl⟩

/-- A parenthesis is one token, whatever follows. -/
theorem exists_passes_paren {m : Mark} (hm : m = .openParen ∨ m = .closeParen) (rest : List Char)
    (file : Option String) (p : Position) :
    ∃ t p', Passes file p (m.spelling ++ rest) [t] p' rest ∧ t.kind = .mark m := by
  refine ⟨_, _, passes_token (.mark m) (admitted_mark _ m _) (fun d _ => ?_) file p, rfl⟩
  rcases hm with rfl | rfl <;> rfl

theorem spells_decimal {v : Int} (h : 0 ≤ v) : Spells (Text.decimal v).toList (.number v) := by
  have hlist : (Text.decimal v).toList = Nat.toDigits 10 v.natAbs := by
    rw [Text.toList_decimal, if_neg (Int.not_lt.mpr h)]
  have hvalue : (digitsValue (Nat.toDigits 10 v.natAbs) : Int) = v := by
    rw [← ofDigitChars_eq_digitsValue, Nat.ofDigitChars_toDigits (by decide) (by decide)]
    exact Int.natAbs_of_nonneg h
  have hspells : Spells (Nat.toDigits 10 v.natAbs) (.number (digitsValue _)) :=
    .number Nat.toDigits_ne_nil fun c hc => Text.isDigit_of_mem_toDigits hc
  rw [hlist]
  rwa [hvalue] at hspells

theorem admitted_decimal {v : Int} (h : 0 ≤ v) (hmax : v ≤ maxLiteral) :
    Admitted (Text.decimal v).toList (.number v) := by
  intro w hw
  cases hw
  refine ⟨?_, hmax⟩
  rw [Text.toList_decimal, if_neg (Int.not_lt.mpr h)]
  refine Text.readable_of_natAbs_lt ?_
  unfold maxLiteral at hmax
  omega

theorem admitted_identifier (text : List Char) (x : String) : Admitted text (.identifier x) := by
  intro i h
  cases h

theorem Node.toList_source_assign (t v : Node) (l : Option Location) (rest : List Char) :
    (Node.assign t v l).source.toList ++ rest =
      t.source.toList ++ ' ' :: (Mark.assign.spelling ++ ' ' :: (v.source.toList ++ rest)) := by
  simp [Node.source, Mark.spelling]

theorem Node.toList_source_binary {op : Operator} {m : Mark} (hm : op.mark? = some m) (x y : Node)
    (l : Option Location) (rest : List Char) :
    (Node.binary op x y l).source.toList ++ rest =
      Mark.openParen.spelling ++ (x.source.toList ++ ' ' :: (m.spelling ++ ' ' ::
        (y.source.toList ++ (Mark.closeParen.spelling ++ rest)))) := by
  simp [Node.source, Mark.spelling, Operator.spelling_of_mark hm]

/-- What is written is scanned as the tokens that were meant. -/
theorem Node.Legible.exists_passes {table : SlotTable} {n : Node} (h : n.Legible table)
    (file : Option String) (p : Position) (rest : List Char) (hrest : StopsToken rest) :
    ∃ ts p', Passes file p (n.source.toList ++ rest) ts p' rest ∧ Writes n ts := by
  induction h generalizing p rest with
  | number hv hmax =>
    exact ⟨_, _, passes_token (spells_decimal hv) (admitted_decimal hv hmax) (hrest.absorbs_eq _)
      file p, .number rfl⟩
  | @var x l hx hknown =>
    exact ⟨_, _, passes_token hx (admitted_identifier _ x) (hrest.absorbs_eq _) file p, .var rfl⟩
  | @assign x offset v l l' ht hv iht ihv =>
    obtain ⟨ts, p₁, hpt, hwt⟩ := iht p _
      (stopsToken_blank (Mark.assign.spelling ++ ' ' :: (v.source.toList ++ rest)))
    obtain ⟨u, p₂, hpu, hu⟩ := exists_passes_mark .assign (v.source.toList ++ rest) file p₁
    obtain ⟨us, p₃, hpv, hwv⟩ := ihv p₂ rest hrest
    rw [Node.toList_source_assign]
    cases hwt with
    | var hlex => exact ⟨_, p₃, hpt.trans (hpu.trans hpv), .assign hlex hu hwv⟩
  | @binary op x y l ho hx hy ihx ihy =>
    obtain ⟨m, hm⟩ := Operator.exists_mark ho
    let right := y.source.toList ++ (Mark.closeParen.spelling ++ rest)
    obtain ⟨t, p₁, hpt, ht⟩ := exists_passes_paren (.inl rfl)
      (x.source.toList ++ ' ' :: (m.spelling ++ ' ' :: right)) file p
    obtain ⟨ts, p₂, hpx, hwx⟩ := ihx p₁ _ (stopsToken_blank (m.spelling ++ ' ' :: right))
    obtain ⟨o, p₃, hpo, hko⟩ := exists_passes_mark m right file p₂
    obtain ⟨us, p₄, hpy, hwy⟩ := ihy p₃ _ (stopsToken_closeParen rest)
    obtain ⟨u, p₅, hpu, hu⟩ := exists_passes_paren (.inr rfl) rest file p₄
    rw [Node.toList_source_binary hm]
    refine ⟨_, p₅, hpt.trans (hpx.trans (hpo.trans (hpy.trans hpu))), ?_⟩
    rw [show [t] ++ (ts ++ ([o] ++ (us ++ [u]))) = t :: ((ts ++ o :: us) ++ [u]) by simp]
    exact .binary hm ht hwx hko hwy hu

end Scanning

/-! ### Statements -/

theorem Node.LegibleStatement.exists_passes {table : SlotTable} {n : Node}
    (h : n.LegibleStatement table) (file : Option String) (p : Position) :
    ∃ ts p', Passes file p n.source.toList ts p' [] ∧ WritesStatement table n ts := by
  have hend : StopsToken [] := by simp [StopsToken]
  cases h with
  | expression h =>
    obtain ⟨ts, p', hp, hw⟩ := h.exists_passes file p [] hend
    rw [List.append_nil] at hp
    exact ⟨ts, p', hp, .expression h hw⟩
  | @result v l h =>
    have htext : (Node.result v l).source.toList =
        Mark.keywordReturn.spelling ++ ' ' :: (v.source.toList ++ []) := by
      simp [Node.source, Mark.spelling, returnWord]
    have hreturn := passes_token (.mark .keywordReturn) (admitted_mark _ _ _)
      ((stopsToken_blank (v.source.toList ++ [])).absorbs_eq _) file p
    obtain ⟨ts, p', hp, hw⟩ := h.exists_passes file _ [] hend
    rw [htext]
    exact ⟨_, p', hreturn.trans (.blank (by decide) hp), .result h rfl hw⟩

namespace WritesStatement

variable {table : SlotTable} {n m : Node} {ts : List Token}

theorem kind_ne_semicolon (h : WritesStatement table n ts) :
    ∀ t ∈ ts, t.kind ≠ .mark .semicolon := by
  cases h with
  | expression _ h => exact h.kind_ne_semicolon
  | result _ ht h => exact List.forall_mem_cons.mpr ⟨by simp [ht], h.kind_ne_semicolon⟩

theorem known (h : WritesStatement table n ts) : ∀ t ∈ ts, ∀ x ∈ t.name?, x ∈ table.names := by
  cases h with
  | expression hl h => exact h.known hl
  | result hl ht h =>
    exact List.forall_mem_cons.mpr
      ⟨SlotTable.known_of_name?_none (Token.name?_of_mark ht), h.known hl⟩

theorem exists_derives (h : WritesStatement table n ts) (hn : n.assignsInOperand = false) :
    ∃ m, n.agrees m = true ∧ Derives table.offsetOf .statement ts m := by
  cases h with
  | expression hl h =>
    obtain ⟨m, hm, hd, -⟩ := h.exists_derives hl hn
    exact ⟨m, hm, .statement hd⟩
  | result hl ht h =>
    rw [Node.assignsInOperand_result] at hn
    obtain ⟨m, hm, hd, -⟩ := h.exists_derives hl hn
    exact ⟨_, by simpa [Node.agrees] using hm, .result ht hd⟩

theorem assignsInOperand_eq {σ : String → Nat} (h : WritesStatement table n ts)
    (hd : Derives σ .statement ts m) (hm : n.agrees m = true) : n.assignsInOperand = false := by
  cases h with
  | expression _ h => exact h.assignsInOperand_eq hd hm
  | result _ ht h =>
    obtain ⟨v', l', rfl, hv⟩ := Node.exists_of_result_agrees hm
    rw [Node.assignsInOperand_result]
    rcases hd.statement_cases with hd | ⟨t', us, v'', l'', heq, hresult, hd⟩
    · -- no expression starts with the keyword
      obtain ⟨t', us, heq, -, hne⟩ := hd.exists_start
      rw [(List.cons.inj heq).1] at ht
      exact absurd ht (hne (by decide))
    · cases heq
      cases hresult
      exact h.assignsInOperand_eq hd hv

end WritesStatement

/-! ### Reading a statement again -/

/-- Tokens without a semicolon are one statement. -/
theorem DerivesAll.derives_statement {σ : String → Nat} {ts : List Token} {n : Node}
    (h : DerivesAll σ ts [n]) (hts : ∀ t ∈ ts, t.kind ≠ .mark .semicolon) :
    Derives σ .statement ts n := by
  cases h with
  | skip ht => exact absurd ht (hts _ (by simp))
  | last h => exact h
  | cons _ ht => exact absurd ht (hts _ (by simp))

/-- A parse that meets known names only leaves the table alone, also when it fails. -/
theorem parseTokens_slots_of_known {o : ParseSettings} {table : SlotTable} {body : List Token}
    {last : Token} (hlast : last.isEnd = true)
    (hknown : ∀ t ∈ body, ∀ x ∈ t.name?, x ∈ table.names) :
    (parseTokens o table (body ++ [last])).slots = table := by
  obtain ⟨input, hi, hend⟩ := TokenStream.exists_toList_eq body hlast
  have hall : ∀ t ∈ input.toList, ∀ x ∈ t.name?, x ∈ table.names := by
    rw [hi]
    exact List.forall_mem_append.mpr ⟨hknown, List.forall_mem_singleton.mpr
      (SlotTable.known_of_name?_none (Token.name?_of_isEnd hlast))⟩
  obtain ⟨p, hp⟩ := (sound_statementsWithin (o := o) input.length 0).exists_reads
    (s := ⟨input, table⟩) hend
  have hinput : input.toList = p ++ _ := hp.input
  rw [← hi, slots_parseTokens hend, hp.slots]
  exact (SlotTable.enter_of_known fun t ht => hall t (by simp [hinput, ht])).1

/-- A statement of a program, written as source and parsed with the slots of the program, is the
statement that it was, up to places, exactly if no assignment is an operand of an operation in it.
Whether it is or not, no slot is added. -/
theorem parse_source_iff_assignsInOperand {s : Source} {table : SlotTable}
    (htable : table.Reachable) {P : Program}
    (hP : (s.parse table defaultMaxStatements).outcome = .ok P) {n : Node}
    (hn : n ∈ P.statements) (file : Option String) :
    let slots := (s.parse table defaultMaxStatements).slots
    let again := Source.parse ⟨file, n.source⟩ slots defaultMaxStatements
    ((∃ m l, again.outcome = .ok ⟨[m], l⟩ ∧ n.agrees m = true) ↔ n.assignsInOperand = false) ∧
      again.slots = slots := by
  intro slots again
  obtain ⟨hregular, hlegible⟩ := Source.legibleStatement_of_parse htable.regular hP hn
  obtain ⟨ts, p, hp, hw⟩ := hlegible.exists_passes file .start
  have hagain : again = parseTokens ⟨(⟨file, n.source⟩ : Source).lines, defaultMaxStatements⟩ slots
      (ts ++ [(⟨file, n.source⟩ : Source).endToken p]) := Source.parse_of_passes hp
  obtain ⟨henter, hfits⟩ := SlotTable.enter_of_known hw.known
  have hagrees : (slots.enter ts).Agrees slots.offsetOf := henter.symm ▸ hregular.agrees
  rw [hagain]
  refine ⟨⟨?_, fun hassigns => ?_⟩, parseTokens_slots_of_known rfl hw.known⟩
  · rintro ⟨m, l, hok, hm⟩
    obtain ⟨-, -, -, hd⟩ := derivesAll_of_parseTokens hregular hp.isEnd_eq rfl hok
    exact hw.assignsInOperand_eq ((hd _ hagrees).derives_statement hw.kind_ne_semicolon) hm
  · obtain ⟨m, hm, hd⟩ := hw.exists_derives hassigns
    have hone : (([m] : List Node).length : Int) ≤ defaultMaxStatements :=
      show (1 : Int) ≤ 100 by decide
    exact ⟨m, _, parseTokens_of_derivesAll (.last hd) rfl hfits hagrees (.inr hone), hm⟩

/-- A sign, an exchanged comparison and a chain of assignments come back; an assignment in a sum does
not. -/
theorem parse_source_iff_assignsInOperand_mixed :
    let s : Source := ⟨none, "return -(a > 1) * b; a = b = -1; (a = b) + 1"⟩
    let slots := (s.parse .default defaultMaxStatements).slots
    let again (n : Node) := Source.parse ⟨none, n.source⟩ slots defaultMaxStatements
    SlotTable.default.Reachable ∧ ∃ P x y z,
      (s.parse .default defaultMaxStatements).outcome = .ok P ∧ P.statements = [x, y, z] ∧
      (∃ m l, (again x).outcome = .ok ⟨[m], l⟩ ∧ x.agrees m = true) ∧
      (∃ m l, (again y).outcome = .ok ⟨[m], l⟩ ∧ y.agrees m = true) ∧
      ¬∃ m l, (again z).outcome = .ok ⟨[m], l⟩ ∧ z.agrees m = true := by
  intro s slots again
  have hcreate : SlotTable.create SlotTable.defaultWordSize SlotTable.defaultCapacity =
      .ok SlotTable.default := rfl
  have htable := SlotTable.Reachable.create hcreate
  obtain ⟨P, hP, hoperands⟩ := exists_of_any_toOption
    (x := (s.parse .default defaultMaxStatements).outcome)
    (p := fun P => P.statements.map Node.assignsInOperand == [false, false, true])
    (by decide +kernel)
  obtain ⟨x, y, z, hstatements, hx, hy, hz⟩ : ∃ x y z, P.statements = [x, y, z] ∧
      x.assignsInOperand = false ∧ y.assignsInOperand = false ∧ z.assignsInOperand = true := by
    simpa [List.map_eq_cons_iff] using hoperands
  have hread {n : Node} (hn : n ∈ P.statements) :=
    (parse_source_iff_assignsInOperand htable hP hn none).1
  refine ⟨htable, P, x, y, z, hP, hstatements, (hread (by simp [hstatements])).mpr hx,
    (hread (by simp [hstatements])).mpr hy, fun h => ?_⟩
  have hz' := (hread (by simp [hstatements])).mp h
  rw [hz] at hz'
  cases hz'

end WordLang
