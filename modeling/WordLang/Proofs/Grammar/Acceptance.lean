import WordLang.Proofs.Grammar.Completeness

/-! A list of tokens is accepted just when it derives a program, and what is accepted is the program
that it derives. -/
namespace WordLang

/-! ### Whole lists -/

section Outcomes

variable {o : ParseSettings} {s s' : ParseState} {ns : List Node} {d : Diagnostic}

theorem program_of_ok (h : Grammar.statementsWithin o s.input.length 0 s = .ok ns s') :
    Grammar.program o s = .ok ⟨ns, some s.input.head.location⟩ s' :=
  bind_of_ok (m := fun s => Grammar.statementsWithin o s.input.length 0 s) h _

theorem program_of_error (h : Grammar.statementsWithin o s.input.length 0 s = .error d s') :
    Grammar.program o s = .error d s' :=
  bind_of_error (m := fun s => Grammar.statementsWithin o s.input.length 0 s) h _

section Cursors

variable {α : Type} {rule : Parse α} {input : TokenStream} {table : SlotTable} {a : α}

theorem Cursor.parse_of_stream_ok {c : Cursor} (h : c.stream? = some input)
    (hr : rule ⟨input, table⟩ = .ok a s') :
    c.parse rule table = (⟨.ok a, s'.slots⟩,
      { c with pos := c.pos + (input.length - s'.input.length : Nat) }) := by
  simp only [Cursor.parse, h, hr]

theorem Cursor.parse_of_stream_error {c : Cursor} (h : c.stream? = some input)
    (hr : rule ⟨input, table⟩ = .error d s') :
    c.parse rule table = (⟨.error (.diagnostic d), s'.slots⟩,
      { c with pos := c.pos + (input.length - s'.input.length : Nat) }) := by
  simp only [Cursor.parse, h, hr]

theorem Cursor.parse_of_ok (h : rule ⟨input, table⟩ = .ok a s') :
    (⟨input.toList, 0⟩ : Cursor).parse rule table =
      (⟨.ok a, s'.slots⟩, ⟨input.toList, 0 + (input.length - s'.input.length : Nat)⟩) :=
  parse_of_stream_ok rfl h

theorem Cursor.parse_of_error (h : rule ⟨input, table⟩ = .error d s') :
    (⟨input.toList, 0⟩ : Cursor).parse rule table =
      (⟨.error (.diagnostic d), s'.slots⟩,
        ⟨input.toList, 0 + (input.length - s'.input.length : Nat)⟩) :=
  parse_of_stream_error rfl h

end Cursors

/-- Parsing a list that ends with the end of input runs the rule for programs on all of it. -/
theorem parseTokens_eq (table : SlotTable) {input : TokenStream}
    (h : Terminated input.toList = true) :
    parseTokens o table input.toList =
      ((⟨input.toList, 0⟩ : Cursor).parse (Grammar.program o) table).1 := by
  rw [parseTokens, show Cursor.create input.toList 0 = .ok ⟨input.toList, 0⟩ from if_pos h]

theorem TokenStream.exists_of_terminated {tokens : List Token} (h : Terminated tokens = true) :
    ∃ input : TokenStream, input.toList = tokens := by
  cases tokens with
  | nil => cases h
  | cons t ts => exact ⟨⟨t, ts⟩, rfl⟩

/-- A list that does not end with the end of input is refused as a whole. -/
theorem exists_stream_of_parseTokens {table : SlotTable} {tokens : List Token}
    {r : Except Failure Program} (h : (parseTokens o table tokens).outcome = r)
    (hr : r ≠ .error .unterminated) :
    ∃ input : TokenStream, input.toList = tokens ∧ Terminated input.toList = true := by
  cases hend : Terminated tokens with
  | true =>
    obtain ⟨input, rfl⟩ := TokenStream.exists_of_terminated hend
    exact ⟨input, rfl, hend⟩
  | false =>
    have hrefused : Cursor.create tokens 0 = .error .unterminated := if_neg (by simp [hend])
    rw [parseTokens, hrefused] at h
    exact absurd h.symm hr

section Whole

variable {table : SlotTable} {input : TokenStream} (h : Terminated input.toList = true)
include h

theorem parseTokens_of_ok
    (hr : Grammar.statementsWithin o input.length 0 ⟨input, table⟩ = .ok ns s') :
    parseTokens o table input.toList = ⟨.ok ⟨ns, some input.head.location⟩, s'.slots⟩ := by
  rw [parseTokens_eq table h, Cursor.parse_of_ok (program_of_ok hr)]

theorem parseTokens_of_error
    (hr : Grammar.statementsWithin o input.length 0 ⟨input, table⟩ = .error d s') :
    parseTokens o table input.toList = ⟨.error (.diagnostic d), s'.slots⟩ := by
  rw [parseTokens_eq table h, Cursor.parse_of_error (program_of_error hr)]

/-- Whether a parse succeeds or fails, its slots are those that the rule for statements leaves. -/
theorem slots_parseTokens :
    (parseTokens o table input.toList).slots =
      (finalState (Grammar.statementsWithin o input.length 0 ⟨input, table⟩)).slots := by
  cases hr : Grammar.statementsWithin o input.length 0 ⟨input, table⟩ with
  | ok ns s' => rw [parseTokens_of_ok h hr, finalState]
  | error d s' => rw [parseTokens_of_error h hr, finalState]

theorem exists_of_parseTokens_ok {P : Program}
    (hP : (parseTokens o table input.toList).outcome = .ok P) :
    ∃ s', Grammar.statementsWithin o input.length 0 ⟨input, table⟩ = .ok P.statements s' ∧
      parseTokens o table input.toList = ⟨.ok P, s'.slots⟩ ∧
      P.location = some input.head.location := by
  cases hr : Grammar.statementsWithin o input.length 0 ⟨input, table⟩ with
  | ok ns s' =>
    have heq := parseTokens_of_ok h hr
    rw [heq] at hP
    cases hP
    exact ⟨s', rfl, heq, rfl⟩
  | error d s' =>
    rw [parseTokens_of_error h hr] at hP
    cases hP

theorem exists_of_parseTokens_error
    (hd : (parseTokens o table input.toList).outcome = .error (.diagnostic d)) :
    ∃ s', Grammar.statementsWithin o input.length 0 ⟨input, table⟩ = .error d s' := by
  cases hr : Grammar.statementsWithin o input.length 0 ⟨input, table⟩ with
  | ok ns s' =>
    rw [parseTokens_of_ok h hr] at hd
    cases hd
  | error d' s' =>
    rw [parseTokens_of_error h hr] at hd
    cases hd
    exact ⟨s', rfl⟩

end Whole

end Outcomes

/-! ### Accepted lists -/

theorem TokenStream.exists_toList_eq (body : List Token) {last : Token}
    (hlast : last.isEnd = true) :
    ∃ input : TokenStream, input.toList = body ++ [last] ∧ Terminated input.toList = true := by
  obtain ⟨t, ts, ht⟩ := List.exists_cons_of_ne_nil (show body ++ [last] ≠ [] by simp)
  refine ⟨⟨t, ts⟩, ht.symm, ?_⟩
  rw [TokenStream.toList, ← ht]
  simp [Terminated, hlast]

/-- Of tokens that end at the end of input, the part before it is what has none. -/
theorem eq_of_append_end {body p rest : List Token} {last a : Token}
    (hbody : ∀ t ∈ body, t.isEnd = false) (hp : ∀ t ∈ p, t.isEnd = false)
    (hlast : last.isEnd = true) (ha : a.isEnd = true) (h : body ++ [last] = p ++ a :: rest) :
    p = body := by
  induction body generalizing p with
  | nil =>
    cases p with
    | nil => rfl
    | cons t p =>
      have ht := hp t List.mem_cons_self
      rw [← (List.cons.inj h).1, hlast] at ht
      cases ht
  | cons b body ih =>
    cases p with
    | nil =>
      have hb := hbody b List.mem_cons_self
      rw [(List.cons.inj h).1, ha] at hb
      cases hb
    | cons t p =>
      obtain ⟨rfl, htail⟩ := List.cons.inj h
      rw [ih (fun t ht => hbody t (.tail _ ht)) (fun t ht => hp t (.tail _ ht)) htail]

theorem DerivesAll.length_le {σ : String → Nat} {ts : List Token} {ns : List Node}
    (h : DerivesAll σ ts ns) : ns.length ≤ ts.length := by
  induction h with
  | nil => exact Nat.le_refl _
  | skip _ _ ih => exact Nat.le_succ_of_le ih
  | last hn => exact List.length_pos_iff.mpr hn.ne_nil
  | cons hn _ _ ih =>
    rw [List.length_append, List.length_cons, List.length_cons]
    omega

section Accepted

variable {o : ParseSettings} {table : SlotTable} {σ : String → Nat} {body : List Token}
  {last : Token}

/-- Tokens that derive statements are accepted before the end of input, if the limits allow. -/
theorem parseTokens_of_derivesAll {ns : List Node} (h : DerivesAll σ body ns)
    (hlast : last.isEnd = true) (hfits : table.Fits body) (hσ : (table.enter body).Agrees σ)
    (hmax : ns = [] ∨ (ns.length : Int) ≤ o.maxStatements) :
    (parseTokens o table (body ++ [last])).outcome =
      .ok ⟨ns, (body ++ [last]).head?.map Token.location⟩ := by
  obtain ⟨input, hi, hend⟩ := TokenStream.exists_toList_eq body hlast
  have hlen : input.length = (body ++ [last]).length := congrArg List.length hi
  rw [List.length_append] at hlen
  obtain ⟨s', hok, -⟩ := h.accepted (o := o) (s := ⟨input, table⟩)
    ⟨⟨last, [], hi, hlast⟩, hfits, hσ⟩ input.length 0 (by omega) (by simpa using hmax)
  rw [← hi, parseTokens_of_ok hend hok]
  rfl

/-- An accepted list derives its program up to the first end of input. -/
theorem derivesAll_of_parseTokens {P : Program} (hr : table.Regular)
    (hbody : ∀ t ∈ body, t.isEnd = false) (hlast : last.isEnd = true)
    (h : (parseTokens o table (body ++ [last])).outcome = .ok P) :
    P.location = (body ++ [last]).head?.map Token.location ∧ table.Fits body ∧
      (parseTokens o table (body ++ [last])).slots = table.enter body ∧
      ∀ σ, (table.enter body).Agrees σ → DerivesAll σ body P.statements := by
  obtain ⟨input, hi, hend⟩ := TokenStream.exists_toList_eq body hlast
  rw [← hi] at h ⊢
  obtain ⟨s', hok, heq, hl⟩ := exists_of_parseTokens_ok hend h
  have hstop := isEnd_of_statementsWithin (s := ⟨input, table⟩) hend (Nat.le_refl _) hok
  have hsound := sound_statementsWithin (o := o) input.length 0 ⟨input, table⟩ hend
  rw [SoundAt, hok] at hsound
  obtain ⟨p, hp, hfits, hd⟩ := hsound
  have hreg : s'.slots.Regular := hp.slots ▸ hr.enter p
  obtain rfl : p = body := eq_of_append_end hbody (hd _ hreg.agrees.resolves).1.isEnd_eq hlast hstop
    (hi.symm.trans hp.input)
  rw [hl, heq]
  exact ⟨rfl, hfits, hp.slots, fun σ hσ => (hd σ (hp.slots ▸ hσ.resolves)).1⟩

end Accepted

theorem Token.name?_of_isEnd {t : Token} (h : t.isEnd = true) : t.name? = none := by
  cases hl : t.lexeme with
  | identifier x =>
    rw [Token.isEnd_of_identifier hl] at h
    cases h
  | _ => rw [Token.name?, hl]

theorem SlotTable.create_eq_ok {wordSize capacity : Int} {table : SlotTable}
    (h : SlotTable.create wordSize capacity = .ok table) :
    0 < wordSize ∧ 0 ≤ capacity ∧ table = ⟨wordSize.toNat, capacity.toNat, [], 0⟩ := by
  rw [create] at h
  split at h
  · cases h
  split at h
  · cases h
  cases h
  exact ⟨by omega, by omega, rfl⟩

/-- The offsets in a fresh table behind tokens that fit in it. -/
theorem SlotTable.agrees_offsetIn {wordSize capacity : Nat} {p : List Token}
    (h : Fits ⟨wordSize, capacity, [], 0⟩ p) :
    (enter ⟨wordSize, capacity, [], 0⟩ p).Agrees (offsetIn wordSize (nameOrder p)) := by
  have hr := (regular_empty wordSize capacity).enter p
  have ha := hr.agrees
  rwa [wordSize_enter, names_enter h] at ha

/-- Of lists with the end of input at their end only, and within limits that no program in them can
exceed, the parser accepts just those that the grammar derives and returns the program derived,
where names have slots in the order in which they first occur. What it takes for a target is a name
under parentheses and pluses, and nothing else. -/
theorem parseTokens_eq_ok_iff_derivesAll (o : ParseSettings) {wordSize capacity : Int}
    {table : SlotTable} (htable : SlotTable.create wordSize capacity = .ok table)
    {body : List Token} {last : Token} (hbody : ∀ t ∈ body, t.isEnd = false)
    (hlast : last.isEnd = true) (hmax : ((body ++ [last]).length : Int) ≤ o.maxStatements)
    (hcap : ((body ++ [last]).length : Int) ≤ capacity) (P : Program) :
    let σ := offsetIn wordSize.toNat (nameOrder (body ++ [last]))
    ((parseTokens o table (body ++ [last])).outcome = .ok P ↔
      P.location = (body ++ [last]).head?.map Token.location ∧ DerivesAll σ body P.statements) ∧
    ∀ ts, (∃ e, Derives σ .equality ts e ∧ e.isVariable = true) ↔ ∃ signed, Target signed ts := by
  obtain ⟨-, -, rfl⟩ := SlotTable.create_eq_ok htable
  have hnames : nameOrder (body ++ [last]) = nameOrder body := by
    rw [nameOrder, List.foldl_append]
    simp [addName, Token.name?_of_isEnd hlast, nameOrder]
  rw [List.length_append, List.length_singleton] at hmax hcap
  have hfits : SlotTable.Fits ⟨wordSize.toNat, capacity.toNat, [], 0⟩ body :=
    SlotTable.fits_of_length_le (by simp [SlotTable.size]; omega)
  have hσ := SlotTable.agrees_offsetIn hfits
  rw [← hnames] at hσ
  refine ⟨⟨fun h => ?_, ?_⟩, fun ts => exists_derives_variable_iff⟩
  · obtain ⟨hl, -, -, hd⟩ :=
      derivesAll_of_parseTokens (SlotTable.regular_empty _ _) hbody hlast h
    exact ⟨hl, hd _ hσ⟩
  · rintro ⟨hl, h⟩
    have hcount := h.length_le
    rw [parseTokens_of_derivesAll h hlast hfits hσ (.inr (by omega)), ← hl]

/-- Tokens in a row, one to a column of the first line. -/
def tokenRow (lexemes : List Lexeme) : List Token :=
  lexemes.mapIdx fun i l => ⟨l, "", ⟨none, 1, i + 1, i⟩⟩

/-- A signed name in parentheses is a target, and the operands of greater-than change places. -/
theorem parseTokens_signed_target :
    let column (n : Int) : Option Location := some ⟨none, 1, n + 1, n⟩
    let body := tokenRow [.mark .openParen none, .mark .plus none, .identifier "b",
      .mark .closeParen none, .mark .assign none, .identifier "a", .mark .greater none,
      .mark .minus none, .number 2]
    let last : Token := ⟨.endOfInput, "", ⟨none, 1, 10, 9⟩⟩
    let program : Program := ⟨[.assign (.var "b" 8 (column 2))
      (.binary .less (.binary .sub (.number 0 (column 7)) (.number 2 (column 8)) (column 7))
        (.var "a" 16 (column 5)) (column 5)) (column 2)], column 0⟩
    (∀ t ∈ body, t.isEnd = false) ∧ last.isEnd = true ∧ (body ++ [last]).length = 10 ∧
      (parseTokens ⟨[], 10⟩ ⟨8, 10, [], 0⟩ (body ++ [last])).outcome = .ok program := by
  intro column body last program
  have hbody : ∀ t ∈ body, t.isEnd = false := by decide
  have hlast : last.isEnd = true := rfl
  have htable : SlotTable.create 8 10 = .ok ⟨8, 10, [], 0⟩ := rfl
  let σ := offsetIn 8 (nameOrder (body ++ [last]))
  have htarget : Derives σ .equality (body.take 4) (.var "b" 8 (column 2)) :=
    .equality_of_unary (.unsigned (.parens rfl
      (.expression (.bare (.equality_of_unary (.plus rfl (.name rfl))))) rfl))
  have hleft : Derives σ .additive [body[5]] (.var "a" 16 (column 5)) :=
    .operand .additive (.operand .term (.unsigned (.name rfl)))
  have hright : Derives σ .additive (body.drop 7)
      (.binary .sub (.number 0 (column 7)) (.number 2 (column 8)) (column 7)) :=
    .operand .additive (.operand .term (.minus rfl (.number rfl)))
  have hvalue := Derives.join .relational .greater (.operand .relational hleft)
    (show body[6].kind = .mark .greater from rfl) hright
  have hderives := parseTokens_eq_ok_iff_derivesAll ⟨[], 10⟩ htable hbody hlast (by decide)
    (by decide) program
  exact ⟨hbody, hlast, rfl, hderives.1.mpr ⟨rfl, .last (.statement (.expression
    (.assign htarget rfl (.bare (.operand .equality hvalue)))))⟩⟩

end WordLang
