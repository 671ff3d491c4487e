import Mathlib.Data.List.Induction
import WordLang.Proofs.Grammar.Acceptance

/-! Which names get slots, and which slots the variables of a tree have. A parse that fails has
given slots to the names it had read by then. -/
namespace WordLang

/-! ### Names in order -/

theorem nameOrder_concat (p : List Token) (tok : Token) :
    nameOrder (p ++ [tok]) = addName (nameOrder p) tok := List.foldl_concat ..

/-- New names come behind the known ones, each where it first occurs. -/
theorem foldl_addName_eq (names : List String) (p : List Token) :
    p.foldl addName names = names ++ (nameOrder p).filter (· ∉ names) := by
  induction p using List.reverseRecOn with
  | nil => simp [nameOrder]
  | append_singleton p tok ih =>
    rw [List.foldl_concat, ih, nameOrder_concat, addName, addName]
    cases tok.name? with
    | none => rfl
    | some x =>
      by_cases hold : x ∈ names
      · by_cases hnew : x ∈ nameOrder p <;> simp [hold, hnew]
      · by_cases hnew : x ∈ nameOrder p <;> simp [hold, hnew]

namespace SlotTable

/-! ### Tables that can arise -/

/-- Tables that come from an empty one by asking for slots. A request that is refused leaves its
table as it is. -/
inductive Reachable : SlotTable → Prop
  | create {wordSize capacity : Int} {t : SlotTable} (h : create wordSize capacity = .ok t) :
      Reachable t
  | resolve {t t' : SlotTable} {x : String} {l : Option Location} {line : Option String}
      {offset : Nat} (h : Reachable t) (hx : SlotTable.resolve x l line t = .ok offset t') :
      Reachable t'

variable {t : SlotTable}

/-- A slot is handed out as it is for a token with the name. -/
theorem eq_enroll_of_resolve {t' : SlotTable} {x : String} {l : Option Location}
    {line : Option String} {offset : Nat} (h : resolve x l line t = .ok offset t') :
    t' = t.enroll ⟨.identifier x, x, ⟨none, 1, 1, 0⟩⟩ := by
  have hx : Token.name? ⟨.identifier x, x, ⟨none, 1, 1, 0⟩⟩ = some x := rfl
  by_cases ha : t.Accepts ⟨.identifier x, x, ⟨none, 1, 1, 0⟩⟩
  · obtain ⟨slot, -, hr⟩ := resolve_of_accepts hx ha l line
    rw [hr] at h
    cases h
    rfl
  · obtain ⟨-, d, hd, -⟩ := resolve_of_not_accepts hx ha l line
    rw [hd] at h
    cases h

theorem Reachable.regular (h : t.Reachable) : t.Regular := by
  induction h with
  | create h =>
    obtain ⟨-, -, rfl⟩ := create_eq_ok h
    exact regular_empty _ _
  | resolve _ hx ih =>
    rw [eq_enroll_of_resolve hx]
    exact ih.enroll _

/-! ### Full tables -/

theorem take_foldl_addName {names : List String} {n : Nat} (h : names.length = n)
    (p : List Token) : (p.foldl addName names).take n = names := by
  rw [foldl_addName_eq, ← h, List.take_left]

/-- Once a table is full, new names get no slots. -/
theorem Regular.names_enter_take (h : t.Regular) (p : List Token) :
    (t.enter p).names = (p.foldl addName t.names).take t.capacity := by
  induction p generalizing t with
  | nil =>
    refine (List.take_of_length_le ?_).symm
    show t.names.length ≤ t.capacity
    rw [names, List.length_map]
    exact h.size_le
  | cons tok p ih =>
    have hrest := ih (h.enroll tok)
    rw [capacity_enroll] at hrest
    rw [List.foldl_cons]
    refine hrest.trans ?_
    by_cases ha : t.Accepts tok
    · rw [names_enroll ha]
    · -- The table is full: both sides are the names that it has.
      obtain ⟨x, hx, hnew, hroom⟩ := exists_of_not_accepts ha
      have hfull : t.names.length = t.capacity := by
        rw [names, List.length_map]
        exact Nat.le_antisymm h.size_le hroom
      have hsame : t.enroll tok = t := by
        rw [SlotTable.enroll, hx]
        exact if_pos (.inr hroom)
      have hadd : addName t.names tok = t.names ++ [x] := by
        rw [addName, hx]
        exact if_neg hnew
      rw [hsame, take_foldl_addName hfull, hadd, foldl_addName_eq, List.append_assoc, ← hfull,
        List.take_left]

end SlotTable

/-! ### Variables in trees -/

/-- Variables that stand for names in some tokens and have given offsets. -/
def Node.Places (σ : String → Nat) (ts : List Token) (n : Node) : Prop :=
  ∀ x offset l, Node.var x offset l ∈ n.preorder → offset = σ x ∧ ∃ tok ∈ ts, tok.name? = some x

section Places

variable {σ : String → Nat} {ts us : List Token} {e e' : Node}

theorem Node.Places.mono (h : e.Places σ ts) (hsub : ts ⊆ us) : e.Places σ us := by
  intro x offset l hx
  obtain ⟨ho, tok, htok, hname⟩ := h x offset l hx
  exact ⟨ho, tok, hsub htok, hname⟩

theorem Node.Places.binary (h : e.Places σ ts) (h' : e'.Places σ ts) (op : Operator)
    (loc : Option Location) : (Node.binary op e e' loc).Places σ ts := by
  intro x offset l hx
  simp only [Node.preorder, List.mem_cons, List.mem_append, reduceCtorEq, false_or] at hx
  exact hx.elim (h x offset l) (h' x offset l)

theorem Node.places_number (v : Int) (loc : Option Location) :
    (Node.number v loc).Places σ ts := by
  intro x offset l hx
  simp [Node.preorder] at hx

theorem Joins.places {n : Nonterminal} {m : Mark} {f : Node → Node → Node} (hj : Joins n m f)
    (h : e.Places σ ts) (h' : e'.Places σ ts) : (f e e').Places σ ts := by
  cases hj with
  | greater | greaterEqual => exact h'.binary h _ _
  | _ => exact h.binary h' _ _

/-- The variables of a tree are the names in its tokens. -/
theorem Derives.places {n : Nonterminal} (h : Derives σ n ts e) : e.Places σ ts := by
  induction h with
  | number _ => exact Node.places_number _ _
  | @name tok y hl =>
    intro x offset l hx
    obtain ⟨rfl, rfl, -⟩ : x = y ∧ offset = σ y ∧ l = _ := by simpa [Node.preorder] using hx
    exact ⟨rfl, tok, List.mem_singleton_self tok, by rw [Token.name?, hl]⟩
  | parens _ _ _ ih => exact ih.mono fun tok ht => by simp [ht]
  | unsigned _ ih | operand _ _ ih | bare _ ih | expression _ ih | statement _ ih => exact ih
  | plus _ _ ih => exact ih.mono (List.subset_cons_self _ _)
  | minus _ _ ih =>
    exact (Node.places_number _ _).binary (ih.mono (List.subset_cons_self _ _)) _ _
  | join _ hj _ _ _ ih ih' =>
    exact hj.places (ih.mono fun tok ht => by simp [ht]) (ih'.mono fun tok ht => by simp [ht])
  | assign _ _ _ ih ih' =>
    intro x offset l hx
    simp only [Node.preorder, List.mem_append, List.mem_cons, reduceCtorEq, false_or] at hx
    rcases hx with hx | hx
    · exact ih.mono (fun tok ht => by simp [ht]) x offset l (by simpa [Node.preorder] using hx)
    · exact ih'.mono (fun tok ht => by simp [ht]) x offset l hx
  | result _ _ ih =>
    intro x offset l hx
    simp only [Node.preorder, List.mem_cons, reduceCtorEq, false_or] at hx
    exact ih.mono (List.subset_cons_self _ _) x offset l hx

theorem DerivesAll.places {ns : List Node} (h : DerivesAll σ ts ns) :
    ∀ n ∈ ns, n.Places σ ts := by
  induction h with
  | nil => simp
  | skip _ _ ih => exact fun n hn => (ih n hn).mono (List.subset_cons_self _ _)
  | last hn => simpa using hn.places
  | cons hn _ _ ih =>
    simp only [List.mem_cons, forall_eq_or_imp]
    refine ⟨hn.places.mono fun tok ht => by simp [ht], fun n hn => ?_⟩
    exact (ih n hn).mono fun tok ht => by simp [ht]

end Places

/-- The slot of a name among names that fit. -/
theorem SlotTable.Regular.exists_slot {t : SlotTable} (h : t.Regular) {p : List Token}
    (hfits : t.Fits p) {x : String} (hx : ∃ tok ∈ p, tok.name? = some x) :
    ∃ slot, (t.enter p).lookup? x = some slot ∧
      slot.offset = offsetIn (t.enter p).wordSize (t.enter p).names x := by
  have hmem : x ∈ (t.enter p).names := by
    rw [names_enter hfits, mem_foldl_addName]
    exact .inr hx
  obtain ⟨slot, hslot⟩ := exists_lookup?_of_mem_names hmem
  obtain ⟨hs, rfl⟩ := mem_names_of_lookup? hslot
  exact ⟨slot, hslot, ((h.enter p).agrees slot hs).symm⟩

/-! ### Parsing -/

/-- The tokens behind the cursor that a parse leaves are those that it has read. -/
theorem Reads.take_eq {input : TokenStream} {table : SlotTable} {p : List Token} {s' : ParseState}
    (h : Reads ⟨input, table⟩ p s') : input.toList.take p.length = p ∧
      (input.length - s'.input.length : Nat) = p.length := by
  have hlen : input.length = p.length + s'.input.length := h.length
  have hinput : input.toList = p ++ s'.input.toList := h.input
  exact ⟨by rw [hinput, List.take_left], by omega⟩

/-- Whether a parse succeeds or fails, the names it has read by then have slots behind those of the
table that it was given, in the order in which they first occur among the tokens and as far as there
is room. If it succeeds, every variable of the tree has the offset of the slot of its name. -/
theorem slots_of_read_names (o : ParseSettings) {table : SlotTable} (htable : table.Reachable)
    {tokens : List Token} (hend : Terminated tokens = true) :
    let result := (⟨tokens, 0⟩ : Cursor).parse (Grammar.program o) table
    ∃ p : Nat, result.2 = ⟨tokens, p⟩ ∧
      result.1.slots.names = (table.names ++
        (nameOrder (tokens.take p)).filter (· ∉ table.names)).take table.capacity ∧
      table.slots <+: result.1.slots.slots ∧
      ∀ P, result.1.outcome = .ok P → ∀ x offset l, Node.var x offset l ∈ P.node.preorder →
        ∃ slot, result.1.slots.lookup? x = some slot ∧ (slot.offset : Int) = offset := by
  have hregular := htable.regular
  obtain ⟨input, rfl⟩ := TokenStream.exists_of_terminated hend
  have hsound := sound_statementsWithin (o := o) input.length 0 ⟨input, table⟩ hend
  rw [SoundAt] at hsound
  have hnames {p : List Token} {s' : ParseState} (hp : Reads ⟨input, table⟩ p s') :
      s'.slots.names = (table.names ++
        (nameOrder (input.toList.take p.length)).filter (· ∉ table.names)).take table.capacity ∧
      table.slots <+: s'.slots.slots := by
    rw [hp.take_eq.1, hp.slots, hregular.names_enter_take, foldl_addName_eq]
    obtain ⟨more, hmore⟩ := table.slots_enter p
    exact ⟨rfl, more, hmore.symm⟩
  cases hr : Grammar.statementsWithin o input.length 0 ⟨input, table⟩ with
  | ok ns s' =>
    rw [hr] at hsound
    obtain ⟨p, hp, hfits, hderives⟩ := hsound
    rw [Cursor.parse_of_ok (program_of_ok hr), hp.take_eq.2, Int.zero_add]
    refine ⟨p.length, rfl, (hnames hp).1, (hnames hp).2, ?_⟩
    rintro _ ⟨rfl⟩ x offset l hx
    simp only [Program.node, Node.preorder, List.mem_cons, reduceCtorEq, false_or,
      Node.mem_preorderList] at hx
    obtain ⟨n, hn, hx⟩ := hx
    have hagrees : s'.slots.Agrees _ := (hp.slots ▸ hregular.enter p).agrees
    obtain ⟨rfl, htok⟩ := (hderives _ hagrees.resolves).1.places n hn x offset l hx
    obtain ⟨slot, hslot, hoffset⟩ := hregular.exists_slot hfits htok
    rw [hp.slots]
    exact ⟨slot, hslot, by rw [hoffset]⟩
  | error d s' =>
    rw [hr] at hsound
    obtain ⟨p, hstop⟩ := hsound
    have hp := hstop.reads
    rw [Cursor.parse_of_error (program_of_error hr), hp.take_eq.2, Int.zero_add]
    refine ⟨p.length, rfl, (hnames hp).1, (hnames hp).2, ?_⟩
    rintro _ ⟨⟩

/-- A table with one slot taken and two left, a comparison that exchanges its operands, and one name
too many. -/
theorem slots_of_read_names_full :
    let table : SlotTable := ⟨8, 3, [⟨"z", 8⟩], 8⟩
    let tokens := tokenRow [.identifier "b", .mark .greater none, .identifier "a",
      .mark .semicolon none, .identifier "z", .mark .assign none, .identifier "c",
      .mark .semicolon none, .endOfInput]
    table.Reachable ∧ Terminated tokens = true ∧
      ((⟨tokens, 0⟩ : Cursor).parse (Grammar.program ⟨[], 5⟩) table).1.slots.names =
        ["z", "b", "a"] := by
  intro table tokens
  have htable : table.Reachable := by
    have hempty : SlotTable.create 8 3 = .ok ⟨8, 3, [], 0⟩ := rfl
    have hz : SlotTable.resolve "z" none none ⟨8, 3, [], 0⟩ = .ok 8 table := rfl
    exact .resolve (.create hempty) hz
  have hend : Terminated tokens = true := rfl
  have hcursor : ((⟨tokens, 0⟩ : Cursor).parse (Grammar.program ⟨[], 5⟩) table).2.pos = 7 := by
    decide +kernel
  obtain ⟨p, hp, hnames, -⟩ := slots_of_read_names ⟨[], 5⟩ htable hend
  rw [hp] at hcursor
  obtain rfl : p = 7 := Int.ofNat_inj.mp hcursor
  exact ⟨htable, hend, hnames.trans (by decide)⟩

end WordLang
