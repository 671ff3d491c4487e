import WordLang.Proofs.Grammar.Allocation
import WordLang.Proofs.Grammar.Parallel

/-! Limits only cut a parse short. A parse within limits goes as one that has room for everything,
up to the token where the first limit is exceeded, and fails there. -/
namespace WordLang

/-! ### Where limits are exceeded -/

/-- The states in which a parse starts its statements. -/
def Grammar.statementStarts (o : ParseSettings) : Nat → ParseState → List ParseState
  | 0, _ => []
  | fuel + 1, s =>
    if s.input.head.isEnd then []
    else if s.input.head.kind = .mark .semicolon then statementStarts o fuel s.next
    else s :: match Grammar.statement o s with
      | .error _ _ => []
      | .ok _ s' =>
        if s'.input.head.kind = .mark .semicolon then statementStarts o fuel s'.next else []

/-- The place of the token where a parse starts a statement, with statements counted from nought. -/
def statementPlace? (o : ParseSettings) (table : SlotTable) (input : TokenStream) (k : Nat) :
    Option Nat :=
  (Grammar.statementStarts o input.length ⟨input, table⟩)[k]?.map fun s =>
    input.length - s.input.length

/-- The place of the token that brings the first name beyond a number of names. -/
def namePlace? (tokens : List Token) (c : Nat) : Option Nat :=
  (List.range tokens.length).find? fun i => c < (nameOrder (tokens.take (i + 1))).length

section Names

variable {all tokens p : List Token} {tok : Token} {c : Nat}

theorem length_nameOrder_le (h : p <+: tokens) :
    (nameOrder p).length ≤ (nameOrder tokens).length := by
  obtain ⟨q, rfl⟩ := h
  rw [nameOrder, nameOrder, List.foldl_append, foldl_addName_eq (p.foldl addName []),
    List.length_append]
  exact Nat.le_add_right _ _

theorem namePlace?_eq_none (h : (nameOrder tokens).length ≤ c) : namePlace? tokens c = none := by
  refine List.find?_eq_none.mpr fun i _ => ?_
  have hle := length_nameOrder_le (List.take_prefix (i + 1) tokens)
  simp only [decide_eq_true_eq]
  omega

/-- Among tokens with few names no place is found. -/
theorem length_nameOrder_take_le (hp : p <+: all) (htokens : tokens <+: all)
    (h : (nameOrder p).length ≤ c) {i : Nat} (hi : i < p.length) :
    (nameOrder (tokens.take (i + 1))).length ≤ c := by
  have hbefore : tokens.take (i + 1) <+: p := by
    refine List.prefix_of_prefix_length_le ((List.take_prefix _ _).trans htokens) hp ?_
    rw [List.length_take]
    omega
  exact Nat.le_trans (length_nameOrder_le hbefore) h

theorem length_le_of_namePlace? (hp : p <+: all) (htokens : tokens <+: all)
    (h : (nameOrder p).length ≤ c) {q : Nat} (hq : namePlace? tokens c = some q) :
    p.length ≤ q := by
  by_contra hlt
  have hle := length_nameOrder_take_le hp htokens h (Nat.lt_of_not_le hlt)
  have hfound : c < (nameOrder (tokens.take (q + 1))).length := by
    simpa using List.find?_some hq
  omega

theorem namePlace?_eq_some (hp : p ++ [tok] <+: tokens) (h : (nameOrder p).length ≤ c)
    (htok : c < (nameOrder (p ++ [tok])).length) : namePlace? tokens c = some p.length := by
  have hlen := hp.length_le
  rw [List.length_append, List.length_singleton] at hlen
  have htake : tokens.take (p.length + 1) = p ++ [tok] := by
    obtain ⟨rest, rfl⟩ := hp
    exact List.take_left' (by simp)
  refine List.find?_range_eq_some.mpr ⟨?_, List.mem_range.mpr (by omega), fun i hi => ?_⟩
  · rw [htake]
    exact decide_eq_true htok
  · have hbefore : p <+: tokens := (List.prefix_append p [tok]).trans hp
    have hle := length_nameOrder_take_le hbefore List.prefix_rfl h hi
    simp only [Bool.not_eq_eq_eq_not, Bool.not_true, decide_eq_false_iff_not]
    omega

end Names

namespace SlotTable

variable {t : SlotTable}

/-- A table with another capacity. -/
def widen (t : SlotTable) (capacity : Nat) : SlotTable := { t with capacity := capacity }

/-- A token whose name has no slot left, behind tokens whose names fit. -/
structure Overflows (t : SlotTable) (tokens p : List Token) (tok : Token) (rest : List Token) :
    Prop where
  tokens_eq : tokens = p ++ tok :: rest
  fits : t.Fits p
  refused : ¬(t.enter p).Accepts tok

/-- With room left, a table answers as it does with another capacity. -/
theorem resolve_widen {t' : SlotTable} {x : String} {l : Option Location} {line : Option String}
    {offset capacity : Nat} (h : t.size < capacity) (hx : resolve x l line t = .ok offset t') :
    resolve x l line (t.widen capacity) = .ok offset (t'.widen capacity) := by
  have hroom : ¬(t.widen capacity).capacity ≤ (t.widen capacity).size := Nat.not_le.mpr h
  have hlookup : (t.widen capacity).lookup? x = t.lookup? x := rfl
  cases hl : t.lookup? x with
  | some slot =>
    rw [resolve_of_some hl] at hx
    cases hx
    exact resolve_of_some (hlookup.trans hl) l line
  | none =>
    rw [resolve_of_none hl] at hx
    rw [resolve_of_none (hlookup.trans hl), if_neg hroom]
    split at hx
    · cases hx
    · cases hx
      rfl

/-- The names that fit in an empty table are not more than its slots. -/
theorem Fits.length_nameOrder_le {wordSize capacity : Nat} {p : List Token}
    (h : Fits ⟨wordSize, capacity, [], 0⟩ p) :
    (nameOrder p).length ≤ capacity := by
  have hnames : (enter ⟨wordSize, capacity, [], 0⟩ p).names = nameOrder p := names_enter h
  have hle := ((regular_empty wordSize capacity).enter p).size_le
  rw [capacity_enter] at hle
  rw [← hnames, names, List.length_map]
  exact hle

/-- The name that does not fit any more is one too many. -/
theorem Overflows.lt_length_nameOrder {wordSize capacity : Nat} {tokens p rest : List Token}
    {tok : Token} (h : Overflows ⟨wordSize, capacity, [], 0⟩ tokens p tok rest) :
    capacity < (nameOrder (p ++ [tok])).length := by
  have hnames : (enter ⟨wordSize, capacity, [], 0⟩ p).names = nameOrder p := names_enter h.fits
  obtain ⟨x, hx, hnew, hfull⟩ := exists_of_not_accepts h.refused
  rw [capacity_enter] at hfull
  rw [hnames] at hnew
  rw [nameOrder_concat, addName, hx]
  simp only [hnew, ↓reduceIte, List.length_append, List.length_singleton]
  rw [← hnames, names, List.length_map]
  exact Nat.lt_succ_of_le hfull

theorem size_enter_le (t : SlotTable) (p : List Token) :
    (t.enter p).size ≤ t.size + p.length := by
  induction p generalizing t with
  | nil => exact Nat.le_refl _
  | cons tok p ih =>
    have hrest := ih (t.enroll tok)
    have hone := size_enroll_le t tok
    show ((t.enroll tok).enter p).size ≤ t.size + (p.length + 1)
    omega

end SlotTable

/-! ### Both parses, side by side -/

/-- The diagnostic for a token whose name has no slot left. -/
def tooManyNames (lines : List String) (table : SlotTable) (tok : Token) : Diagnostic :=
  ⟨.tooMany (some "variables") (some table.capacity), some tok.location,
    Text.lineAt? lines tok.location.line⟩

/-- A parse from a table beside the same parse from a table with room. They have read the same
tokens, whose names fit in the first table; where a name does not, the first parse fails by itself.
-/
def roomy (lines : List String) (input : TokenStream) (table : SlotTable) (capacity : Nat) :
    Parallel where
  states s₁ s₂ := s₂ = ⟨s₁.input, s₁.slots.widen capacity⟩ ∧
    ∃ p, Reads ⟨input, table⟩ p s₁ ∧ table.Fits p
  trees := Eq
  diagnostics := Eq
  early d s := ∃ p tok rest, table.Overflows input.toList p tok rest ∧
    d = tooManyNames lines table tok ∧ s.input.toList <:+ rest

section Roomy

variable {lines : List String} {input : TokenStream} {table : SlotTable} {capacity : Nat}
  {m₁ m₂ : Int}

/-- A name finds the same slot in both tables, unless the first is full. -/
theorem roomy_name (hend : Terminated input.toList = true)
    (hcap : table.size + input.length ≤ capacity) {s : ParseState} {p : List Token} {x : String}
    (hp : Reads ⟨input, table⟩ p s) (hfits : table.Fits p)
    (hx : s.input.head.lexeme = .identifier x) :
    (roomy lines input table capacity).Ends Eq
      (Parallel.readName ⟨lines, m₁⟩ s.input.head x s.next)
      (Parallel.readName ⟨lines, m₂⟩ s.input.head x ⟨s.next.input, s.slots.widen capacity⟩) := by
  have hname : s.input.head.name? = some x := by rw [Token.name?, hx]
  have hread := s.reads_enroll (hp.terminated hend) (Token.isEnd_of_identifier hx)
  have hslots : s.slots = table.enter p := hp.slots
  have hsize : s.slots.size < capacity := by
    have hlen : input.length = p.length + s.input.length := hp.length
    have hpos : 0 < s.input.length := List.length_pos_iff.mpr s.input.toList_ne_nil
    have hle := table.size_enter_le p
    rw [hslots]
    omega
  by_cases ha : s.slots.Accepts s.input.head
  · obtain ⟨slot, -, hr⟩ := SlotTable.resolve_of_accepts hname ha
      (some s.input.head.location) (Text.lineAt? lines s.input.head.location.line)
    have hr' := SlotTable.resolve_widen hsize hr
    rw [Parallel.readName_of_ok hr,
      Parallel.readName_of_ok (s := ⟨s.next.input, s.slots.widen capacity⟩) hr']
    refine .ok rfl ⟨rfl, p ++ [s.input.head], hp.trans hread, ?_⟩
    exact SlotTable.fits_append.mpr ⟨hfits, hslots ▸ ha, trivial⟩
  · obtain ⟨-, d, hd, -⟩ := SlotTable.resolve_of_not_accepts hname ha
      (some s.input.head.location) (Text.lineAt? lines s.input.head.location.line)
    have hroom : (s.slots.widen capacity).Accepts s.input.head := fun _ _ => .inr hsize
    obtain ⟨slot, -, hr⟩ := SlotTable.resolve_of_accepts hname hroom
      (some s.input.head.location) (Text.lineAt? lines s.input.head.location.line)
    rw [Parallel.readName_of_error hd, Parallel.readName_of_ok hr]
    obtain ⟨rfl, -⟩ := SlotTable.resolve_error hd
    refine .early ⟨p, s.input.head, s.next.input.toList, ⟨?_, hfits, ?_⟩, ?_, List.suffix_rfl⟩
    · exact hp.input.trans (congrArg (p ++ ·) hread.input)
    · rwa [hslots] at ha
    · rw [hslots, SlotTable.capacity_enter]
      rfl

theorem terminated_of_roomy (hend : Terminated input.toList = true) {s₁ s₂ : ParseState}
    (h : (roomy lines input table capacity).states s₁ s₂) : Terminated s₂.input.toList := by
  obtain ⟨rfl, p, hp, -⟩ := h
  exact hp.terminated hend

theorem lawful_roomy (hend : Terminated input.toList = true)
    (hcap : table.size + input.length ≤ capacity) :
    (roomy lines input table capacity).Lawful ⟨lines, m₁⟩ ⟨lines, m₂⟩ where
  length := by rintro s _ ⟨rfl, -⟩; rfl
  kind := by rintro s _ ⟨rfl, -⟩; rfl
  next := by
    rintro s _ ⟨rfl, p, hp, hfits⟩ hh hn
    refine ⟨rfl, p ++ [s.input.head], hp.trans (s.reads_next (hp.terminated hend) hh hn), ?_⟩
    exact SlotTable.fits_append.mpr ⟨hfits, SlotTable.accepts_of_name?_none hn, trivial⟩
  number := by
    rintro s _ v₁ v₂ ⟨rfl, -⟩ h₁ h₂
    cases h₁.symm.trans h₂
    rfl
  name := by
    rintro s _ x₁ x₂ ⟨rfl, p, hp, hfits⟩ h₁ h₂
    cases h₁.symm.trans h₂
    exact roomy_name hend hcap hp hfits h₁
  minus := by rintro s _ e _ ⟨rfl, -⟩ rfl; rfl
  join := by rintro e _ e' _ j rfl rfl; rfl
  assign := by rintro e _ e' _ rfl rfl; rfl
  result := by rintro s _ e _ ⟨rfl, -⟩ rfl; rfl
  isVariable := by rintro e _ rfl; rfl
  missingToken := by rintro s _ description ⟨rfl, -⟩; rfl
  missingOperand := by rintro s _ ⟨rfl, -⟩; rfl
  target := by rintro e _ rfl; rfl
  early_terminated := by
    rintro d s ⟨p, tok, rest, h, -, hs⟩
    refine terminated_of_suffix (s := ⟨input, table⟩) (hs.trans ?_) hend
    exact ⟨p ++ [tok], by rw [h.tokens_eq, List.append_assoc]; rfl⟩
  early_suffix := by
    rintro d s s' ⟨p, tok, rest, h, hd, hs⟩ hs'
    exact ⟨p, tok, rest, h, hd, hs'.trans hs⟩

end Roomy

/-! ### Statements, side by side -/

theorem ParseState.next_suffix {s : ParseState} (hs : Terminated s.input.toList)
    (hh : s.input.head.isEnd = false) : s.next.input.toList <:+ s.input.toList := by
  rw [s.toList_next hs hh]
  exact List.suffix_cons _ _

section Starts

variable {o : ParseSettings} {s s' t : ParseState} {n : Node} {d : Diagnostic} {fuel : Nat}

theorem statementStarts_of_isEnd (h : s.input.head.isEnd = true) (fuel : Nat) :
    Grammar.statementStarts o fuel s = [] := by
  cases fuel with
  | zero => rfl
  | succ fuel => rw [Grammar.statementStarts, if_pos h]

theorem statementStarts_of_semicolon (h : s.input.head.kind = .mark .semicolon) (fuel : Nat) :
    Grammar.statementStarts o (fuel + 1) s = Grammar.statementStarts o fuel s.next := by
  rw [Grammar.statementStarts, if_neg (by simp [Token.isEnd_of_mark h]), if_pos h]

section Statement

variable (hh : s.input.head.isEnd = false) (hm : s.input.head.kind ≠ .mark .semicolon)
include hh hm

theorem statementStarts_zero : (Grammar.statementStarts o (fuel + 1) s)[0]? = some s := by
  rw [Grammar.statementStarts, if_neg (by simp [hh]), if_neg hm]
  rfl

theorem statementStarts_of_error (h : Grammar.statement o s = .error d s') :
    Grammar.statementStarts o (fuel + 1) s = [s] := by
  rw [Grammar.statementStarts, if_neg (by simp [hh]), if_neg hm, h]

theorem statementStarts_of_last (h : Grammar.statement o s = .ok n s')
    (hm' : s'.input.head.kind ≠ .mark .semicolon) :
    Grammar.statementStarts o (fuel + 1) s = [s] := by
  rw [Grammar.statementStarts, if_neg (by simp [hh]), if_neg hm, h]
  simp only [hm', ↓reduceIte]

theorem statementStarts_of_more (h : Grammar.statement o s = .ok n s')
    (hm' : s'.input.head.kind = .mark .semicolon) :
    Grammar.statementStarts o (fuel + 1) s = s :: Grammar.statementStarts o fuel s'.next := by
  rw [Grammar.statementStarts, if_neg (by simp [hh]), if_neg hm, h]
  simp only [hm', ↓reduceIte]

end Statement

/-- Statements start further on. -/
theorem suffix_of_mem_statementStarts (hs : Terminated s.input.toList)
    (ht : t ∈ Grammar.statementStarts o fuel s) : t.input.toList <:+ s.input.toList := by
  induction fuel generalizing s with
  | zero => cases ht
  | succ fuel ih =>
    cases hh : s.input.head.isEnd with
    | true =>
      rw [statementStarts_of_isEnd hh] at ht
      cases ht
    | false =>
      by_cases hm : s.input.head.kind = .mark .semicolon
      · rw [statementStarts_of_semicolon hm] at ht
        have hnext := s.next_suffix hs hh
        exact (ih (terminated_of_suffix hnext hs) ht).trans hnext
      cases hr : Grammar.statement o s with
      | error d s' =>
        rw [statementStarts_of_error hh hm hr, List.mem_singleton] at ht
        exact ht ▸ List.suffix_rfl
      | ok n s' =>
        by_cases hm' : s'.input.head.kind = .mark .semicolon
        · have hrest : s'.input.toList <:+ s.input.toList := by
            have hread := (sound_statement (o := o)).consumes s hs
            rwa [hr] at hread
          have hs' := terminated_of_suffix hrest hs
          have hnext := s'.next_suffix hs' (Token.isEnd_of_mark hm')
          rw [statementStarts_of_more hh hm hr hm', List.mem_cons] at ht
          rcases ht with rfl | ht
          · exact List.suffix_rfl
          · exact ((ih (terminated_of_suffix hnext hs') ht).trans hnext).trans hrest
        · rw [statementStarts_of_last hh hm hr hm', List.mem_singleton] at ht
          exact ht ▸ List.suffix_rfl

end Starts

section Cut

variable (lines : List String) (input : TokenStream) (table : SlotTable) (capacity : Nat) (m : Int)

/-- How a parse within limits ends beside the same parse with room, from states behind which the
latter starts some statements and the former may start a number of them. -/
inductive Cut (starts : List ParseState) (k : Nat) :
    EStateM.Result Diagnostic ParseState (List Node) →
    EStateM.Result Diagnostic ParseState (List Node) → Prop
  | ok {ns : List Node} {s₁ s₂ : ParseState} (hk : starts.length ≤ k)
      (hs : (roomy lines input table capacity).states s₁ s₂) : Cut starts k (.ok ns s₁) (.ok ns s₂)
  | error {d : Diagnostic} {s₁ s₂ : ParseState} (hk : starts.length ≤ k)
      (hs : (roomy lines input table capacity).states s₁ s₂) :
      Cut starts k (.error d s₁) (.error d s₂)
  | tooManyStatements {s₁ s₂ : ParseState} {x : EStateM.Result Diagnostic ParseState (List Node)}
      (hk : starts[k]? = some s₂) (hs : (roomy lines input table capacity).states s₁ s₂) :
      Cut starts k (.error (Parallel.failure ⟨lines, m⟩ s₁.input.head
        (.tooMany (some "statements") (some m))) s₁) x
  | tooManyNames {s₁ : ParseState} {x : EStateM.Result Diagnostic ParseState (List Node)}
      {p : List Token} {tok : Token} {rest : List Token}
      (h : table.Overflows input.toList p tok rest)
      (hx : (finalState x).input.toList <:+ rest)
      (hk : ∀ s, starts[k]? = some s → s.input.toList <:+ rest) :
      Cut starts k (.error (tooManyNames lines table tok) s₁) x

variable {lines input table capacity m} {starts : List ParseState} {k : Nat}

theorem finalState_bind_pure {α β : Type} {r : Parse α} {s : ParseState} (g : α → β) :
    finalState ((r >>= fun a => pure (g a) : Parse β) s) = finalState (r s) := by
  cases h : r s with
  | ok a s' => rw [bind_of_ok h]; rfl
  | error d s' => rw [bind_of_error h]; rfl

/-- One more statement before those that follow. -/
theorem Cut.cons {r₁ r₂ : Parse (List Node)} {t₁ t₂ : ParseState}
    (h : Cut lines input table capacity m starts k (r₁ t₁) (r₂ t₂)) (s : ParseState) (n : Node) :
    Cut lines input table capacity m (s :: starts) (k + 1)
      ((do let more ← r₁; pure (n :: more) : Parse (List Node)) t₁)
      ((do let more ← r₂; pure (n :: more) : Parse (List Node)) t₂) := by
  have hfinal := finalState_bind_pure (r := r₂) (s := t₂) (n :: ·)
  generalize hx₁ : r₁ t₁ = x₁ at h
  generalize hx₂ : r₂ t₂ = x₂ at h
  cases h with
  | ok hk hs =>
    rw [bind_of_ok hx₁, bind_of_ok hx₂]
    exact .ok (Nat.succ_le_succ hk) hs
  | error hk hs =>
    rw [bind_of_error hx₁, bind_of_error hx₂]
    exact .error (Nat.succ_le_succ hk) hs
  | tooManyStatements hk hs =>
    rw [bind_of_error hx₁]
    exact .tooManyStatements hk hs
  | tooManyNames h hx hk =>
    rw [bind_of_error hx₁]
    refine .tooManyNames h ?_ hk
    rw [hfinal, hx₂]
    exact hx

variable {M : Int} (hend : Terminated input.toList = true)
  (hcap : table.size + input.length ≤ capacity)
include hend hcap

/-- What follows a statement. -/
theorem cut_afterStatement {fuel count : Nat} {s t₁ t₂ : ParseState} {n : Node}
    (hh : s.input.head.isEnd = false) (hm : s.input.head.kind ≠ .mark .semicolon)
    (hn : Grammar.statement ⟨lines, M⟩ s = .ok n t₂)
    (ht : (roomy lines input table capacity).states t₁ t₂)
    (hrest : t₂.input.head.kind = .mark .semicolon →
      Cut lines input table capacity m (Grammar.statementStarts ⟨lines, M⟩ fuel t₂.next) k
        (Grammar.statementsWithin ⟨lines, m⟩ fuel (count + 1) t₁.next)
        (Grammar.statementsWithin ⟨lines, M⟩ fuel (count + 1) t₂.next)) :
    Cut lines input table capacity m (Grammar.statementStarts ⟨lines, M⟩ (fuel + 1) s) (k + 1)
      (afterStatement ⟨lines, m⟩ fuel count n t₁) (afterStatement ⟨lines, M⟩ fuel count n t₂) := by
  have hP : (roomy lines input table capacity).Lawful ⟨lines, m⟩ ⟨lines, M⟩ :=
    lawful_roomy hend hcap
  have hend₁ : t₁.input.head.isEnd = t₂.input.head.isEnd := (hP.isEnd_eq ht).symm
  by_cases hm₂ : t₂.input.head.kind = .mark .semicolon
  · have hm₁ := (hP.kind ht).trans hm₂
    rw [statementStarts_of_more hh hm hn hm₂,
      afterStatement_of_not_isEnd _ _ _ (Token.isEnd_of_mark hm₁),
      afterStatement_of_not_isEnd _ _ _ (Token.isEnd_of_mark hm₂),
      bind_of_ok (expect_of_kind hm₁ _), bind_of_ok (expect_of_kind hm₂ _)]
    exact (hrest hm₂).cons s n
  rw [statementStarts_of_last hh hm hn hm₂]
  cases hend₂ : t₂.input.head.isEnd with
  | true =>
    rw [afterStatement_of_isEnd _ _ _ (hend₁.trans hend₂), afterStatement_of_isEnd _ _ _ hend₂]
    exact .ok (Nat.le_add_left 1 k) ht
  | false =>
    have hm₁ : t₁.input.head.kind ≠ .mark .semicolon := fun h => hm₂ (hP.kind_eq ht h)
    rw [afterStatement_of_not_isEnd _ _ _ (hend₁.trans hend₂),
      afterStatement_of_not_isEnd _ _ _ hend₂, bind_of_error (expect_of_ne hm₁ _),
      bind_of_error (expect_of_ne hm₂ _)]
    obtain ⟨rfl, hread⟩ := ht
    exact .error (Nat.le_add_left 1 k) ⟨rfl, hread⟩

/-- One statement, when what follows it is cut as it should be. -/
theorem cut_statement {fuel count : Nat} {s₁ s₂ : ParseState}
    (hst : (roomy lines input table capacity).states s₁ s₂)
    (hh : s₂.input.head.isEnd = false) (hm : s₂.input.head.kind ≠ .mark .semicolon)
    (hrest : ∀ t₁ t₂, (roomy lines input table capacity).states t₁ t₂ →
      t₂.input.length < s₂.input.length →
      Cut lines input table capacity m (Grammar.statementStarts ⟨lines, M⟩ fuel t₂) k
        (Grammar.statementsWithin ⟨lines, m⟩ fuel (count + 1) t₁)
        (Grammar.statementsWithin ⟨lines, M⟩ fuel (count + 1) t₂)) :
    Cut lines input table capacity m (Grammar.statementStarts ⟨lines, M⟩ (fuel + 1) s₂) (k + 1)
      ((Grammar.statement ⟨lines, m⟩ >>= afterStatement ⟨lines, m⟩ fuel count) s₁)
      ((Grammar.statement ⟨lines, M⟩ >>= afterStatement ⟨lines, M⟩ fuel count) s₂) := by
  have hP : (roomy lines input table capacity).Lawful ⟨lines, m⟩ ⟨lines, M⟩ :=
    lawful_roomy hend hcap
  have hs₂ := terminated_of_roomy hend hst
  have hread : (finalState (Grammar.statement ⟨lines, M⟩ s₂)).input.toList <:+ s₂.input.toList :=
    sound_statement.consumes s₂ hs₂
  have hends := hP.statement s₁ s₂ hst
  generalize hx₁ : Grammar.statement ⟨lines, m⟩ s₁ = x₁ at hends
  generalize hx₂ : Grammar.statement ⟨lines, M⟩ s₂ = x₂ at hends hread
  cases hends with
  | @ok n _ t₁ t₂ h ht =>
    obtain rfl := h
    rw [bind_of_ok hx₁, bind_of_ok hx₂]
    refine cut_afterStatement hend hcap hh hm hx₂ ht fun hm₂ => ?_
    refine hrest _ _ (hP.next_of_mark ht ((hP.kind ht).trans hm₂)) ?_
    have hnext := congrArg List.length (t₂.toList_next (terminated_of_suffix hread hs₂)
      (Token.isEnd_of_mark hm₂))
    have hle := hread.length_le
    exact Nat.lt_of_lt_of_le (Nat.lt_of_succ_le (Nat.le_of_eq hnext.symm)) hle
  | error h ht =>
    obtain rfl := h
    rw [bind_of_error hx₁, bind_of_error hx₂, statementStarts_of_error hh hm hx₂]
    exact .error (Nat.le_add_left 1 k) ht
  | early h =>
    -- The second parse goes on behind the name, so whatever it starts from here on lies behind it.
    obtain ⟨p, tok, rest, hover, rfl, hrest'⟩ := h
    have hx₂' : Terminated (finalState x₂).input.toList := terminated_of_suffix hread hs₂
    rw [bind_of_error hx₁]
    cases x₂ with
    | error d t₂ =>
      rw [bind_of_error hx₂, statementStarts_of_error hh hm hx₂]
      exact .tooManyNames hover hrest' (by simp)
    | ok n t₂ =>
      rw [bind_of_ok hx₂]
      have hafter : (finalState (afterStatement ⟨lines, M⟩ fuel count n t₂)).input.toList <:+
          t₂.input.toList := consumes_afterStatement fuel count n t₂ hx₂'
      refine .tooManyNames hover (hafter.trans hrest') fun t ht => ?_
      by_cases hm₂ : t₂.input.head.kind = .mark .semicolon
      · rw [statementStarts_of_more hh hm hx₂ hm₂, List.getElem?_cons_succ] at ht
        have hnext := t₂.next_suffix hx₂' (Token.isEnd_of_mark hm₂)
        have hstart := suffix_of_mem_statementStarts (terminated_of_suffix hnext hx₂')
          (List.mem_of_getElem? ht)
        exact (hstart.trans hnext).trans hrest'
      · rw [statementStarts_of_last hh hm hx₂ hm₂] at ht
        simp at ht

/-- A parse within limits beside the same parse with room. -/
theorem cut_statementsWithin (fuel : Nat) {count k : Nat} (hk : m.toNat = count + k)
    {s₁ s₂ : ParseState}
    (hst : (roomy lines input table capacity).states s₁ s₂)
    (hM : (count + s₂.input.length : Nat) ≤ M) :
    Cut lines input table capacity m (Grammar.statementStarts ⟨lines, M⟩ fuel s₂) k
      (Grammar.statementsWithin ⟨lines, m⟩ fuel count s₁)
      (Grammar.statementsWithin ⟨lines, M⟩ fuel count s₂) := by
  have hP : (roomy lines input table capacity).Lawful ⟨lines, m⟩ ⟨lines, M⟩ :=
    lawful_roomy hend hcap
  induction fuel generalizing count k s₁ s₂ with
  | zero => exact .ok (Nat.zero_le k) hst
  | succ fuel ih =>
    cases hh : s₂.input.head.isEnd with
    | true =>
      rw [statementsWithin_of_isEnd _ _ hh,
        statementsWithin_of_isEnd _ _ ((hP.isEnd_eq hst).symm.trans hh),
        statementStarts_of_isEnd hh]
      exact .ok (Nat.zero_le k) hst
    | false =>
      have hs₂ := terminated_of_roomy hend hst
      by_cases hm : s₂.input.head.kind = .mark .semicolon
      · have hm₁ := (hP.kind hst).trans hm
        have hle : s₂.next.input.length ≤ s₂.input.length := (s₂.next_suffix hs₂ hh).length_le
        rw [statementsWithin_of_semicolon _ _ hm, statementsWithin_of_semicolon _ _ hm₁,
          statementStarts_of_semicolon hm]
        exact ih hk (hP.next_of_mark hst hm₁) (by omega)
      · have hm₁ : s₁.input.head.kind ≠ .mark .semicolon := fun h => hm (hP.kind_eq hst h)
        have hpos : 0 < s₂.input.length := List.length_pos_iff.mpr s₂.input.toList_ne_nil
        rw [statementsWithin_of_statement _ _ ((hP.isEnd_eq hst).symm.trans hh) hm₁,
          statementsWithin_of_statement _ _ hh hm, if_neg (show ¬M ≤ count by omega)]
        by_cases hlimit : m ≤ count
        · -- No more statements are admitted, and this is the next start.
          obtain rfl : k = 0 := by omega
          rw [if_pos hlimit]
          exact .tooManyStatements (statementStarts_zero hh hm) hst
        · obtain ⟨k, rfl⟩ : ∃ j, k = j + 1 := ⟨k - 1, by omega⟩
          rw [if_neg hlimit]
          refine cut_statement hend hcap hst hh hm fun t₁ t₂ ht hlt => ?_
          exact ih (by omega) ht (by omega)

end Cut

/-! ### Whole parses -/

theorem Cursor.parse_program_snd (o : ParseSettings) (table : SlotTable) (input : TokenStream) :
    ((⟨input.toList, 0⟩ : Cursor).parse (Grammar.program o) table).2 = ⟨input.toList,
      (input.length - (finalState
        (Grammar.statementsWithin o input.length 0 ⟨input, table⟩)).input.length : Nat)⟩ := by
  cases hx : Grammar.statementsWithin o input.length 0 ⟨input, table⟩ with
  | ok ns s' => rw [Cursor.parse_of_ok (program_of_ok hx), Int.zero_add]; rfl
  | error d s' => rw [Cursor.parse_of_error (program_of_error hx), Int.zero_add]; rfl

section Places

variable {lines : List String} {input : TokenStream} {wordSize c capacity k : Nat} {m : Int}
  {starts : List ParseState} {s₁ s₂ : ParseState}

/-- A parse that stays within its limits has not read too many names. -/
theorem namePlace?_of_states (h : (roomy lines input ⟨wordSize, c, [], 0⟩ capacity).states s₁ s₂) :
    namePlace? (input.toList.take (input.length - s₂.input.length)) c = none := by
  obtain ⟨rfl, p, hp, hfits⟩ := h
  rw [hp.take_eq.2, hp.take_eq.1]
  exact namePlace?_eq_none hfits.length_nameOrder_le

/-- A parse that stops in front of a statement has not read too many names before it. -/
theorem le_of_namePlace?_of_states {n q : Nat}
    (h : (roomy lines input ⟨wordSize, c, [], 0⟩ capacity).states s₁ s₂)
    (hq : namePlace? (input.toList.take n) c = some q) : input.length - s₂.input.length ≤ q := by
  obtain ⟨rfl, p, hp, hfits⟩ := h
  rw [hp.take_eq.2]
  exact length_le_of_namePlace? ⟨_, hp.input.symm⟩ (List.take_prefix _ _)
    hfits.length_nameOrder_le hq

theorem getElem?_of_states {table : SlotTable}
    (h : (roomy lines input table capacity).states s₁ s₂) :
    input.toList[input.length - s₂.input.length]? = some s₁.input.head := by
  obtain ⟨rfl, p, hp, -⟩ := h
  have hinput : input.toList = p ++ s₁.input.head :: s₁.input.tail := hp.input
  rw [hp.take_eq.2, hinput]
  exact List.getElem?_append_right (Nat.le_refl _) |>.trans (by simp)

variable {p rest : List Token} {tok : Token} {s : ParseState}
  (h : SlotTable.Overflows ⟨wordSize, c, [], 0⟩ input.toList p tok rest)
  (hs : s.input.toList <:+ rest)
include h hs

/-- A state behind the name that is one too many. -/
theorem SlotTable.Overflows.length_lt : p.length < input.length - s.input.length := by
  have hle : s.input.length ≤ rest.length := hs.length_le
  have hlen : input.length = p.length + (rest.length + 1) := by
    have := congrArg List.length h.tokens_eq
    rwa [List.length_append, List.length_cons] at this
  omega

theorem SlotTable.Overflows.namePlace? :
    namePlace? (input.toList.take (input.length - s.input.length)) c = some p.length := by
  have hprefix : p ++ [tok] <+: input.toList := ⟨rest, by rw [h.tokens_eq]; simp⟩
  refine namePlace?_eq_some ?_ h.fits.length_nameOrder_le h.lt_length_nameOrder
  refine List.prefix_of_prefix_length_le hprefix (List.take_prefix _ _) ?_
  have hlt := h.length_lt hs
  rw [List.length_take, List.length_append, List.length_singleton]
  have hlen : input.toList.length = input.length := rfl
  omega

end Places

/-- Limits only cut a parse short. Take a parse with room for every token, the token where it starts
the first statement beyond the limit on statements, and the token where it reads the first name
beyond the limit on names. With neither, the parse within the limits ends as the one with room.
Otherwise it fails at the first of the two tokens, for its statements if they are the same. -/
theorem parse_within_limits (lines : List String) {wordSize c C m M : Int}
    {table wide : SlotTable} (htable : SlotTable.create wordSize c = .ok table)
    (hwide : SlotTable.create wordSize C = .ok wide) {input : TokenStream}
    (hend : Terminated input.toList = true) (hM : input.length < M) (hC : input.length < C) :
    let limited := (⟨input.toList, 0⟩ : Cursor).parse (Grammar.program ⟨lines, m⟩) table
    let unlimited := (⟨input.toList, 0⟩ : Cursor).parse (Grammar.program ⟨lines, M⟩) wide
    let statement := statementPlace? ⟨lines, M⟩ wide input m.toNat
    let name := namePlace? (input.toList.take unlimited.2.pos.toNat) c.toNat
    (statement = none → name = none → limited.1.outcome = unlimited.1.outcome ∧
      limited.1.slots.slots = unlimited.1.slots.slots ∧ limited.2 = unlimited.2) ∧
    (∀ p, statement = some p → (∀ q, name = some q → p ≤ q) →
      ∃ tok, input.toList[p]? = some tok ∧ limited.1.outcome = .error (.diagnostic
        ⟨.tooMany (some "statements") (some m), some tok.location,
          Text.lineAt? lines tok.location.line⟩)) ∧
    (∀ q, name = some q → (∀ p, statement = some p → q < p) →
      ∃ tok, input.toList[q]? = some tok ∧ limited.1.outcome = .error (.diagnostic
        ⟨.tooMany (some "variables") (some c), some tok.location,
          Text.lineAt? lines tok.location.line⟩)) := by
  obtain ⟨-, hc, rfl⟩ := SlotTable.create_eq_ok htable
  obtain ⟨-, -, rfl⟩ := SlotTable.create_eq_ok hwide
  have hstates : (roomy lines input ⟨wordSize.toNat, c.toNat, [], 0⟩ C.toNat).states
      ⟨input, ⟨wordSize.toNat, c.toNat, [], 0⟩⟩ ⟨input, ⟨wordSize.toNat, C.toNat, [], 0⟩⟩ :=
    ⟨rfl, [], .refl _, trivial⟩
  have hcut := cut_statementsWithin (M := M) hend (by simp [SlotTable.size]; omega) input.length
    (Nat.zero_add m.toNat).symm hstates (by simp; omega)
  dsimp only
  rw [Cursor.parse_program_snd ⟨lines, M⟩, Int.toNat_natCast, statementPlace?]
  generalize hx₁ : Grammar.statementsWithin ⟨lines, m⟩ _ _ _ = x₁ at hcut
  generalize hx₂ : Grammar.statementsWithin ⟨lines, M⟩ _ _ _ = x₂ at hcut ⊢
  -- Whichever way the first parse is cut, its kind says what the two places are.
  cases hcut with
  | @ok ns s₁ s₂ hk hs =>
    simp only [List.getElem?_eq_none hk, finalState, namePlace?_of_states hs]
    refine ⟨fun _ _ => ?_, by simp, by simp⟩
    obtain ⟨rfl, -⟩ := hs
    rw [Cursor.parse_of_ok (program_of_ok hx₁), Cursor.parse_of_ok (program_of_ok hx₂),
      Int.zero_add]
    exact ⟨rfl, rfl, rfl⟩
  | @error d s₁ s₂ hk hs =>
    simp only [List.getElem?_eq_none hk, finalState, namePlace?_of_states hs]
    refine ⟨fun _ _ => ?_, by simp, by simp⟩
    obtain ⟨rfl, -⟩ := hs
    rw [Cursor.parse_of_error (program_of_error hx₁), Cursor.parse_of_error (program_of_error hx₂),
      Int.zero_add]
    exact ⟨rfl, rfl, rfl⟩
  | @tooManyStatements s₁ s₂ _ hk hs =>
    rw [hk, Cursor.parse_of_error (program_of_error hx₁)]
    refine ⟨by simp, ?_, fun q hq hlt => ?_⟩
    · rintro _ ⟨rfl⟩ -
      exact ⟨s₁.input.head, getElem?_of_states hs, rfl⟩
    · exact absurd (le_of_namePlace?_of_states hs hq) (Nat.not_le.mpr (hlt _ rfl))
  | @tooManyNames s₁ _ p tok rest h hx hk =>
    rw [h.namePlace? hx, Cursor.parse_of_error (program_of_error hx₁)]
    refine ⟨by simp, fun i hi hle => ?_, ?_⟩
    · obtain ⟨s, hs, rfl⟩ := Option.map_eq_some_iff.mp hi
      exact absurd (h.length_lt (hk s hs)) (Nat.not_lt.mpr (hle _ rfl))
    · rintro _ ⟨rfl⟩ -
      refine ⟨tok, by rw [h.tokens_eq]; simp, ?_⟩
      rw [tooManyNames, Int.toNat_of_nonneg hc]

/-- An empty statement that does not count, a known name in front of a full table, and one token
that starts one statement too many and is one name too many, all before an operand that is missing.
-/
theorem parse_within_limits_tie :
    let input : TokenStream := ⟨⟨.identifier "a", "", ⟨none, 1, 1, 0⟩⟩,
      (tokenRow [.identifier "a", .mark .semicolon none, .mark .semicolon none, .identifier "a",
        .mark .semicolon none, .identifier "b", .mark .assign none, .mark .semicolon none,
        .endOfInput]).tail⟩
    let unlimited := (⟨input.toList, 0⟩ : Cursor).parse (Grammar.program ⟨[], 10⟩) ⟨8, 10, [], 0⟩
    Terminated input.toList = true ∧
      statementPlace? ⟨[], 10⟩ ⟨8, 10, [], 0⟩ input 2 = some 5 ∧
      namePlace? (input.toList.take unlimited.2.pos.toNat) 1 = some 5 ∧
      ((⟨input.toList, 0⟩ : Cursor).parse (Grammar.program ⟨[], 2⟩) ⟨8, 1, [], 0⟩).1.outcome =
        .error (.diagnostic
          ⟨.tooMany (some "statements") (some 2), some ⟨none, 1, 6, 5⟩, none⟩) := by
  intro input unlimited
  have hend : Terminated input.toList = true := by decide
  have hstatement : statementPlace? ⟨[], 10⟩ ⟨8, 10, [], 0⟩ input 2 = some 5 := by decide +kernel
  have hname : namePlace? (input.toList.take unlimited.2.pos.toNat) 1 = some 5 := by decide +kernel
  have htable : SlotTable.create 8 1 = .ok ⟨8, 1, [], 0⟩ := rfl
  have hwide : SlotTable.create 8 10 = .ok ⟨8, 10, [], 0⟩ := rfl
  have hlimits := parse_within_limits [] (m := 2) (M := 10) htable hwide hend (by decide)
    (by decide)
  obtain ⟨tok, htok, hfails⟩ := hlimits.2.1 5 hstatement fun q hq =>
    Nat.le_of_eq (Option.some.inj (hname.symm.trans hq))
  obtain rfl : _ = tok := Option.some.inj htok
  exact ⟨hend, hstatement, hname, hfails⟩

end WordLang
