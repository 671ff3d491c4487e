import Mathlib.Data.List.Nodup
import WordLang.Proofs.Computation
import WordLang.Slots
import WordLang.Token

/-! How a table of slots grows with the names in a list of tokens. The names stand in the table in
the order in which they first occur, and the place of a name fixes its offset. -/
namespace WordLang

/-- The name that a token carries. -/
def Token.name? (tok : Token) : Option String :=
  match tok.lexeme with
  | .identifier x => some x
  | _ => none

/-- Names with the name of one more token. -/
def addName (names : List String) (tok : Token) : List String :=
  match tok.name? with
  | none => names
  | some x => if x ∈ names then names else names ++ [x]

/-- The names in a list of tokens, each where it first occurs. -/
def nameOrder (tokens : List Token) : List String := tokens.foldl addName []

theorem mem_foldl_addName {tokens : List Token} {names : List String} {x : String} :
    x ∈ tokens.foldl addName names ↔ x ∈ names ∨ ∃ tok ∈ tokens, tok.name? = some x := by
  induction tokens generalizing names with
  | nil => simp
  | cons tok tokens ih =>
    have hadd : x ∈ addName names tok ↔ x ∈ names ∨ tok.name? = some x := by
      rw [addName]
      cases hn : tok.name? with
      | none => simp
      | some y => grind
    rw [List.foldl_cons, ih, hadd, or_assoc]
    simp

/-- The offset of a name among names in order. -/
def offsetIn (wordSize : Nat) (names : List String) (x : String) : Nat :=
  (names.idxOf x + 1) * wordSize

namespace SlotTable

/-! ### Single names -/

/-- The offset that the next new name gets. -/
def nextOffset (t : SlotTable) : Nat := t.maxOffset + t.wordSize

/-- The table with one more slot, for a name that has none yet. -/
def allocate (t : SlotTable) (name : String) : SlotTable :=
  { t with slots := t.slots ++ [⟨name, t.nextOffset⟩], maxOffset := t.nextOffset }

/-- A new name adds one slot. -/
theorem size_allocate (t : SlotTable) (name : String) : (t.allocate name).size = t.size + 1 :=
  List.length_append

/-- A new name is found in its slot. -/
theorem lookup?_allocate {t : SlotTable} {name : String} (h : t.lookup? name = none) :
    (t.allocate name).lookup? name = some ⟨name, t.nextOffset⟩ := by
  unfold lookup? at h
  rw [lookup?, allocate, List.find?_append, h, Option.none_or, List.find?_cons_of_pos (by simp)]

/-- A name that has a slot changes nothing. -/
theorem resolve_of_some {t : SlotTable} {name : String} {slot : Slot}
    (h : t.lookup? name = some slot) (location : Option Location) (sourceLine : Option String) :
    resolve name location sourceLine t = .ok slot.offset t := by
  rw [resolve, bind_of_ok (show (get : EStateM Diagnostic SlotTable _) t = .ok t t from rfl), h]
  rfl

/-- A name that has none gets the next one, unless there is no room. -/
theorem resolve_of_none {t : SlotTable} {name : String} (h : t.lookup? name = none)
    (location : Option Location) (sourceLine : Option String) :
    resolve name location sourceLine t =
      if t.capacity ≤ t.size then
        .error ⟨.tooMany (some "variables") (some t.capacity), location, sourceLine⟩ t
      else .ok t.nextOffset (t.allocate name) := by
  rw [resolve, bind_of_ok (show (get : EStateM Diagnostic SlotTable _) t = .ok t t from rfl), h]
  by_cases hfull : t.capacity ≤ t.size
  · simp only [if_pos hfull]
    rfl
  · simp only [if_neg hfull]
    rfl

/-! ### Names in tokens -/

/-- The names that have slots, in order. -/
def names (t : SlotTable) : List String := t.slots.map Slot.name

/-- The table behind a token: a new name gets a slot if there is one left. -/
def enroll (t : SlotTable) (tok : Token) : SlotTable :=
  match tok.name? with
  | none => t
  | some x => if x ∈ t.names ∨ t.capacity ≤ t.size then t else t.allocate x

/-- The table behind a list of tokens. -/
def enter (t : SlotTable) (tokens : List Token) : SlotTable := tokens.foldl enroll t

/-- A token whose name has a slot or can get one. -/
def Accepts (t : SlotTable) (tok : Token) : Prop :=
  ∀ x ∈ tok.name?, x ∈ t.names ∨ t.size < t.capacity

/-- Every name in a list of tokens has a slot or gets one in its turn. -/
def Fits : SlotTable → List Token → Prop
  | _, [] => True
  | t, tok :: tokens => t.Accepts tok ∧ (t.enroll tok).Fits tokens

/-- An assignment of offsets to names that a table does not contradict. -/
def Agrees (t : SlotTable) (σ : String → Nat) : Prop := ∀ slot ∈ t.slots, σ slot.name = slot.offset

/-- Offsets of names that are those which a table gives out. A name may stand in a table twice, and
then only its first slot counts. -/
def Resolves (t : SlotTable) (σ : String → Nat) : Prop :=
  ∀ x slot, t.lookup? x = some slot → σ x = slot.offset

variable {t : SlotTable} {tok : Token} {x : String}

theorem mem_names_of_lookup? {slot : Slot} (h : t.lookup? x = some slot) :
    slot ∈ t.slots ∧ slot.name = x :=
  ⟨List.mem_of_find?_eq_some h, by simpa using List.find?_some h⟩

/-- The offset of a name, if it has a slot. -/
def lookupOffset (t : SlotTable) (x : String) : Nat := ((t.lookup? x).map Slot.offset).getD 0

theorem exists_resolves (t : SlotTable) : ∃ σ, t.Resolves σ :=
  ⟨t.lookupOffset, fun x slot h => by rw [lookupOffset, h, Option.map_some, Option.getD_some]⟩

theorem Agrees.resolves {σ : String → Nat} (h : t.Agrees σ) : t.Resolves σ := by
  intro x slot hx
  obtain ⟨hmem, rfl⟩ := mem_names_of_lookup? hx
  exact h slot hmem

theorem exists_lookup?_of_mem_names (h : x ∈ t.names) : ∃ slot, t.lookup? x = some slot := by
  obtain ⟨slot, hs, rfl⟩ := List.mem_map.mp h
  cases hl : t.lookup? slot.name with
  | some slot' => exact ⟨slot', rfl⟩
  | none =>
    have := List.find?_eq_none.mp hl slot hs
    simp at this

theorem lookup?_eq_none (h : x ∉ t.names) : t.lookup? x = none := by
  refine List.find?_eq_none.mpr fun slot hs hname => h ?_
  exact List.mem_map.mpr ⟨slot, hs, by simpa using hname⟩

theorem names_allocate : (t.allocate x).names = t.names ++ [x] := by
  simp [names, allocate]

theorem nodup_names_allocate (h : t.names.Nodup) (hx : x ∉ t.names) :
    (t.allocate x).names.Nodup := by
  rw [names_allocate]
  refine List.nodup_append.mpr ⟨h, List.nodup_singleton x, ?_⟩
  rintro y hy z hz rfl
  rw [List.mem_singleton] at hz
  exact hx (hz ▸ hy)

/-! ### Entering tokens -/

theorem enter_append (p q : List Token) : t.enter (p ++ q) = (t.enter p).enter q :=
  List.foldl_append

theorem fits_append {p q : List Token} : t.Fits (p ++ q) ↔ t.Fits p ∧ (t.enter p).Fits q := by
  induction p generalizing t with
  | nil => simp [Fits, enter]
  | cons tok p ih =>
    rw [List.cons_append, Fits, Fits, ih, and_assoc]
    rfl

theorem enroll_of_name?_none (h : tok.name? = none) : t.enroll tok = t := by
  rw [enroll, h]

theorem accepts_of_name?_none (h : tok.name? = none) : t.Accepts tok := by
  intro x hx
  rw [h] at hx
  cases hx

/-- What is not accepted is a new name in front of a full table. -/
theorem exists_of_not_accepts (h : ¬t.Accepts tok) :
    ∃ x, tok.name? = some x ∧ x ∉ t.names ∧ t.capacity ≤ t.size := by
  cases hx : tok.name? with
  | none => exact absurd (accepts_of_name?_none hx) h
  | some x =>
    simp only [Accepts, hx, Option.mem_some_iff, forall_eq', not_or, Nat.not_lt] at h
    exact ⟨x, rfl, h⟩

/-- Tokens whose names have slots leave the table alone. -/
theorem enter_of_known {p : List Token} (h : ∀ tok ∈ p, ∀ x ∈ tok.name?, x ∈ t.names) :
    t.enter p = t ∧ t.Fits p := by
  induction p with
  | nil => exact ⟨rfl, trivial⟩
  | cons tok p ih =>
    have htok : t.enroll tok = t := by
      rw [enroll]
      cases hx : tok.name? with
      | none => rfl
      | some x => exact if_pos (.inl (h tok (by simp) x hx))
    obtain ⟨henter, hfits⟩ := ih fun u hu => h u (by simp [hu])
    refine ⟨?_, fun x hx => .inl (h tok (by simp) x hx), by rwa [htok]⟩
    show (t.enroll tok).enter p = t
    rw [htok, henter]

theorem known_of_name?_none {names : List String} (h : tok.name? = none) :
    ∀ x ∈ tok.name?, x ∈ names := by
  simp [h]

/-- Tokens without names leave the table alone. -/
theorem enter_of_forall {p : List Token} (h : ∀ tok ∈ p, tok.name? = none) : t.enter p = t :=
  (enter_of_known fun tok htok => known_of_name?_none (h tok htok)).1

theorem fits_of_forall {p : List Token} (h : ∀ tok ∈ p, tok.name? = none) : t.Fits p :=
  (enter_of_known fun tok htok => known_of_name?_none (h tok htok)).2

theorem wordSize_enroll : (t.enroll tok).wordSize = t.wordSize := by
  rw [enroll]
  split
  · rfl
  · split <;> rfl

theorem capacity_enroll : (t.enroll tok).capacity = t.capacity := by
  rw [enroll]
  split
  · rfl
  · split <;> rfl

theorem wordSize_enter (p : List Token) : (t.enter p).wordSize = t.wordSize := by
  induction p generalizing t with
  | nil => rfl
  | cons tok p ih => exact ih.trans wordSize_enroll

theorem capacity_enter (p : List Token) : (t.enter p).capacity = t.capacity := by
  induction p generalizing t with
  | nil => rfl
  | cons tok p ih => exact ih.trans capacity_enroll

theorem slots_enroll (t : SlotTable) (tok : Token) :
    ∃ more, (t.enroll tok).slots = t.slots ++ more := by
  rw [enroll]
  split
  · exact ⟨[], (List.append_nil _).symm⟩
  · split
    · exact ⟨[], (List.append_nil _).symm⟩
    · exact ⟨_, rfl⟩

/-- Slots stay. -/
theorem slots_enter (p : List Token) : ∃ more, (t.enter p).slots = t.slots ++ more := by
  induction p generalizing t with
  | nil => exact ⟨[], (List.append_nil _).symm⟩
  | cons tok p ih =>
    obtain ⟨more, hm⟩ := slots_enroll t tok
    obtain ⟨rest, hr⟩ := @ih (t.enroll tok)
    exact ⟨more ++ rest, by rw [← List.append_assoc, ← hm]; exact hr⟩

theorem Agrees.of_enter {σ : String → Nat} {p : List Token} (h : (t.enter p).Agrees σ) :
    t.Agrees σ := by
  obtain ⟨more, hm⟩ := t.slots_enter p
  intro slot hs
  exact h slot (by rw [hm]; exact List.mem_append_left _ hs)

theorem Resolves.of_enter {σ : String → Nat} {p : List Token} (h : (t.enter p).Resolves σ) :
    t.Resolves σ := by
  obtain ⟨more, hm⟩ := t.slots_enter p
  intro x slot hx
  refine h x slot ?_
  unfold lookup? at hx
  rw [lookup?, hm, List.find?_append, hx, Option.some_or]

theorem size_enroll_le (t : SlotTable) (tok : Token) : (t.enroll tok).size ≤ t.size + 1 := by
  rw [enroll]
  split
  · omega
  · split
    · omega
    · exact Nat.le_of_eq (size_allocate t _)

/-- With as many free slots as tokens, every name gets one. -/
theorem fits_of_length_le {p : List Token} (h : t.size + p.length ≤ t.capacity) : t.Fits p := by
  induction p generalizing t with
  | nil => trivial
  | cons tok p ih =>
    rw [List.length_cons] at h
    have := size_enroll_le t tok
    exact ⟨fun x _ => .inr (by omega), ih (by rw [capacity_enroll]; omega)⟩

/-! ### Requests -/

/-- A known name changes nothing, whether there is room or not. -/
theorem resolve_of_known (h : x ∈ t.names) : ∃ slot ∈ t.slots, slot.name = x ∧
    ∀ l line, resolve x l line t = .ok slot.offset t := by
  obtain ⟨slot, hslot⟩ := exists_lookup?_of_mem_names h
  obtain ⟨hmem, hname⟩ := mem_names_of_lookup? hslot
  exact ⟨slot, hmem, hname, resolve_of_some hslot⟩

theorem resolve_of_room (hx : x ∉ t.names) (hroom : t.size < t.capacity) (l : Option Location)
    (line : Option String) : resolve x l line t = .ok t.nextOffset (t.allocate x) := by
  rw [resolve_of_none (lookup?_eq_none hx), if_neg (Nat.not_le.mpr hroom)]

theorem resolve_of_full (hx : x ∉ t.names) (hfull : t.capacity ≤ t.size) (l : Option Location)
    (line : Option String) :
    resolve x l line t = .error ⟨.tooMany (some "variables") (some t.capacity), l, line⟩ t := by
  rw [resolve_of_none (lookup?_eq_none hx), if_pos hfull]

/-- The table behind a token whose name has room is the one that its resolution leaves. -/
theorem resolve_of_accepts (hx : tok.name? = some x) (h : t.Accepts tok)
    (l : Option Location) (line : Option String) :
    ∃ slot, (t.enroll tok).lookup? x = some slot ∧
      resolve x l line t = .ok slot.offset (t.enroll tok) := by
  rw [enroll, hx]
  by_cases hm : x ∈ t.names
  · obtain ⟨slot, hslot⟩ := exists_lookup?_of_mem_names hm
    simp only [hm, true_or, ↓reduceIte]
    exact ⟨slot, hslot, resolve_of_some hslot l line⟩
  · have hroom : t.size < t.capacity := (h x hx).resolve_left hm
    simp only [hm, Nat.not_le.mpr hroom, or_self, ↓reduceIte]
    exact ⟨⟨x, t.nextOffset⟩, lookup?_allocate (lookup?_eq_none hm), resolve_of_room hm hroom l line⟩

theorem resolve_of_not_accepts (hx : tok.name? = some x) (h : ¬t.Accepts tok)
    (l : Option Location) (line : Option String) :
    t.enroll tok = t ∧ ∃ d, resolve x l line t = .error d t ∧
      d.cause = .tooMany (some "variables") (some t.capacity) := by
  obtain ⟨y, hy, hm, hroom⟩ := exists_of_not_accepts h
  obtain rfl : x = y := Option.some.inj (hx.symm.trans hy)
  rw [enroll, hx]
  exact ⟨if_pos (.inr hroom), _, resolve_of_full hm hroom l line, rfl⟩

/-- What a refusal says; it leaves no trace. -/
theorem resolve_error {l : Option Location} {line : Option String} {d : Diagnostic}
    {t' : SlotTable} (hx : resolve x l line t = .error d t') :
    d = ⟨.tooMany (some "variables") (some t.capacity), l, line⟩ ∧ t' = t := by
  by_cases hm : x ∈ t.names
  · obtain ⟨slot, -, -, hres⟩ := resolve_of_known hm
    rw [hres] at hx
    cases hx
  by_cases hroom : t.size < t.capacity
  · rw [resolve_of_room hm hroom] at hx
    cases hx
  · rw [resolve_of_full hm (Nat.not_lt.mp hroom)] at hx
    cases hx
    exact ⟨rfl, rfl⟩

/-- Where a name stands does not matter for its slot. -/
theorem resolve_of_ok {l : Option Location} {line : Option String} {offset : Nat} {t' : SlotTable}
    (h : resolve x l line t = .ok offset t') (l' : Option Location) (line' : Option String) :
    resolve x l' line' t = .ok offset t' := by
  cases hx : t.lookup? x with
  | some slot => rwa [resolve_of_some hx] at h ⊢
  | none =>
    rw [resolve_of_none hx] at h ⊢
    split at h
    · cases h
    · rename_i hroom
      rwa [if_neg hroom]

/-- Nor does it matter for whether there is room. -/
theorem resolve_of_error {l : Option Location} {line : Option String} {d : Diagnostic}
    {t' : SlotTable} (h : resolve x l line t = .error d t') (l' : Option Location)
    (line' : Option String) : resolve x l' line' t =
      .error ⟨.tooMany (some "variables") (some t.capacity), l', line'⟩ t := by
  cases h' : resolve x l' line' t with
  | ok offset t'' =>
    rw [resolve_of_ok h' l line] at h
    cases h
  | error d' t'' =>
    obtain ⟨rfl, rfl⟩ := resolve_error h'
    rfl

/-! ### Names in order -/

theorem names_enroll (h : t.Accepts tok) : (t.enroll tok).names = addName t.names tok := by
  rw [enroll, addName]
  cases hx : tok.name? with
  | none => rfl
  | some x =>
    by_cases hm : x ∈ t.names
    · simp [hm]
    · have hroom : ¬t.capacity ≤ t.size := by
        rcases h x hx with h | h
        · exact absurd h hm
        · omega
      simp only [hm, hroom, or_self, ↓reduceIte]
      exact names_allocate

theorem names_enter {p : List Token} (h : t.Fits p) :
    (t.enter p).names = p.foldl addName t.names := by
  induction p generalizing t with
  | nil => rfl
  | cons tok p ih =>
    obtain ⟨ha, hf⟩ := h
    rw [List.foldl_cons, ← names_enroll ha]
    exact ih hf

/-- Slots stand in the order of their names, one under the other, and within the capacity; the
largest offset is that of the last one. -/
structure Regular (t : SlotTable) : Prop where
  slots : t.slots = t.names.mapIdx fun i x => ⟨x, (i + 1) * t.wordSize⟩
  nodup : t.names.Nodup
  size_le : t.size ≤ t.capacity
  maxOffset : t.maxOffset = t.size * t.wordSize

theorem regular_empty (wordSize capacity : Nat) : Regular ⟨wordSize, capacity, [], 0⟩ :=
  ⟨rfl, List.nodup_nil, Nat.zero_le _, (Nat.zero_mul _).symm⟩

theorem Regular.nextOffset_eq (h : t.Regular) : t.nextOffset = (t.size + 1) * t.wordSize := by
  rw [nextOffset, h.maxOffset, Nat.succ_mul]

/-- A new name that has room gets the next slot. -/
theorem Regular.allocate (h : t.Regular) (hx : x ∉ t.names) (hroom : t.size < t.capacity) :
    (t.allocate x).Regular := by
  constructor
  · rw [names_allocate, List.mapIdx_concat]
    show t.slots ++ [⟨x, t.nextOffset⟩] =
      (t.names.mapIdx fun i y => ⟨y, (i + 1) * t.wordSize⟩) ++ [⟨x, _⟩]
    rw [← h.slots, h.nextOffset_eq, names, List.length_map]
    rfl
  · exact nodup_names_allocate h.nodup hx
  · rw [size_allocate]
    exact hroom
  · rw [size_allocate]
    exact h.nextOffset_eq

theorem Regular.enroll (h : t.Regular) (tok : Token) : (t.enroll tok).Regular := by
  rw [SlotTable.enroll]
  split
  · exact h
  split
  · exact h
  · rename_i hx
    rw [not_or, Nat.not_le] at hx
    exact h.allocate hx.1 hx.2

theorem Regular.enter (h : t.Regular) (p : List Token) : (t.enter p).Regular := by
  induction p generalizing t with
  | nil => exact h
  | cons tok p ih => exact ih (h.enroll tok)

theorem Regular.exists_index (h : t.Regular) {slot : Slot} (hs : slot ∈ t.slots) :
    ∃ i, t.names[i]? = some slot.name ∧ slot.offset = (i + 1) * t.wordSize := by
  rw [h.slots] at hs
  obtain ⟨i, hi, rfl⟩ := List.mem_mapIdx.mp hs
  exact ⟨i, List.getElem?_eq_getElem hi, rfl⟩

/-- Every slot lies in the frame. -/
theorem Regular.offset_le_frameSize (h : t.Regular) {slot : Slot} (hs : slot ∈ t.slots) :
    slot.offset ≤ t.frameSize := by
  obtain ⟨i, hi, ho⟩ := h.exists_index hs
  obtain ⟨hlt, -⟩ := List.getElem?_eq_some_iff.mp hi
  have hcap : i + 1 ≤ t.capacity := by
    rw [names, List.length_map] at hlt
    exact Nat.le_trans hlt h.size_le
  have := Nat.mul_le_mul_right t.wordSize hcap
  rw [ho, frameSize, alignment]
  omega

/-- The order of the names fixes all offsets. -/
theorem Regular.agrees (h : t.Regular) : t.Agrees (offsetIn t.wordSize t.names) := by
  intro slot hs
  obtain ⟨i, hi, ho⟩ := h.exists_index hs
  obtain ⟨hlt, hname⟩ := List.getElem?_eq_some_iff.mp hi
  rw [offsetIn, ho, ← hname, h.nodup.idxOf_getElem i hlt]

end SlotTable

end WordLang
