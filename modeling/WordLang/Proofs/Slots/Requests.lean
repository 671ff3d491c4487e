import Mathlib.Order.Bounds.Defs
import WordLang.Proofs.Slots

/-! What a table of slots goes through when names are asked for, in any order and any number of
times. Requests that are refused in between leave no trace. -/
namespace WordLang

/-- A request for the slot of a name. A refusal is told at a place and shows a line. -/
structure SlotRequest where
  name : String
  location : Option Location
  sourceLine : Option String

namespace SlotTable

/-- The table that a request leaves, answered or refused. -/
def after (t : SlotTable) (r : SlotRequest) : SlotTable :=
  match resolve r.name r.location r.sourceLine t with
  | .ok _ t' => t'
  | .error _ t' => t'

/-- The table behind one request after the other. -/
def serve (t : SlotTable) (requests : List SlotRequest) : SlotTable := requests.foldl after t

variable {t : SlotTable} {x : String}

/-! ### Single requests -/

/-- A request changes nothing, or adds a slot for a new name that has room. -/
theorem after_cases (t : SlotTable) (r : SlotRequest) :
    t.after r = t ∨
      r.name ∉ t.names ∧ t.size < t.capacity ∧ t.after r = t.allocate r.name := by
  by_cases hx : r.name ∈ t.names
  · obtain ⟨slot, -, -, hr⟩ := resolve_of_known hx
    exact .inl (by rw [after, hr])
  by_cases hroom : t.size < t.capacity
  · exact .inr ⟨hx, hroom, by rw [after, resolve_of_room hx hroom]⟩
  · exact .inl (by rw [after, resolve_of_full hx (Nat.not_lt.mp hroom)])

/-- What was asked for is known from then on. -/
theorem lookup?_of_resolve {l : Option Location} {line : Option String} {offset : Nat}
    {t' : SlotTable} (h : resolve x l line t = .ok offset t') :
    ∃ slot, t'.lookup? x = some slot ∧ slot.offset = offset := by
  cases hx : t.lookup? x with
  | some slot =>
    rw [resolve_of_some hx] at h
    cases h
    exact ⟨slot, hx, rfl⟩
  | none =>
    rw [resolve_of_none hx] at h
    split at h
    · cases h
    · cases h
      exact ⟨_, lookup?_allocate hx, rfl⟩

/-! ### Sequences of requests -/

theorem shape_after (t : SlotTable) (r : SlotRequest) :
    (t.after r).wordSize = t.wordSize ∧ (t.after r).capacity = t.capacity := by
  obtain h | ⟨-, -, h⟩ := t.after_cases r <;> rw [h] <;> exact ⟨rfl, rfl⟩

theorem slots_after (t : SlotTable) (r : SlotRequest) : t.slots <+: (t.after r).slots := by
  obtain h | ⟨-, -, h⟩ := t.after_cases r
  · simp only [h, List.prefix_rfl]
  · rw [h]
    exact List.prefix_append _ _

theorem Regular.after (h : t.Regular) (r : SlotRequest) : (t.after r).Regular := by
  obtain hr | ⟨hx, hroom, hr⟩ := t.after_cases r
  · rwa [hr]
  · rw [hr]
    exact h.allocate hx hroom

theorem shape_serve (t : SlotTable) (requests : List SlotRequest) :
    (t.serve requests).wordSize = t.wordSize ∧ (t.serve requests).capacity = t.capacity := by
  induction requests generalizing t with
  | nil => exact ⟨rfl, rfl⟩
  | cons r requests ih =>
    obtain ⟨hw, hc⟩ := t.shape_after r
    obtain ⟨hw', hc'⟩ := ih (t.after r)
    exact ⟨hw'.trans hw, hc'.trans hc⟩

/-- Slots that were handed out stay where they are. -/
theorem slots_serve (t : SlotTable) (requests : List SlotRequest) :
    t.slots <+: (t.serve requests).slots := by
  induction requests generalizing t with
  | nil => exact List.prefix_rfl
  | cons r requests ih => exact (t.slots_after r).trans (ih (t.after r))

theorem Regular.serve (h : t.Regular) (requests : List SlotRequest) :
    (t.serve requests).Regular := by
  induction requests generalizing t with
  | nil => exact h
  | cons r requests ih => exact ih (h.after r)

/-- A name that has got an offset is answered with it ever after. -/
theorem resolve_serve {l : Option Location} {line : Option String} {offset : Nat} {t' : SlotTable}
    (h : resolve x l line t = .ok offset t') (more : List SlotRequest) (l' : Option Location)
    (line' : Option String) :
    resolve x l' line' (t'.serve more) = .ok offset (t'.serve more) := by
  obtain ⟨slot, hslot, rfl⟩ := lookup?_of_resolve h
  have hkept : (t'.serve more).lookup? x = some slot :=
    (t'.slots_serve more).find?_eq_some hslot
  exact resolve_of_some hkept l' line'

/-! ### The frame -/

/-- The frame is the smallest multiple of the alignment with room for every slot. -/
theorem isLeast_frameSize (t : SlotTable) :
    IsLeast {n : Nat | 16 ∣ n ∧ t.capacity * t.wordSize ≤ n} t.frameSize := by
  rw [frameSize, alignment]
  refine ⟨⟨Nat.dvd_mul_left _ _, by omega⟩, ?_⟩
  rintro n ⟨⟨k, rfl⟩, hn⟩
  omega

/-- Slots of one size lie under each other in the order of their names, each name has one, the
largest offset is that of the last slot, and all of them lie in the frame, which is no larger than it
has to be. -/
structure Orderly (t : SlotTable) (wordSize capacity : Nat) : Prop where
  nodup : t.names.Nodup
  offset : ∀ (i : Nat) (slot : Slot), t.slots[i]? = some slot → slot.offset = (i + 1) * wordSize
  size_le : t.size ≤ capacity
  maxOffset : t.maxOffset = t.size * wordSize
  offset_le : ∀ slot ∈ t.slots, slot.offset ≤ t.frameSize
  frameSize : IsLeast {n : Nat | 16 ∣ n ∧ capacity * wordSize ≤ n} t.frameSize

theorem Regular.orderly (h : t.Regular) : t.Orderly t.wordSize t.capacity where
  nodup := h.nodup
  offset i slot hslot := by
    rw [h.slots, List.getElem?_mapIdx] at hslot
    obtain ⟨x, -, rfl⟩ := Option.map_eq_some_iff.mp hslot
    rfl
  size_le := h.size_le
  maxOffset := h.maxOffset
  offset_le _ hs := h.offset_le_frameSize hs
  frameSize := t.isLeast_frameSize

end SlotTable

/-- Whatever is asked for one after the other, the slots of a table are orderly. A known name gets
the slot that it has and changes nothing, also when the table is full; a new name gets one more slot
if there is room, and otherwise is refused; no slot that was handed out ever changes. -/
theorem slots_after_requests {wordSize capacity : Nat} (hw : 0 < wordSize) :
    ∃ empty, SlotTable.create wordSize capacity = .ok empty ∧ empty.slots = [] ∧
      ∀ requests : List SlotRequest, let t := empty.serve requests
        t.Orderly wordSize capacity ∧
        (∀ r : SlotRequest, r.name ∈ t.names → t.after r = t ∧ ∃ slot ∈ t.slots,
          slot.name = r.name ∧
            SlotTable.resolve r.name r.location r.sourceLine t = .ok slot.offset t) ∧
        (∀ r : SlotRequest, r.name ∉ t.names → t.size < capacity →
          let offset := (t.size + 1) * wordSize
          let t' : SlotTable :=
            { t with slots := t.slots ++ [⟨r.name, offset⟩], maxOffset := offset }
          t.after r = t' ∧
            SlotTable.resolve r.name r.location r.sourceLine t = .ok offset t') ∧
        (∀ r : SlotRequest, r.name ∉ t.names → capacity ≤ t.size → t.after r = t ∧
          SlotTable.resolve r.name r.location r.sourceLine t = .error
            ⟨.tooMany (some "variables") (some capacity), r.location, r.sourceLine⟩ t) ∧
        ∀ more : List SlotRequest, t.slots <+: (t.serve more).slots ∧
          ∀ x l line offset t', SlotTable.resolve x l line t = .ok offset t' → ∀ l' line',
            SlotTable.resolve x l' line' (t'.serve more) = .ok offset (t'.serve more) := by
  have hcreate : SlotTable.create wordSize capacity = .ok ⟨wordSize, capacity, [], 0⟩ := by
    rw [SlotTable.create, if_neg (by omega), if_neg (by omega)]
    rfl
  refine ⟨⟨wordSize, capacity, [], 0⟩, hcreate, rfl, fun requests => ?_⟩
  intro t
  have hregular : t.Regular := (SlotTable.regular_empty wordSize capacity).serve requests
  obtain ⟨hsize, hcapacity⟩ : t.wordSize = wordSize ∧ t.capacity = capacity :=
    SlotTable.shape_serve _ requests
  clear_value t
  subst hsize
  subst hcapacity
  refine ⟨hregular.orderly, fun r hr => ?_, fun r hr hroom => ?_, fun r hr hfull => ?_,
    fun more => ⟨t.slots_serve more, fun x l line offset t' h => SlotTable.resolve_serve h more⟩⟩
  · obtain ⟨slot, hslot, hname, hok⟩ := SlotTable.resolve_of_known hr
    exact ⟨by rw [SlotTable.after, hok], slot, hslot, hname, hok _ _⟩
  · have hok := SlotTable.resolve_of_room hr hroom r.location r.sourceLine
    rw [SlotTable.allocate, hregular.nextOffset_eq] at hok
    exact ⟨by rw [SlotTable.after, hok], hok⟩
  · have herror := SlotTable.resolve_of_full hr hfull r.location r.sourceLine
    exact ⟨by rw [SlotTable.after, herror], herror⟩

/-- Two slots of twelve bytes. A third name is refused, and those that have slots keep them. -/
theorem slots_after_requests_full :
    let ask (x : String) : SlotRequest := ⟨x, none, none⟩
    let empty : SlotTable := ⟨12, 2, [], 0⟩
    let t := empty.serve [ask "b", ask "a", ask "b", ask "c"]
    0 < 12 ∧ SlotTable.create 12 2 = .ok empty ∧ t.slots = [⟨"b", 12⟩, ⟨"a", 24⟩] ∧
      IsLeast {n : Nat | 16 ∣ n ∧ 24 ≤ n} t.frameSize ∧
      SlotTable.resolve "c" none none t =
        .error ⟨.tooMany (some "variables") (some 2), none, none⟩ t ∧
      SlotTable.resolve "b" none none (t.serve [ask "c", ask "a"]) =
        .ok 12 (t.serve [ask "c", ask "a"]) := by
  intro ask empty t
  obtain ⟨empty', hcreate, -, hserve⟩ := @slots_after_requests 12 2 (by decide)
  obtain rfl : empty = empty' := Except.ok.inj hcreate
  obtain ⟨horderly, -, -, hfull, hstay⟩ := hserve [ask "b", ask "a", ask "b", ask "c"]
  have hnew : "c" ∉ t.names := by decide
  have hanswer : SlotTable.resolve "b" none none t = .ok 12 t := rfl
  refine ⟨by decide, hcreate, by decide, horderly.frameSize, ?_, ?_⟩
  · exact (hfull (ask "c") hnew (by decide)).2
  · exact (hstay [ask "c", ask "a"]).2 "b" none none 12 t hanswer none none

end WordLang
