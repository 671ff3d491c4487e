import WordLang.Proofs.Machine.Invariant
import WordLang.Proofs.Machine.Lines

/-! How runs end. A run is a loop whose turns are not counted in advance. Each turn performs the
next entry of the program, so there are at most as many turns as entries, and a run is told by the
walk it takes and by what stands at the end of it. -/
namespace WordLang

/-! ### Returns -/

/-- An entry ends the program: it is a return that takes the sentinel from the stack. -/
structure Returns (e : Entry) (s t : State) : Prop where
  running : s.halted = false
  spells : e.Spells ⟨.ret, []⟩
  top : s.top = sentinel
  performed : Action.execute e s.ticked = .ok () t
  left : t = { s.ticked.popped with halted := true }

namespace Action

variable {e : Entry} {s t : State} {f : Fault}

theorem aside_halted : Aside State.halted where
  set _ _ r := by cases r <;> rfl
  cmpLeft _ _ := rfl
  cmpRight _ _ := rfl

theorem withNone_ok {act : Action Unit} (h : withNone e act s = .ok () t) :
    e.operands = [] ∧ act s = .ok () t := by
  obtain ⟨m, os, line⟩ := e
  match os with
  | [] => exact ⟨rfl, h⟩
  | _ :: _ => cases h

theorem popWord_ok {w : Word} (h : popWord e s = .ok w t) : w = s.top ∧ t = s.popped := by
  cases ha : addressFault? s.rsp.toNat with
  | none =>
    rw [popWord_of_ok ha] at h
    cases h
    exact ⟨rfl, rfl⟩
  | some cause =>
    have hread : readMemory e s.rsp s = .error ⟨cause, some e.line⟩ s := by
      rw [readMemory, ha]
      rfl
    rw [popWord, bind_of_ok (show (get : Action State) s = .ok s s from rfl),
      bind_of_error hread] at h
    cases h

theorem returnFrom_ok (h : returnFrom e s = .ok () t) :
    s.top = sentinel ∧ t = { s.popped with halted := true } := by
  obtain ⟨w, u, hpop, h⟩ := exists_of_bind_ok h
  obtain ⟨rfl, rfl⟩ := popWord_ok hpop
  split at h
  · rename_i htop
    cases h
    exact ⟨htop, rfl⟩
  · cases h

/-- Nothing but a return from the program halts the machine. -/
theorem returns_of_execute (hs : s.halted = false) (he : execute e s.ticked = .ok () t)
    (ht : t.halted = true) : Returns e s t := by
  have hname : Mnemonic.ofName? e.mnemonic = some .ret := by
    by_contra hne
    have hkept := aside_halted.keeps_execute (fun _ _ => rfl) e (fun h => absurd h hne) s.ticked
    rw [he] at hkept
    exact absurd (hs.symm.trans (hkept.symm.trans ht)) (by decide)
  have hret : withNone e (returnFrom e) s.ticked = .ok () t := by
    rw [execute, hname] at he
    exact he
  obtain ⟨hoperands, hret⟩ := withNone_ok hret
  obtain ⟨htop, hleft⟩ := returnFrom_ok hret
  have hfound := List.find?_some hname
  exact ⟨hs, ⟨(of_decide_eq_true hfound).symm, hoperands⟩, htop, he, hleft⟩

/-- A fault of an instruction is told at its line. -/
theorem line_of_execute (h : execute e s = .error f t) : f.line = some e.line := by
  have htold : execute e s = toldAt e.line (execute e) s := congrFun (execute_movedTo e.line e) s
  rw [toldAt, h] at htold
  exact congrArg Fault.line (EStateM.Result.error.inj htold).1

end Action

/-! ### The loop -/

/-- A run, with instructions that its observer was shown before. -/
def Run.following (r : Run) (shown : List (Int × Entry)) : Run :=
  { r with shown := shown ++ r.shown }

theorem Run.following_nil (r : Run) : r.following [] = r := rfl

namespace Machine

theorem runWithin_following (code : Array Entry) (limit : Int) (observer : Option Observer)
    (n : Nat) (s : State) (seen : List (Int × Entry)) :
    runWithin code limit observer n s seen =
      (runWithin code limit observer n s []).following seen.reverse := by
  induction n generalizing s seen with
  | zero =>
    unfold runWithin
    split
    · simp [Run.following]
    split
    · simp [Run.following]
    cases consult code observer s <;> simp [Run.following]
  | succ n ih =>
    unfold runWithin
    split
    · simp [Run.following]
    split
    · simp [Run.following]
    cases consult code observer s with
    | proceed shown =>
      cases Action.step code s with
      | ok _ s' =>
        show runWithin code limit observer n s' (shown ++ seen) =
          (runWithin code limit observer n s' (shown ++ [])).following seen.reverse
        rw [ih s' (shown ++ seen), ih s' (shown ++ [])]
        simp [Run.following]
      | error f s' => simp [Run.following]
    | stop shown => simp [Run.following]
    | outOfRange => simp [Run.following]

/-- The loop of a run, from any state: how many turns there will be plays no part. -/
theorem run_eq (m : Machine) (observer : Option Observer) :
    m.run observer =
      if m.state.halted then ⟨.ok (some m.state.result), m.state, []⟩
      else if m.stepLimit ≤ m.state.steps then
        ⟨.error (.fault ⟨.stepLimit m.stepLimit, none⟩), m.state, []⟩
      else match consult m.listing.entries observer m.state with
        | .outOfRange => ⟨.error .outOfRange, m.state, []⟩
        | .stop shown => ⟨.ok none, m.state, shown⟩
        | .proceed shown =>
          match m.step with
          | (.error f, m') => ⟨.error (.fault f), m'.state, shown⟩
          | (.ok _, m') => (m'.run observer).following shown := by
  -- The order in which they were shown matters little at one state, where at most one is.
  have hone {shown : List (Int × Entry)}
      (hc : consult m.listing.entries observer m.state = .proceed shown ∨
        consult m.listing.entries observer m.state = .stop shown) :
      (shown ++ []).reverse = shown := by
    obtain rfl | ⟨e, rfl⟩ := consult_shown hc <;> rfl
  rw [run]
  cases hn : ((m.listing.entries.size : Int) - m.state.ip).toNat with
  | zero =>
    -- No turns are left where no entries are, and there a step faults by itself.
    unfold runWithin
    split
    · rfl
    rename_i hs
    split
    · rfl
    cases hc : consult m.listing.entries observer m.state with
    | proceed shown =>
      have hpast : Action.entryAt? m.listing.entries m.state.ip = none := by
        by_contra hsome
        obtain ⟨e, he⟩ := Option.ne_none_iff_exists'.mp hsome
        have := State.entryAt?_lt he
        omega
      have hstep : m.step = (.error ⟨.pastEnd, none⟩, m) := by
        rw [step, Action.step, if_neg hs, hpast]
      rw [hstep]
      simp only [hone (.inl hc)]
    | stop shown => simp only [hone (.inr hc)]
    | outOfRange => rfl
  | succ n =>
    unfold runWithin
    split
    · rfl
    rename_i hs
    split
    · rfl
    cases hc : consult m.listing.entries observer m.state with
    | proceed shown =>
      rw [step]
      cases hstep : Action.step m.listing.entries m.state with
      | error f s' => simp only [hone (.inl hc)]
      | ok _ s' =>
        have hip := ip_of_step_ok (by simpa using hs) hstep
        have hleft : ((m.listing.entries.size : Int) - s'.ip).toNat = n := by omega
        simp only [run, hleft]
        rw [runWithin_following, hone (.inl hc)]
    | stop shown => simp only [hone (.inr hc)]
    | outOfRange => rfl

/-- How many instructions a machine may still begin in a run. -/
def budget (m : Machine) : Nat := (m.stepLimit - m.state.steps).toNat

section Turns

variable {m m' : Machine} {f : Fault}

theorem run_of_halted (h : m.state.halted = true) (observer : Option Observer) :
    m.run observer = ⟨.ok (some m.state.result), m.state, []⟩ := by
  rw [run_eq, if_pos h]

theorem run_of_budget_zero (hs : m.state.halted = false) (hb : m.budget = 0)
    (observer : Option Observer) :
    m.run observer = ⟨.error (.fault ⟨.stepLimit m.stepLimit, none⟩), m.state, []⟩ := by
  rw [budget] at hb
  rw [run_eq, if_neg (by simp [hs]), if_pos (by omega)]

variable (hs : m.state.halted = false) (hb : 0 < m.budget)
include hs hb

section Observed

variable {observer : Option Observer} {shown : List (Int × Entry)}

theorem run_of_stop (hc : consult m.listing.entries observer m.state = .stop shown) :
    m.run observer = ⟨.ok none, m.state, shown⟩ := by
  rw [budget] at hb
  rw [run_eq, if_neg (by simp [hs]), if_neg (by omega), hc]

variable (hc : consult m.listing.entries observer m.state = .proceed shown)
include hc

theorem run_of_proceed_error (h : m.step = (.error f, m')) :
    m.run observer = ⟨.error (.fault f), m'.state, shown⟩ := by
  rw [budget] at hb
  rw [run_eq, if_neg (by simp [hs]), if_neg (by omega), hc, h]

theorem run_of_proceed_ok (h : m.step = (.ok (), m')) :
    m.run observer = (m'.run observer).following shown := by
  rw [budget] at hb
  rw [run_eq, if_neg (by simp [hs]), if_neg (by omega), hc, h]

end Observed

theorem run_of_step_error (h : m.step = (.error f, m')) :
    m.run none = ⟨.error (.fault f), m'.state, []⟩ :=
  run_of_proceed_error hs hb rfl h

theorem run_of_step_ok (h : m.step = (.ok (), m')) : m.run none = m'.run none :=
  (run_of_proceed_ok hs hb rfl h).trans (Run.following_nil _)

end Turns

/-! ### Entries ahead -/

/-- The entries from the next one of a machine to the last. -/
def Ahead (m : Machine) (es : List Entry) : Prop :=
  ∃ before, m.listing.entries.toList = before ++ es ∧ m.state.ip = before.length

section Ahead

variable {m : Machine} {e : Entry} {es more : List Entry} {t : State} {f : Fault}

theorem budget_next (he : Action.execute e m.state.ticked = .ok () t) :
    { m with state := t }.budget = m.budget - 1 := by
  have hsteps : t.steps = m.state.steps + 1 := (Action.counters_of_execute he).2
  show (m.stepLimit - t.steps).toNat = (m.stepLimit - m.state.steps).toNat - 1
  omega

theorem Ahead.step_nil (h : m.Ahead []) (hs : m.state.halted = false) :
    m.step = (.error ⟨.pastEnd, none⟩, m) := by
  obtain ⟨before, hc, hip⟩ := h
  have hpast : Action.entryAt? m.listing.entries m.state.ip = none := by
    rw [Action.entryAt?, if_pos (by omega), ← Array.getElem?_toList, hc, hip]
    simp
  rw [step, Action.step, if_neg (by simp [hs]), hpast]

theorem Ahead.entryAt?_eq (h : m.Ahead (e :: es)) :
    Action.entryAt? m.listing.entries m.state.ip = some e := by
  obtain ⟨before, hc, hip⟩ := h
  rw [← List.append_nil (before ++ _)] at hc
  exact WordLang.entryAt?_eq hc hip

theorem Ahead.step_cons (h : m.Ahead (e :: es)) (hs : m.state.halted = false) :
    Action.step m.listing.entries m.state = Action.execute e m.state.ticked := by
  rw [Action.step, if_neg (by simp [hs]), h.entryAt?_eq]
  rfl

theorem Ahead.step_error (h : m.Ahead (e :: es)) (hs : m.state.halted = false)
    (he : Action.execute e m.state.ticked = .error f t) :
    m.step = (.error f, { m with state := t }) := by
  rw [step, h.step_cons hs, he]

theorem Ahead.step_ok (h : m.Ahead (e :: es)) (hs : m.state.halted = false)
    (he : Action.execute e m.state.ticked = .ok () t) :
    m.step = (.ok (), { m with state := t }) := by
  rw [step, h.step_cons hs, he]

theorem Ahead.next (h : m.Ahead (e :: es)) (he : Action.execute e m.state.ticked = .ok () t) :
    { m with state := t }.Ahead es := by
  obtain ⟨before, hc, hip⟩ := h
  rw [← List.append_nil (before ++ _)] at hc
  obtain ⟨hc', hip', -⟩ := place_of_execute hc hip he
  exact ⟨before ++ [e], by rwa [List.append_nil] at hc', hip'⟩

end Ahead

end Machine

section Walks

variable {P : Entry → State → Prop} {m : Machine} {es more : List Entry} {t : State}

theorem Walks.ahead (h : Walks P es m.state t) (ha : m.Ahead (es ++ more)) :
    { m with state := t }.Ahead more := by
  induction es generalizing m with
  | nil => cases h; exact ha
  | cons e es ih =>
    cases h with
    | @cons _ _ _ u _ hs hp he h => exact ih (m := { m with state := u }) h (ha.next he)

/-- A run goes on as from any state that it passes. -/
theorem Walks.run_eq (h : Walks P es m.state t) (ha : m.Ahead (es ++ more))
    (hl : es.length ≤ m.budget) : m.run none = { m with state := t }.run none := by
  induction es generalizing m with
  | nil => cases h; rfl
  | cons e es ih =>
    cases h with
    | @cons _ _ _ u _ hs hp he h =>
      rw [List.length_cons] at hl
      rw [Machine.run_of_step_ok hs (by omega) (ha.step_ok hs he)]
      refine ih (m := { m with state := u }) h (ha.next he) ?_
      rw [Machine.budget_next he]
      omega

theorem Walks.budget (h : Walks P es m.state t) :
    { m with state := t }.budget = m.budget - es.length := by
  have hsteps := h.counters.2
  show (m.stepLimit - t.steps).toNat = (m.stepLimit - m.state.steps).toNat - es.length
  omega

end Walks

/-! ### Ends -/

/-- How a run ends that has entries ahead and may begin so many of them. It performs entries in
their order, and then an entry returns from the program or faults, there is none left, or there are
no steps left. -/
inductive Ending (limit : Int) (budget : Nat) (es : List Entry) (s : State) : Run → Prop
  | returned {before after : List Entry} {e : Entry} {u t : State} (hes : es = before ++ e :: after)
      (hw : Walks (fun _ _ => True) before s u) (hb : before.length < budget) (hr : Returns e u t) :
      Ending limit budget es s ⟨.ok (some t.result), t, []⟩
  | faulted {before after : List Entry} {e : Entry} {u t : State} {f : Fault}
      (hes : es = before ++ e :: after) (hw : Walks (fun _ _ => True) before s u)
      (hb : before.length < budget) (hs : u.halted = false)
      (he : Action.execute e u.ticked = .error f t) :
      Ending limit budget es s ⟨.error (.fault f), t, []⟩
  | pastEnd {t : State} (hw : Walks (fun _ _ => True) es s t) (hb : es.length < budget)
      (hs : t.halted = false) : Ending limit budget es s ⟨.error (.fault ⟨.pastEnd, none⟩), t, []⟩
  | limited {before after : List Entry} {t : State} (hes : es = before ++ after)
      (hw : Walks (fun _ _ => True) before s t) (hb : before.length = budget)
      (hs : t.halted = false) :
      Ending limit budget es s ⟨.error (.fault ⟨.stepLimit limit, none⟩), t, []⟩

section Ending

variable {limit : Int} {budget : Nat} {e : Entry} {es : List Entry} {s t : State} {r : Run}
  {m : Machine}

theorem Ending.cons (hs : s.halted = false) (he : Action.execute e s.ticked = .ok () t)
    (h : Ending limit budget es t r) : Ending limit (budget + 1) (e :: es) s r := by
  cases h with
  | returned hes hw hb hr =>
    exact .returned (congrArg (e :: ·) hes) (.cons hs trivial he hw) (Nat.succ_lt_succ hb) hr
  | faulted hes hw hb hu hf =>
    exact .faulted (congrArg (e :: ·) hes) (.cons hs trivial he hw) (Nat.succ_lt_succ hb) hu hf
  | pastEnd hw hb ht => exact .pastEnd (.cons hs trivial he hw) (Nat.succ_lt_succ hb) ht
  | limited hes hw hb ht =>
    exact .limited (congrArg (e :: ·) hes) (.cons hs trivial he hw) (congrArg (· + 1) hb) ht

/-- Every run ends in one of these ways. -/
theorem Machine.Ahead.ending (ha : m.Ahead es) (hs : m.state.halted = false) :
    Ending m.stepLimit m.budget es m.state (m.run none) := by
  induction es generalizing m with
  | nil =>
    obtain hb | hb := Nat.eq_zero_or_pos m.budget
    · rw [run_of_budget_zero hs hb]
      exact .limited rfl (.nil _) hb.symm hs
    · rw [run_of_step_error hs hb (ha.step_nil hs)]
      exact .pastEnd (.nil _) hb hs
  | cons e es ih =>
    obtain hb | hb := Nat.eq_zero_or_pos m.budget
    · rw [run_of_budget_zero hs hb]
      exact .limited rfl (.nil _) hb.symm hs
    cases he : Action.execute e m.state.ticked with
    | error f t =>
      rw [run_of_step_error hs hb (ha.step_error hs he)]
      exact .faulted rfl (.nil _) hb hs he
    | ok _ t =>
      rw [run_of_step_ok hs hb (ha.step_ok hs he)]
      cases ht : t.halted with
      | true =>
        rw [run_of_halted ht]
        exact .returned rfl (.nil _) hb (Action.returns_of_execute hs he ht)
      | false =>
        have hrest := (ih (m := { m with state := t }) (ha.next he) ht).cons hs he
        rwa [budget_next he, Nat.sub_add_cancel hb] at hrest

/-- A run that may end in one of these ways does. -/
theorem Ending.run_eq (h : Ending m.stepLimit m.budget es m.state r) (ha : m.Ahead es) :
    m.run none = r := by
  cases h with
  | @returned before after e u t hes hw hb hr =>
    subst hes
    have hu : 0 < { m with state := u }.budget := hw.budget ▸ Nat.sub_pos_of_lt hb
    rw [hw.run_eq ha hb.le, Machine.run_of_step_ok hr.running hu
      ((hw.ahead ha).step_ok hr.running hr.performed)]
    exact Machine.run_of_halted (congrArg State.halted hr.left) none
  | @faulted before after e u t f hes hw hb hs he =>
    subst hes
    have hu : 0 < { m with state := u }.budget := hw.budget ▸ Nat.sub_pos_of_lt hb
    rw [hw.run_eq ha hb.le, Machine.run_of_step_error hs hu ((hw.ahead ha).step_error hs he)]
  | @pastEnd t hw hb hs =>
    rw [← List.append_nil es] at ha
    have hu : 0 < { m with state := t }.budget := hw.budget ▸ Nat.sub_pos_of_lt hb
    rw [hw.run_eq ha hb.le, Machine.run_of_step_error hs hu ((hw.ahead ha).step_nil hs)]
  | @limited before after t hes hw hb hs =>
    subst hes
    have hzero : { m with state := t }.budget = 0 := by rw [hw.budget, hb, Nat.sub_self]
    rw [hw.run_eq ha hb.le]
    exact Machine.run_of_budget_zero hs hzero none

theorem Machine.Ahead.run_eq_iff (ha : m.Ahead es) (hs : m.state.halted = false) :
    m.run none = r ↔ Ending m.stepLimit m.budget es m.state r :=
  ⟨fun h => h ▸ ha.ending hs, fun h => h.run_eq ha⟩

/-- The outcome of a run that has no steps left. -/
def exhausted (limit : Int) : Except Halt (Option Int) := .error (.fault ⟨.stepLimit limit, none⟩)

/-- No other end of a run is told as that. -/
theorem Ending.limited_of_exhausted (h : Ending limit budget es s r)
    (hr : r.outcome = exhausted limit) :
    ∃ before after t, es = before ++ after ∧ before.length = budget ∧
      Walks (fun _ _ => True) before s t ∧ t.halted = false := by
  cases h with
  | returned => cases hr
  | @faulted _ _ e _ _ f _ _ _ _ he =>
    -- The fault of an instruction has a line, and that of a limit has none.
    obtain rfl : f = ⟨.stepLimit limit, none⟩ := Halt.fault.inj (Except.error.inj hr)
    cases Action.line_of_execute he
  | pastEnd => cases hr
  | limited hes hw hb ht => exact ⟨_, _, _, hes, hb, hw, ht⟩

/-- With more steps a run that did not use up its own ends the same way. -/
theorem Ending.mono (h : Ending limit budget es s r) (hr : r.outcome ≠ exhausted limit)
    {budget' : Nat} (hb' : budget ≤ budget') (limit' : Int) : Ending limit' budget' es s r := by
  cases h with
  | returned hes hw hb ht => exact .returned hes hw (hb.trans_le hb') ht
  | faulted hes hw hb hs he => exact .faulted hes hw (hb.trans_le hb') hs he
  | pastEnd hw hb hs => exact .pastEnd hw (hb.trans_le hb') hs
  | limited => exact absurd rfl hr

end Ending

/-! ### Programs from their start -/

/-- A machine at the start of a program, which is at an index. -/
structure Machine.Fresh (l : Listing) (limit main : Int) (m : Machine) : Prop where
  loaded : Machine.load l limit = .ok m
  listing : m.listing = l
  stepLimit : m.stepLimit = limit
  steps : m.state.steps = 0
  running : m.state.halted = false
  inPlace : m.state.InPlace main l.entries.size

theorem Machine.exists_fresh {l : Listing} {main : Int} (hl : l.Labelled)
    (hmain : l.labels.find? entryLabel = some main) (limit : Int) : ∃ m, Fresh l limit main m := by
  obtain ⟨s, hstart, hs⟩ := exists_entryState_inPlace hl hmain
  have hload : load l limit = .ok ⟨l, limit, s⟩ := by
    rw [load, hstart]
    rfl
  rw [entryState, hmain] at hstart
  cases hstart
  exact ⟨_, hload, rfl, rfl, rfl, rfl, hs⟩

namespace Machine.Fresh

variable {l : Listing} {limit main : Int} {m : Machine} (h : m.Fresh l limit main)
include h

theorem ip : m.state.ip = main := by
  rw [h.inPlace.ip, h.steps, Int.natCast_zero, Int.add_zero]

theorem budget : m.budget = limit.toNat := by
  rw [Machine.budget, h.stepLimit, h.steps, Int.natCast_zero, Int.sub_zero]

theorem withLimit (limit' : Int) : { m with stepLimit := limit' }.Fresh l limit' main := by
  have hload := h.loaded
  refine ⟨?_, h.listing, rfl, h.steps, h.running, h.inPlace⟩
  rw [load] at hload ⊢
  cases hs : entryState l with
  | error f =>
    rw [hs] at hload
    cases hload
  | ok s =>
    rw [hs] at hload
    cases hload
    rfl

variable (hmain : 0 ≤ main)
include hmain

theorem ahead : m.Ahead (l.entries.toList.drop main.toNat) := by
  have hle := h.inPlace.ip_le
  rw [h.ip] at hle
  refine ⟨l.entries.toList.take main.toNat, ?_, ?_⟩
  · rw [h.listing, List.take_append_drop]
  · rw [h.ip, List.length_take_of_le (by rw [Array.length_toList]; omega),
      Int.toNat_of_nonneg hmain]

theorem run_eq_iff {r : Run} : m.run none = r ↔
    Ending limit limit.toNat (l.entries.toList.drop main.toNat) m.state r := by
  rw [(h.ahead hmain).run_eq_iff h.running, h.budget, h.stepLimit]

end Machine.Fresh

/-- A program runs straight through and always ends. From its label on it performs entries in their
order, each once, until one returns from the program or faults, there is none left, or there are no
steps left; a run that would end so ends so. It begins no more instructions than there are from the
label on. It ends for want of steps exactly when it has performed as many entries as it has steps
and none of them halted. A run that ends otherwise is the same with more steps. -/
theorem run_straight_line (text : String) (limit : Int) {main : Int}
    (hmain : (Listing.read text).labels.find? "main" = some main) :
    ∃ m, Machine.load (.read text) limit = .ok m ∧
      let es := (Listing.read text).entries.toList.drop main.toNat
      (∀ r, m.run none = r ↔ Ending limit limit.toNat es m.state r) ∧
      (m.run none).state.steps ≤ (Listing.read text).entries.size - main ∧
      ((m.run none).outcome = exhausted limit ↔ ∃ before after t, es = before ++ after ∧
        before.length = limit.toNat ∧ Walks (fun _ _ => True) before m.state t ∧
          t.halted = false) ∧
      ((m.run none).outcome ≠ exhausted limit → ∀ limit' ≥ limit,
        { m with stepLimit := limit' }.run none = m.run none) := by
  have hl := Listing.labelled_read text
  obtain ⟨m, hm⟩ := Machine.exists_fresh hl hmain limit
  have hnonneg := (hl.find? hmain).1
  have hend := (hm.run_eq_iff hnonneg).mp rfl
  refine ⟨m, hm.loaded, fun r => hm.run_eq_iff hnonneg, ?_, ⟨hend.limited_of_exhausted, ?_⟩,
    fun hr limit' hlimit => ?_⟩
  · obtain ⟨-, hip, hle⟩ := Machine.inPlace_run (hm.listing.symm ▸ hm.inPlace) none
    rw [hm.listing] at hle
    omega
  · rintro ⟨before, after, t, hes, hlen, hw, ht⟩
    rw [(hm.run_eq_iff hnonneg).mpr (.limited hes hw hlen ht)]
    rfl
  · exact ((hm.withLimit limit').run_eq_iff hnonneg).mpr
      (hend.mono hr (Int.toNat_le_toNat hlimit) limit')

/-- A program that starts behind another part. Two steps are enough for it and one is not. -/
theorem run_straight_line_late_start :
    let text := "ret\nmain:\n mov rax, 5\n ret\n push 1"
    (Listing.read text).labels.find? "main" = some 1 ∧
      (∃ m, Machine.load (.read text) 1 = .ok m ∧ (m.run none).outcome = exhausted 1 ∧
        ∃ t, Walks (fun _ _ => True) [⟨"mov", ["rax", "5"], 3⟩] m.state t ∧ t.halted = false) ∧
      ∃ m, Machine.load (.read text) 2 = .ok m ∧ (m.run none).outcome = .ok (some 5) ∧
        ∀ limit' ≥ 2, { m with stepLimit := limit' }.run none = m.run none := by
  intro text
  have hmain : (Listing.read text).labels.find? "main" = some 1 := by decide +kernel
  have hshort : (Machine.load (.read text) 1).toOption.any
      (fun m => decide ((m.run none).outcome = exhausted 1)) = true := by decide +kernel
  have hlong : (Machine.load (.read text) 2).toOption.any
      (fun m => decide ((m.run none).outcome = .ok (some 5))) = true := by decide +kernel
  obtain ⟨m₁, hm₁, -, -, hiff, -⟩ := run_straight_line text 1 hmain
  obtain ⟨m₂, hm₂, -, -, -, hmore⟩ := run_straight_line text 2 hmain
  rw [hm₁] at hshort
  rw [hm₂] at hlong
  have hvalue := of_decide_eq_true hlong
  have hother : (m₂.run none).outcome ≠ exhausted 2 := by
    rw [hvalue]
    decide
  refine ⟨hmain, ⟨m₁, hm₁, of_decide_eq_true hshort, ?_⟩, m₂, hm₂, hvalue, hmore hother⟩
  obtain ⟨before, after, t, hes, hlen, hw, ht⟩ := hiff.mp (of_decide_eq_true hshort)
  have hfirst : ((Listing.read text).entries.toList.drop 1).take 1 =
      [⟨"mov", ["rax", "5"], 3⟩] := by decide +kernel
  obtain rfl : before = [⟨"mov", ["rax", "5"], 3⟩] := by
    rw [← hfirst, ← List.take_left' hlen, ← hes]
    rfl
  exact ⟨t, hw, ht⟩

end WordLang
