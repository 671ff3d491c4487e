import WordLang.Proofs.Machine.StraightLine

/-! Interrupted runs. Single steps and runs that an observer stops take a machine along the walk of
its program, an entry at a time, so that it can go on from there as if it had never been stopped. -/
namespace WordLang

/-- Entries with their indices, the first of which is given. -/
def numbered (index : Int) : List Entry → List (Int × Entry)
  | [] => []
  | e :: es => (index, e) :: numbered (index + 1) es

theorem numbered_append (index : Int) (es more : List Entry) :
    numbered index (es ++ more) = numbered index es ++ numbered (index + es.length) more := by
  induction es generalizing index with
  | nil => simp [numbered]
  | cons e es ih =>
    have hindex : index + (e :: es).length = index + 1 + es.length := by
      rw [List.length_cons]
      omega
    rw [List.cons_append, numbered, numbered, ih, hindex]
    rfl

theorem map_snd_numbered (index : Int) (es : List Entry) :
    (numbered index es).map Prod.snd = es := by
  induction es generalizing index with
  | nil => rfl
  | cons e es ih => rw [numbered, List.map_cons, ih]

/-! ### Stopped runs -/

/-- An observer stops a run that has entries ahead and may begin so many of them. It approves each
entry at the state before it, and then the entry is performed. The entry that it refuses is not, so
the state is left as it was when the observer was asked. -/
inductive Stops (f : Observer) : Nat → List Entry → State → State → List (Int × Entry) → Prop
  | here {budget : Nat} {e : Entry} {es : List Entry} {s : State} (hs : s.halted = false)
      (hf : f s.ip e = false) : Stops f (budget + 1) (e :: es) s s [(s.ip, e)]
  | later {budget : Nat} {e : Entry} {es : List Entry} {s t u : State} {shown : List (Int × Entry)}
      (hs : s.halted = false) (hf : f s.ip e = true) (he : Action.execute e s.ticked = .ok () t)
      (h : Stops f budget es t u shown) : Stops f (budget + 1) (e :: es) s u ((s.ip, e) :: shown)

/-- What was approved was performed. -/
theorem Stops.exists_walks {f : Observer} {budget : Nat} {es : List Entry} {s u : State}
    {shown : List (Int × Entry)} (h : Stops f budget es s u shown) :
    ∃ before after, es = before ++ after ∧ Walks (fun _ _ => True) before s u ∧
      (shown.filter fun x => f x.1 x.2) = numbered s.ip before := by
  induction h with
  | @here _ e es s hs hf => exact ⟨[], e :: es, rfl, .nil s, by simp [hf, numbered]⟩
  | @later _ e es s t u shown hs hf he _ ih =>
    obtain ⟨before, after, rfl, hw, happroved⟩ := ih
    have hip : t.ip = s.ip + 1 := (Action.counters_of_execute he).1
    refine ⟨e :: before, after, rfl, .cons hs trivial he hw, ?_⟩
    rw [List.filter_cons, if_pos hf, happroved, hip]
    rfl

theorem Run.eq_of_following {r : Run} {x : Int × Entry} {outcome : Except Halt (Option Int)}
    {u : State} {shown : List (Int × Entry)} (h : r.following [x] = ⟨outcome, u, shown⟩) :
    ∃ shown', shown = x :: shown' ∧ r = ⟨outcome, u, shown'⟩ := by
  cases h
  exact ⟨r.shown, rfl, rfl⟩

/-- What a machine takes in a single step: the next entry, unless it has halted. -/
def Machine.next? (m : Machine) : Option (Int × Entry) :=
  if m.state.halted then none
  else (Action.entryAt? m.listing.entries m.state.ip).map (m.state.ip, ·)

theorem Machine.running_of_stopped {m : Machine} {f : Observer} {u : State}
    {shown : List (Int × Entry)} (h : m.run (some f) = ⟨.ok none, u, shown⟩) :
    m.state.halted = false ∧ 0 < m.budget := by
  have hs : m.state.halted = false := by
    by_contra hs
    rw [run_of_halted (by simpa using hs)] at h
    cases h
  refine ⟨hs, Nat.pos_of_ne_zero fun hb => ?_⟩
  rw [run_of_budget_zero hs hb] at h
  cases h

namespace Machine.Ahead

variable {m : Machine} {e : Entry} {es : List Entry} {f : Observer} {u : State}
  {shown : List (Int × Entry)}

theorem next?_cons (h : m.Ahead (e :: es)) (hs : m.state.halted = false) :
    m.next? = some (m.state.ip, e) := by
  rw [next?, if_neg (by simp [hs]), h.entryAt?_eq]
  rfl

theorem consult_nil (h : m.Ahead []) :
    consult m.listing.entries (some f) m.state = .proceed [] := by
  obtain ⟨before, hc, hip⟩ := h
  have hsize : m.listing.entries.size = before.length := by
    rw [← Array.length_toList, hc, List.append_nil]
  rw [consult, consultAt, if_pos (by omega)]

theorem consult_cons (h : m.Ahead (e :: es)) :
    consult m.listing.entries (some f) m.state =
      if f m.state.ip e then .proceed [(m.state.ip, e)] else .stop [(m.state.ip, e)] := by
  have he := h.entryAt?_eq
  have hlt := State.entryAt?_lt he
  obtain ⟨before, -, hip⟩ := h
  rw [consult, consultAt, if_neg (by omega), shownEntry?, if_neg (by omega), he]

theorem stops_of_run (ha : m.Ahead es) (h : m.run (some f) = ⟨.ok none, u, shown⟩) :
    Stops f m.budget es m.state u shown := by
  induction es generalizing m shown with
  | nil =>
    obtain ⟨hs, hb⟩ := running_of_stopped h
    rw [run_of_proceed_error hs hb ha.consult_nil (ha.step_nil hs)] at h
    cases h
  | cons e es ih =>
    obtain ⟨hs, hb⟩ := running_of_stopped h
    have hc := ha.consult_cons (f := f)
    rw [← Nat.sub_add_cancel hb]
    -- What the observer says here decides the turn, before the entry is performed.
    cases hf : f m.state.ip e with
    | false =>
      rw [run_of_stop hs hb (hc.trans (by rw [hf]; rfl))] at h
      cases h
      exact .here hs hf
    | true =>
      replace hc := hc.trans (if_pos hf)
      cases he : Action.execute e m.state.ticked with
      | error d t =>
        rw [run_of_proceed_error hs hb hc (ha.step_error hs he)] at h
        cases h
      | ok _ t =>
        rw [run_of_proceed_ok hs hb hc (ha.step_ok hs he)] at h
        obtain ⟨shown', rfl, hrest⟩ := Run.eq_of_following h
        have hstops := ih (ha.next he) hrest
        rw [budget_next he] at hstops
        exact .later hs hf he hstops

theorem run_of_stops (ha : m.Ahead es) (h : Stops f m.budget es m.state u shown) :
    m.run (some f) = ⟨.ok none, u, shown⟩ := by
  induction es generalizing m shown with
  | nil =>
    generalize m.budget = budget at h
    cases h
  | cons e es ih =>
    have hc := ha.consult_cons (f := f)
    generalize hb : m.budget = budget at h
    cases h with
    | here hs hf => exact run_of_stop hs (by omega) (hc.trans (by rw [hf]; rfl))
    | @later budget _ _ _ t _ shown hs hf he h =>
      have hbudget : { m with state := t }.budget = budget := by rw [budget_next he, hb]; rfl
      rw [run_of_proceed_ok hs (by omega) (hc.trans (if_pos hf)) (ha.step_ok hs he),
        ih (m := { m with state := t }) (ha.next he) (hbudget ▸ h)]
      rfl

end Machine.Ahead

/-! ### Sessions -/

namespace Machine

/-- Single steps that do not fault and runs that an observer stops, one after the other, with the
entries that were taken in a step or approved by the observer. Each run has an observer of its own,
which is asked about an index once, so that observers stand for all sequences of verdicts. -/
inductive Session (m : Machine) : List (Int × Entry) → Machine → Prop
  | start : Session m [] m
  | step {taken : List (Int × Entry)} {m' : Machine} (h : Session m taken m')
      (hstep : m'.step.1 = .ok ()) : Session m (taken ++ m'.next?.toList) m'.step.2
  | stopped {taken : List (Int × Entry)} {m' : Machine} (h : Session m taken m') (f : Observer)
      (hrun : (m'.run (some f)).outcome = .ok none) :
      Session m (taken ++ (m'.run (some f)).shown.filter fun x => f x.1 x.2)
        { m' with state := (m'.run (some f)).state }

/-- A machine has gone a part of the way that was ahead of it. -/
structure Passed (m : Machine) (es : List Entry) (taken : List (Int × Entry)) (m' : Machine)
    (before after : List Entry) : Prop where
  entries : es = before ++ after
  walked : Walks (fun _ _ => True) before m.state m'.state
  taken : taken = numbered m.state.ip before
  machine : m' = { m with state := m'.state }

variable {m m' : Machine} {es before more after : List Entry} {taken : List (Int × Entry)}

namespace Passed

theorem ahead (h : m.Passed es taken m' before after) (ha : m.Ahead es) : m'.Ahead after := by
  rw [h.machine]
  exact h.walked.ahead (h.entries ▸ ha)

/-- A machine that goes on a part of the way has gone both parts. -/
theorem walk (h : m.Passed es taken m' before (more ++ after)) {u : State}
    (hw : Walks (fun _ _ => True) more m'.state u) :
    m.Passed es (taken ++ numbered m'.state.ip more) { m' with state := u } (before ++ more)
      after where
  entries := by rw [h.entries, List.append_assoc]
  walked := h.walked.append hw
  taken := by rw [h.taken, h.walked.counters.1, numbered_append]
  machine := by rw [h.machine]

/-- The rest of the way is the same for a machine that was there before. -/
theorem run_eq (h : m.Passed es taken m' before after) (ha : m.Ahead es)
    (hl : m'.state.steps ≤ m.stepLimit) : m'.run none = m.run none := by
  have hsteps := h.walked.counters.2
  have hb : before.length ≤ m.budget := by
    rw [Machine.budget]
    omega
  rw [h.walked.run_eq (h.entries ▸ ha) hb, ← h.machine]

end Passed

/-- One step goes at most one entry of the way. -/
theorem Passed.step (h : m.Passed es taken m' before after) (ha : m.Ahead es)
    (hstep : m'.step.1 = .ok ()) :
    ∃ before after, m.Passed es (taken ++ m'.next?.toList) m'.step.2 before after := by
  have ha' := h.ahead ha
  cases hs : m'.state.halted with
  | true =>
    -- A step past the halt takes nothing.
    have hrest : m'.step = (.ok (), m') := by rw [Machine.step, Action.step, if_pos hs]
    rw [hrest, next?, if_pos hs, Option.toList_none, List.append_nil]
    exact ⟨before, after, h⟩
  | false =>
    cases after with
    | nil =>
      rw [ha'.step_nil hs] at hstep
      cases hstep
    | cons e after =>
      cases he : Action.execute e m'.state.ticked with
      | error f t =>
        rw [ha'.step_error hs he] at hstep
        cases hstep
      | ok _ t =>
        have hw : Walks (fun _ _ => True) [e] m'.state t := .cons hs trivial he (.nil t)
        rw [ha'.step_ok hs he, ha'.next?_cons hs]
        exact ⟨before ++ [e], after, h.walk hw⟩

/-- A stopped run goes as far as its observer approves. -/
theorem Passed.stopped (h : m.Passed es taken m' before after) (ha : m.Ahead es) {f : Observer}
    (hrun : (m'.run (some f)).outcome = .ok none) :
    ∃ before after, m.Passed es (taken ++ (m'.run (some f)).shown.filter fun x => f x.1 x.2)
      { m' with state := (m'.run (some f)).state } before after := by
  have hstops := (h.ahead ha).stops_of_run (f := f) (by rw [← hrun])
  obtain ⟨more, rest, rfl, hw, happroved⟩ := hstops.exists_walks
  rw [happroved]
  exact ⟨before ++ more, rest, h.walk hw⟩

/-- Whatever the sequence of calls, the machine has gone a part of its way. -/
theorem Session.exists_passed (h : m.Session taken m') (ha : m.Ahead es) :
    ∃ before after, m.Passed es taken m' before after := by
  induction h with
  | start => exact ⟨[], es, rfl, .nil _, rfl, rfl⟩
  | step _ hstep ih =>
    obtain ⟨before, after, hp⟩ := ih
    exact hp.step ha hstep
  | stopped _ f hrun ih =>
    obtain ⟨before, after, hp⟩ := ih
    exact hp.stopped ha hrun

end Machine

/-- Stopping, stepping and going on leave no trace. After any sequence of single steps that do not
fault and of runs that are stopped by an observer, exactly the entries that a step took or an
observer approved have been performed, each once and in the order of the program. If no more steps
were taken than a run may, a run from there ends as one from the start, with the same outcome and in
the same state. An observer is asked about an entry before it is performed, and stops the run in the
state that it was asked in. -/
theorem run_resumed (text : String) (limit : Int) {main : Int}
    (hmain : (Listing.read text).labels.find? "main" = some main) :
    ∃ m, Machine.load (.read text) limit = .ok m ∧ ∀ taken m', m.Session taken m' →
      let es := (Listing.read text).entries.toList.drop main.toNat
      taken = numbered main (es.take m'.state.steps) ∧
      Walks (fun _ _ => True) (taken.map Prod.snd) m.state m'.state ∧
      (m'.state.steps ≤ limit → m'.run none = m.run none) ∧
      ∀ f u shown, m'.run (some f) = ⟨.ok none, u, shown⟩ ↔
        Stops f m'.budget (es.drop m'.state.steps) m'.state u shown := by
  have hl := Listing.labelled_read text
  obtain ⟨m, hm⟩ := Machine.exists_fresh hl hmain limit
  have ha := hm.ahead (hl.find? hmain).1
  refine ⟨m, hm.loaded, fun taken m' hsession => ?_⟩
  intro es
  obtain ⟨before, after, hp⟩ := hsession.exists_passed ha
  have ha' := hp.ahead ha
  have hsteps : m'.state.steps = before.length := by
    rw [hp.walked.counters.2, hm.steps, Nat.zero_add]
  have hes : es = before ++ after := hp.entries
  have htake : es.take m'.state.steps = before := by rw [hsteps, hes, List.take_left]
  have hdrop : es.drop m'.state.steps = after := by rw [hsteps, hes, List.drop_left]
  have htaken : taken = numbered main before := by rw [hp.taken, hm.ip]
  rw [htake, hdrop, htaken, map_snd_numbered]
  exact ⟨rfl, hp.walked, fun hle => hp.run_eq ha (hm.stepLimit ▸ hle),
    fun f u shown => ⟨ha'.stops_of_run, ha'.run_of_stops⟩⟩

/-- A step, a run that is stopped before the move, and a run to the end. -/
theorem run_resumed_after_stop :
    let text := "main:\n push 7\n pop rax\n mov rdi, rax\n ret"
    (Listing.read text).labels.find? "main" = some 0 ∧
      ∃ m m', Machine.load (.read text) 4 = .ok m ∧
        m.Session [(0, ⟨"push", ["7"], 2⟩), (1, ⟨"pop", ["rax"], 3⟩)] m' ∧
        m'.run none = m.run none ∧ (m'.run none).outcome = .ok (some 7) := by
  intro text
  have hmain : (Listing.read text).labels.find? "main" = some 0 := by decide +kernel
  obtain ⟨m, hm, hsessions⟩ := run_resumed text 4 hmain
  let f : Observer := .untilMnemonic "mov"
  have hcalls : (Machine.load (.read text) 4).toOption.any (fun m =>
      m.step.1 = .ok () ∧ (m.step.2.run (some f)).outcome = .ok none ∧
        (m.step.2.run (some f)).state.steps = 2 ∧ (m.run none).outcome = .ok (some 7)) = true := by
    decide +kernel
  have hfirst : numbered 0 (((Listing.read text).entries.toList.drop 0).take 2) =
      [(0, ⟨"push", ["7"], 2⟩), (1, ⟨"pop", ["rax"], 3⟩)] := by decide +kernel
  rw [hm] at hcalls
  obtain ⟨hstep, hrun, hsteps, hvalue⟩ := of_decide_eq_true hcalls
  have hsession := (Machine.Session.start.step hstep).stopped f hrun
  obtain ⟨htaken, -, hsame, -⟩ := hsessions _ _ hsession
  have hle : ((m.step.2.run (some f)).state.steps : Int) ≤ 4 := by omega
  rw [htaken] at hsession
  replace hsame := hsame hle
  refine ⟨hmain, m, _, hm, ?_, hsame, hsame ▸ hvalue⟩
  rw [← hfirst]
  exact hsteps ▸ hsession

end WordLang
