import WordLang.Proofs.Machine.Wide
import WordLang.Proofs.Simulation

/-! Division of a double word. The quotient is rounded toward zero and has to be the signed value of
a word; the remainder then is one, too, whatever the signs. -/
namespace WordLang

/-- The double word that is divided, with its sign. -/
def State.dividend (s : State) : Int := (s.rdx ++ s.rax).toInt

/-- The machine with the current instruction counted as begun. -/
def Machine.begun (m : Machine) : Machine := { m with state := m.state.ticked }

/-- An instruction of a machine faults with a message, and has done nothing. -/
def Machine.Refuses (m : Machine) (e : Entry) (text : String) : Prop :=
  ∃ f : Fault, m.step = (.error f, m.begun) ∧ f.line = some e.line ∧ f.cause.text? = some text

/-- A machine is about to divide by the word that an operand holds. -/
structure Machine.Divides (m : Machine) (e : Entry) (w : Word) : Prop where
  running : m.state.halted = false
  next : Action.entryAt? m.listing.entries m.state.ip = some e
  mnemonic : e.mnemonic = "idiv"
  divisor : ∃ x, e.operands = [x] ∧ Action.readOperand e x m.state = .ok w m.state

/-- A machine is about to extend the sign of a word to a double word. -/
structure Machine.Extends (m : Machine) (e : Entry) : Prop where
  running : m.state.halted = false
  next : Action.entryAt? m.listing.entries m.state.ip = some e
  spells : e.Spells ⟨.cqo, []⟩

/-! ### Quotients and remainders -/

theorem dividend_eq (s : State) :
    s.dividend = s.rdx.toInt * 0x10000000000000000 + s.rax.toNat := by
  rw [State.dividend, BitVec.toInt_append, Int.mul_comm]
  rfl

theorem natAbs_toInt_le (w : Word) : w.toInt.natAbs ≤ 2 ^ 63 := by
  have := w.toInt_bounds
  omega

theorem natAbs_tmod_lt (n : Int) {d : Int} (hd : d ≠ 0) : (n.tmod d).natAbs < d.natAbs := by
  rw [Int.natAbs_tmod]
  exact Nat.mod_lt _ (Int.natAbs_pos.mpr hd)

/-- The remainder is smaller than the divisor, so it is the signed value of a word. -/
theorem isSigned_tmod (n : Int) {w : Word} (hw : w.toInt ≠ 0) : IsSigned (n.tmod w.toInt) := by
  have hlt := natAbs_tmod_lt n hw
  have hle := natAbs_toInt_le w
  rw [isSigned_iff]
  omega

section Divide

variable {s : State} {d : Int} (hd : d ≠ 0)
include hd

theorem divide_of_isSigned (hq : IsSigned (s.dividend.tdiv d)) :
    Action.divide s.rdx s.rax d =
      .ok (Word.ofInt (s.dividend.tdiv d), Word.ofInt (s.dividend.tmod d)) := by
  rw [isSigned_iff] at hq
  rw [Action.divide_eq, if_neg hd, ← dividend_eq, Int.tmod_def, Int.mul_comm d]
  exact if_neg (by omega)

theorem divide_of_not_isSigned (hq : ¬IsSigned (s.dividend.tdiv d)) :
    Action.divide s.rdx s.rax d = .error .divisionOverflow := by
  rw [isSigned_iff] at hq
  rw [Action.divide_eq, if_neg hd, ← dividend_eq]
  exact if_pos (by omega)

end Divide

/-- The sign extension of a word is that word again. -/
theorem dividend_signExtend (s : State) :
    State.dividend { s with rdx := if s.rax.msb then -1 else 0 } = s.rax.toInt := by
  rw [dividend_eq]
  exact toInt_signExtend s.rax

/-! ### Steps -/

namespace Action

variable {e : Entry} {x : String} {s : State} {w : Word}

/-- Operands do not depend on the counters. -/
theorem readOperand_ticked (h : readOperand e x s = .ok w s) :
    readOperand e x s.ticked = .ok w s.ticked := by
  rw [readOperand] at h ⊢
  cases ha : addressName? x with
  | some name =>
    simp only [ha, bind, EStateM.bind, readRegister, readMemory, State.get_ticked] at h ⊢
    cases hr : Register.ofName? name with
    | none =>
      rw [hr] at h
      cases h
    | some r =>
      simp only [hr] at h ⊢
      cases hf : addressFault? (s.get r).toNat with
      | some cause =>
        rw [hf] at h
        cases h
      | none =>
        simp only [hf] at h ⊢
        cases h
        rfl
  | none =>
    simp only [ha] at h ⊢
    cases hr : Register.ofName? x with
    | some r =>
      simp only [hr, State.get_ticked] at h ⊢
      cases h
      rfl
    | none =>
      simp only [hr] at h ⊢
      cases hn : Text.integer? x.toList with
      | none =>
        rw [hn] at h
        cases h
      | some n =>
        simp only [hn] at h ⊢
        cases h
        rfl

end Action

namespace Machine

variable {m : Machine} {e : Entry} {w : Word}

theorem step_of_next (hs : m.state.halted = false)
    (hn : Action.entryAt? m.listing.entries m.state.ip = some e) :
    m.step = match Action.execute e m.state.ticked with
      | .ok _ s => (.ok (), { m with state := s })
      | .error f s => (.error f, { m with state := s }) := by
  rw [step, Action.step, if_neg (by simp [hs]), hn]
  rfl

theorem Divides.step_eq (h : m.Divides e w) :
    m.step = match Action.divide m.state.rdx m.state.rax w.toInt with
      | .error cause => (.error ⟨cause, some e.line⟩, m.begun)
      | .ok (q, r) => (.ok (), { m with state := { m.state.ticked with rax := q, rdx := r } }) := by
  obtain ⟨x, hx, hw⟩ := h.divisor
  rw [step_of_next h.running h.next,
    Action.execute_idiv_of_read h.mnemonic hx (Action.readOperand_ticked hw)]
  simp only [State.ticked]
  cases Action.divide m.state.rdx m.state.rax w.toInt <;> rfl

/-- What a division can come to, by its divisor and its quotient. -/
theorem Divides.outcomes (h : m.Divides e w) :
    (w.toInt = 0 ∧ m.step = (.error ⟨.divisionByZero, some e.line⟩, m.begun)) ∨
    (w.toInt ≠ 0 ∧ ¬IsSigned (m.state.dividend.tdiv w.toInt) ∧
      m.step = (.error ⟨.divisionOverflow, some e.line⟩, m.begun)) ∨
    (w.toInt ≠ 0 ∧ IsSigned (m.state.dividend.tdiv w.toInt) ∧
      m.step = (.ok (), { m with state := { m.state.ticked with
        rax := Word.ofInt (m.state.dividend.tdiv w.toInt),
        rdx := Word.ofInt (m.state.dividend.tmod w.toInt) } })) := by
  rw [h.step_eq]
  by_cases hd : w.toInt = 0
  · exact .inl ⟨hd, by rw [Action.divide_eq, if_pos hd]⟩
  by_cases hq : IsSigned (m.state.dividend.tdiv w.toInt)
  · exact .inr (.inr ⟨hd, hq, by rw [divide_of_isSigned hd hq]⟩)
  · exact .inr (.inl ⟨hd, hq, by rw [divide_of_not_isSigned hd hq]⟩)

theorem Divides.refuses_zero_iff (h : m.Divides e w) :
    m.Refuses e "division by zero" ↔ w.toInt = 0 := by
  rcases h.outcomes with ⟨hd, hstep⟩ | ⟨hd, -, hstep⟩ | ⟨hd, -, hstep⟩
  · exact iff_of_true ⟨_, hstep, rfl, rfl⟩ hd
  · simp [Refuses, hstep, hd, FaultCause.text?]
  · simp [Refuses, hstep, hd]

theorem Divides.refuses_overflow_iff (h : m.Divides e w) :
    m.Refuses e "division overflow" ↔
      w.toInt ≠ 0 ∧ ¬IsSigned (m.state.dividend.tdiv w.toInt) := by
  rcases h.outcomes with ⟨hd, hstep⟩ | ⟨hd, hq, hstep⟩ | ⟨hd, hq, hstep⟩
  · simp [Refuses, hstep, hd, FaultCause.text?]
  · exact iff_of_true ⟨_, hstep, rfl, rfl⟩ ⟨hd, hq⟩
  · simp [Refuses, hstep, hq]

/-- A dividend that is the signed value of a word overflows in one case only. -/
theorem Divides.refuses_overflow_iff_of_isSigned (h : m.Divides e w)
    (hn : IsSigned m.state.dividend) :
    m.Refuses e "division overflow" ↔ m.state.dividend = -2 ^ 63 ∧ w.toInt = -1 := by
  rw [h.refuses_overflow_iff]
  constructor
  · rintro ⟨hd, hq⟩
    rwa [isSigned_tdiv_iff hn hd, not_not] at hq
  · rintro hover
    have hd : w.toInt ≠ 0 := by omega
    exact ⟨hd, fun hq => (isSigned_tdiv_iff hn hd).mp hq hover⟩

/-- A sign extension never faults, and the double word is the word that it extends. -/
theorem Extends.exists_step (h : m.Extends e) : ∃ m', m.step = (.ok (), m') ∧
    m'.state.rax = m.state.rax ∧ m'.state.dividend = m.state.rax.toInt := by
  let extended : State := { m.state.ticked with rdx := if m.state.rax.msb then -1 else 0 }
  have hexecute : Action.execute e m.state.ticked = .ok () extended := Action.execute_cqo h.spells
  refine ⟨{ m with state := extended }, ?_, rfl, dividend_signExtend m.state.ticked⟩
  rw [step_of_next h.running h.next, hexecute]

end Machine

/-- Division of a signed double word by an operand. It faults for a divisor of zero, and otherwise
for a quotient, rounded toward zero, that is not the signed value of a word; both faults leave the
registers alone. Else the quotient and the remainder are left, and the remainder is smaller than the
divisor and has the sign of the dividend. Behind a sign extension the dividend is the word that was
extended, and only the least one overflows, when it is divided by minus one. The machine on integers
comes to the same, fault for fault. -/
theorem division_truncates (m : Machine) :
    (∀ e w, m.Divides e w →
      let n := m.state.dividend
      let d := w.toInt
      let q := n.tdiv d
      (m.Refuses e "division by zero" ↔ d = 0) ∧
      (m.Refuses e "division overflow" ↔ d ≠ 0 ∧ ¬(-2 ^ 63 ≤ q ∧ q < 2 ^ 63)) ∧
      (d ≠ 0 ∧ -2 ^ 63 ≤ q ∧ q < 2 ^ 63 → ∃ rax rdx : Word,
        m.step = (.ok (), { m with state := { m.state.ticked with rax := rax, rdx := rdx } }) ∧
        rax.toInt = q ∧ n = q * d + rdx.toInt ∧ rdx.toInt.natAbs < d.natAbs ∧
        (rdx.toInt = 0 ∨ rdx.toInt.sign = n.sign))) ∧
    (∀ e, m.Extends e → ∃ m', m.step = (.ok (), m') ∧ m'.state.rax = m.state.rax ∧
      m'.state.dividend = m.state.rax.toInt ∧ ∀ e' w, m'.Divides e' w →
        (m'.Refuses e' "division overflow" ↔ m.state.rax.toInt = -2 ^ 63 ∧ w.toInt = -1)) ∧
    m.patterns.step = (m.step.1, m.step.2.patterns) := by
  refine ⟨fun e w h => ?_, fun e h => ?_, WideMachine.step_patterns m⟩
  · intro n d q
    refine ⟨h.refuses_zero_iff, by rw [h.refuses_overflow_iff, isSigned_iff], fun hok => ?_⟩
    rcases h.outcomes with ⟨hd, -⟩ | ⟨-, hq, -⟩ | ⟨hd, hq, hstep⟩
    · exact absurd hd hok.1
    · exact absurd (isSigned_iff.mpr hok.2) hq
    · have hr : (Word.ofInt (n.tmod d)).toInt = n.tmod d := (isSigned_tmod n hd).toInt_ofInt
      refine ⟨_, _, hstep, hq.toInt_ofInt, ?_, ?_, ?_⟩
      · rw [hr, Int.tdiv_mul_add_tmod]
      · rw [hr]
        exact natAbs_tmod_lt n hd
      · rw [hr, ← Int.sign_eq_zero_iff_zero, Int.sign_tmod]
        split
        · exact .inl rfl
        · exact .inr rfl
  · obtain ⟨m', hstep, hrax, hdividend⟩ := h.exists_step
    refine ⟨m', hstep, hrax, hdividend, fun e' w h' => ?_⟩
    rw [← hdividend]
    refine h'.refuses_overflow_iff_of_isSigned ?_
    rw [hdividend]
    exact isSigned_iff.mpr m.state.rax.toInt_bounds

/-- A negative dividend over a word of memory leaves a negative remainder. Then a sign extension
changes the very divisor, and the least word overflows. -/
theorem division_truncates_twice :
    let text := "main:\n mov rdx, -1\n mov rax, 7\n idiv [rsp]\n mov rax, 0x8000000000000000\n" ++
      " cqo\n idiv rdx"
    ∃ m₀ m₁ m₂ m₃ : Machine, Machine.load (.read text) 9 = .ok m₀ ∧
      (m₀.stepMany 2).2 = m₁ ∧ m₁.Divides ⟨"idiv", ["[rsp]"], 4⟩ sentinel ∧
      (∃ rax rdx : Word,
        m₁.step = (.ok (), { m₁ with state := { m₁.state.ticked with rax := rax, rdx := rdx } }) ∧
        rax.toInt = -75342 ∧ rdx.toInt = -173488110174201) ∧
      (m₁.stepMany 2).2 = m₂ ∧ m₂.Extends ⟨"cqo", [], 6⟩ ∧ m₂.step = (.ok (), m₃) ∧
      m₃.Divides ⟨"idiv", ["rdx"], 7⟩ (-1) ∧
      m₃.Refuses ⟨"idiv", ["rdx"], 7⟩ "division overflow" := by
  intro text
  let next (m : Machine) : Option Entry := Action.entryAt? m.listing.entries m.state.ip
  obtain ⟨m₀, hload, htest⟩ := exists_of_any_toOption (x := Machine.load (.read text) 9)
    (p := fun m₀ =>
      let m₁ := (m₀.stepMany 2).2
      let m₂ := (m₁.stepMany 2).2
      let m₃ := m₂.step.2
      decide ((m₁.state.halted = false ∧ next m₁ = some ⟨"idiv", ["[rsp]"], 4⟩ ∧
          Action.addressFault? m₁.state.rsp.toNat = none ∧
          m₁.state.memory.get m₁.state.rsp.toNat = sentinel ∧
          m₁.state.dividend = -18446744073709551609) ∧
        (m₂.state.halted = false ∧ next m₂ = some ⟨"cqo", [], 6⟩ ∧
          m₂.state.rax.toInt = -9223372036854775808) ∧
        m₃.state.halted = false ∧ next m₃ = some ⟨"idiv", ["rdx"], 7⟩ ∧ m₃.state.rdx = -1))
    (by decide +kernel)
  obtain ⟨⟨hs₁, hn₁, ha, hword, hdividend⟩, ⟨hs₂, hn₂, hrax⟩, hs₃, hn₃, hrdx⟩ :=
    of_decide_eq_true htest
  let m₁ := (m₀.stepMany 2).2
  let m₂ := (m₁.stepMany 2).2
  have hdivides₁ : m₁.Divides ⟨"idiv", ["[rsp]"], 4⟩ sentinel :=
    ⟨hs₁, hn₁, rfl, _, rfl, by rw [← hword]; exact Action.readOperand_indirect _ .rsp ha⟩
  have hextends : m₂.Extends ⟨"cqo", [], 6⟩ := ⟨hs₂, hn₂, rfl, rfl⟩
  obtain ⟨m₃, hstep₂, -, -, hoverflow⟩ := (division_truncates m₂).2.1 _ hextends
  have hm₃ : m₂.step.2 = m₃ := congrArg Prod.snd hstep₂
  rw [hm₃] at hs₃ hn₃ hrdx
  have hdivides₃ : m₃.Divides ⟨"idiv", ["rdx"], 7⟩ (-1) :=
    ⟨hs₃, hn₃, rfl, _, rfl, by rw [← hrdx]; exact Action.readOperand_register _ .rdx m₃.state⟩
  obtain ⟨rax, rdx, hstep₁, hq, hr, -⟩ := ((division_truncates m₁).1 _ _ hdivides₁).2.2
    (by rw [hdividend]; decide)
  rw [hdividend] at hq hr
  refine ⟨m₀, m₁, m₂, m₃, hload, rfl, hdivides₁, ⟨rax, rdx, hstep₁, hq, ?_⟩, rfl, hextends, hstep₂,
    hdivides₃, (hoverflow _ _ hdivides₃).mpr ⟨hrax, by decide⟩⟩
  have hproduct : (-18446744073709551609 : Int).tdiv sentinel.toInt * sentinel.toInt =
      -18446570585599377408 := by decide
  omega

end WordLang
