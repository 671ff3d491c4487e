import WordLang.Proofs.Grammar.Acceptance

/-! Where the parser stops for its syntax, what it has read can still be completed to a program, and
together with the token that it stops at it cannot. For the second part, two inputs that start alike
are parsed side by side. -/
namespace WordLang

variable {α β γ δ : Type}

/-! ### What is left -/

/-- A rule leaves an end of what it is given. -/
def Consumes (r : Parse α) : Prop :=
  ∀ s : ParseState, Terminated s.input.toList →
    (finalState (r s)).input.toList <:+ s.input.toList

theorem Sound.consumes {atOnce : Bool} {D : Reading α} {r : Parse α} (h : Sound atOnce D r) :
    Consumes r := by
  intro s hs
  obtain ⟨p, hp⟩ := h.exists_reads hs
  exact ⟨p, hp.input.symm⟩

theorem terminated_of_suffix {s s' : ParseState} (h : s'.input.toList <:+ s.input.toList)
    (hs : Terminated s.input.toList) : Terminated s'.input.toList := by
  obtain ⟨p, hp⟩ := h
  rwa [← hp, terminated_append s'.input.toList_ne_nil] at hs

theorem consumes_pure (a : α) : Consumes (pure a : Parse α) := fun _ _ => List.suffix_rfl

theorem Consumes.bind {m : Parse α} {f : α → Parse β} (hm : Consumes m)
    (hf : ∀ a, Consumes (f a)) : Consumes (m >>= f) := by
  intro s hs
  have hsuffix := hm s hs
  cases hms : m s with
  | ok a s' =>
    rw [hms] at hsuffix
    rw [bind_of_ok hms]
    exact (hf a s' (terminated_of_suffix hsuffix hs)).trans hsuffix
  | error d s' =>
    rw [hms] at hsuffix
    rwa [bind_of_error hms]

/-! ### Two inputs -/

/-- Two states whose inputs are alike, in so many tokens at most, up to where they part. -/
structure Beside (u₁ u₂ : List Token) (k : Nat) (s₁ s₂ : ParseState) : Prop where
  common : ∃ c, c.length ≤ k ∧ s₁.input.toList = c ++ u₁ ∧ s₂.input.toList = c ++ u₂
  left : Terminated s₁.input.toList
  right : Terminated s₂.input.toList

/-- As long as a rule does not come to where the inputs part, and succeeds on the second one, it
succeeds alike on the first one or fails there for something else than its syntax. -/
def Led (u₁ u₂ : List Token) (k : Nat) (view : α → γ)
    (x₁ x₂ : EStateM.Result Diagnostic ParseState α) : Prop :=
  u₁.length < (finalState x₁).input.toList.length → ∀ a₂ s₂, x₂ = .ok a₂ s₂ →
    match x₁ with
    | .ok a₁ s₁ => view a₁ = view a₂ ∧ Beside u₁ u₂ k s₁ s₂
    | .error d _ => d.cause.isSyntax = false

/-- Two rules go alike over inputs that are alike in so many tokens at most. -/
def Leads (k : Nat) (view : α → γ) (r₁ r₂ : Parse α) : Prop :=
  ∀ j ≤ k, ∀ u₁ u₂ s₁ s₂, Beside u₁ u₂ j s₁ s₂ → Led u₁ u₂ j view (r₁ s₁) (r₂ s₂)

section Leads

variable {u₁ u₂ : List Token} {k k' : Nat} {s₁ s₂ : ParseState} {view : α → γ}

theorem Beside.mono (h : Beside u₁ u₂ k s₁ s₂) (hk : k ≤ k') : Beside u₁ u₂ k' s₁ s₂ := by
  obtain ⟨c, hc, h₁, h₂⟩ := h.common
  exact ⟨⟨c, Nat.le_trans hc hk, h₁, h₂⟩, h.left, h.right⟩

/-- Neither input is shorter than what is common to both. -/
theorem Beside.exists_le_length (h : Beside u₁ u₂ k s₁ s₂) :
    ∃ j ≤ k, j ≤ s₁.input.length ∧ j ≤ s₂.input.length ∧ Beside u₁ u₂ j s₁ s₂ := by
  obtain ⟨c, hc, h₁, h₂⟩ := h.common
  have hlen₁ : s₁.input.length = (c ++ u₁).length := congrArg List.length h₁
  have hlen₂ : s₂.input.length = (c ++ u₂).length := congrArg List.length h₂
  rw [List.length_append] at hlen₁ hlen₂
  exact ⟨c.length, hc, by omega, by omega, ⟨c, Nat.le_refl _, h₁, h₂⟩, h.left, h.right⟩

theorem Beside.next {t : Token} {c : List Token} (hc : c.length ≤ k)
    (h₁ : s₁.input.toList = t :: (c ++ u₁)) (h₂ : s₂.input.toList = t :: (c ++ u₂))
    (hs₁ : Terminated s₁.input.toList) (hs₂ : Terminated s₂.input.toList)
    (ht : t.isEnd = false) : Beside u₁ u₂ k s₁.next s₂.next := by
  have hn₁ := s₁.toList_next hs₁ ((List.cons.inj h₁).1 ▸ ht)
  have hn₂ := s₂.toList_next hs₂ ((List.cons.inj h₂).1 ▸ ht)
  refine ⟨⟨c, hc, ?_, ?_⟩, ?_, ?_⟩
  · exact (List.cons.inj (hn₁.symm.trans h₁)).2
  · exact (List.cons.inj (hn₂.symm.trans h₂)).2
  · exact terminated_of_suffix ⟨[_], hn₁.symm⟩ hs₁
  · exact terminated_of_suffix ⟨[_], hn₂.symm⟩ hs₂

theorem Led.mono {x₁ x₂ : EStateM.Result Diagnostic ParseState α}
    (h : Led u₁ u₂ k view x₁ x₂) (hk : k ≤ k') : Led u₁ u₂ k' view x₁ x₂ := by
  intro hlen a₂ s₂ h₂
  have := h hlen a₂ s₂ h₂
  cases x₁ with
  | ok a₁ s₁ => exact ⟨this.1, this.2.mono hk⟩
  | error d s₁ => exact this

theorem Led.forget {x₁ x₂ : EStateM.Result Diagnostic ParseState α}
    (h : Led u₁ u₂ k view x₁ x₂) : Led u₁ u₂ k (fun _ => ()) x₁ x₂ := by
  intro hlen a₂ s₂ h₂
  have := h hlen a₂ s₂ h₂
  cases x₁ with
  | ok a₁ s₁ => exact ⟨rfl, this.2⟩
  | error d s₁ => exact this

theorem led_pure {a₁ a₂ : α} (hv : view a₁ = view a₂) (hb : Beside u₁ u₂ k s₁ s₂) :
    Led u₁ u₂ k view (.ok a₁ s₁) (.ok a₂ s₂) := by
  intro _ a s h
  cases h
  exact ⟨hv, hb⟩

theorem led_error {x₁ : EStateM.Result Diagnostic ParseState α} {d : Diagnostic} :
    Led u₁ u₂ k view x₁ (.error d s₂) := fun _ _ _ h => nomatch h

/-- A rule that takes tokens from the front is told by the current one, as long as the inputs have
not parted. -/
theorem leads_of_head {r₁ r₂ : Parse α} (hc : Consumes r₁)
    (h : ∀ j < k, ∀ u₁ u₂ s₁ s₂, Beside u₁ u₂ (j + 1) s₁ s₂ → s₂.input.head = s₁.input.head →
      (s₁.input.head.isEnd = false → Beside u₁ u₂ j s₁.next s₂.next) →
      Led u₁ u₂ (j + 1) view (r₁ s₁) (r₂ s₂)) : Leads k view r₁ r₂ := by
  intro j hj u₁ u₂ s₁ s₂ hb
  obtain ⟨c, hcj, h₁, h₂⟩ := hb.common
  cases c with
  | nil =>
    intro hlen
    have := (hc s₁ hb.left).length_le
    rw [h₁, List.nil_append] at this
    omega
  | cons t c =>
    rw [List.length_cons] at hcj
    obtain ⟨j, rfl⟩ : ∃ i, j = i + 1 := ⟨j - 1, by omega⟩
    have ht : s₁.input.head = t := (List.cons.inj h₁).1
    refine h j hj u₁ u₂ s₁ s₂ hb ((List.cons.inj h₂).1.trans ht.symm) fun hend => ?_
    exact Beside.next (by omega) h₁ h₂ hb.left hb.right (ht ▸ hend)

theorem Led.bind {m₁ m₂ : Parse α} {f₁ f₂ : α → Parse β} {view' : β → δ}
    (hm : Led u₁ u₂ k view (m₁ s₁) (m₂ s₂)) (hs : Terminated s₁.input.toList)
    (hcm : Consumes m₁) (hcf : ∀ a, Consumes (f₁ a))
    (hf : ∀ a₁ a₂ s₁ s₂, view a₁ = view a₂ → Beside u₁ u₂ k s₁ s₂ →
      Led u₁ u₂ k view' (f₁ a₁ s₁) (f₂ a₂ s₂)) :
    Led u₁ u₂ k view' ((m₁ >>= f₁) s₁) ((m₂ >>= f₂) s₂) := by
  intro hlen b₂ s₂'' h₂
  obtain ⟨a₂, s₂', hm₂, hf₂⟩ := exists_of_bind_ok h₂
  have hsuffix := hcm s₁ hs
  cases hm₁ : m₁ s₁ with
  | ok a₁ s₁' =>
    rw [hm₁] at hm hsuffix
    rw [bind_of_ok hm₁] at hlen ⊢
    have hle := (hcf a₁ s₁' (terminated_of_suffix hsuffix hs)).length_le
    obtain ⟨hv, hb⟩ := hm (Nat.lt_of_lt_of_le hlen hle) a₂ s₂' hm₂
    exact hf a₁ a₂ s₁' s₂' hv hb hlen b₂ s₂'' hf₂
  | error d s₁' =>
    rw [hm₁] at hm
    rw [bind_of_error hm₁] at hlen ⊢
    exact hm hlen a₂ s₂' hm₂

theorem Led.map {m₁ m₂ : Parse α} {g₁ g₂ : α → β} {view' : β → δ}
    (hm : Led u₁ u₂ k view (m₁ s₁) (m₂ s₂)) (hs : Terminated s₁.input.toList)
    (hc : Consumes m₁) (hg : ∀ a₁ a₂, view a₁ = view a₂ → view' (g₁ a₁) = view' (g₂ a₂)) :
    Led u₁ u₂ k view' ((m₁ >>= fun a => pure (g₁ a)) s₁) ((m₂ >>= fun a => pure (g₂ a)) s₂) :=
  hm.bind hs hc (fun a => consumes_pure (g₁ a)) fun a₁ a₂ _ _ hv hb => led_pure (hg a₁ a₂ hv) hb

end Leads

/-! ### Operands -/

theorem resolve_cases (o : ParseSettings) (t : Token) (x : String) (s : ParseState) :
    (∃ offset slots, Parse.resolve o t x s = .ok offset { s with slots := slots }) ∨
      ∃ d, Parse.resolve o t x s = .error d s ∧ d.cause.isSyntax = false := by
  rw [Parse.resolve]
  cases hx : s.slots.lookup? x with
  | some slot =>
    rw [SlotTable.resolve_of_some hx]
    exact .inl ⟨_, _, rfl⟩
  | none =>
    rw [SlotTable.resolve_of_none hx]
    by_cases hfull : s.slots.capacity ≤ s.slots.size
    · rw [if_pos hfull]
      exact .inr ⟨_, rfl, rfl⟩
    · rw [if_neg hfull]
      exact .inl ⟨_, _, rfl⟩

section Rules

variable {o₁ o₂ : ParseSettings} {u₁ u₂ : List Token} {k : Nat} {s₁ s₂ : ParseState}

theorem leads_expect (k : Nat) (m : Mark) (description : String) :
    Leads k (fun _ => ()) (Parse.expect o₁ m description) (Parse.expect o₂ m description) := by
  refine leads_of_head sound_expect.consumes fun j hj u₁ u₂ s₁ s₂ hb hh hnext => ?_
  by_cases hm : s₁.input.head.kind = .mark m
  · rw [expect_of_kind hm, expect_of_kind (hh ▸ hm)]
    exact led_pure rfl ((hnext (Token.isEnd_of_mark hm)).mono (Nat.le_succ j))
  · rw [expect_of_ne (s := s₂) (hh ▸ hm)]
    exact led_error

theorem led_name {x : String} {t : Token} {l : Option Location} (hb : Beside u₁ u₂ k s₁ s₂) :
    Led u₁ u₂ k Node.isVariable
      ((do let offset ← Parse.resolve o₁ t x; pure (.var x offset l) : Parse Node) s₁)
      ((do let offset ← Parse.resolve o₂ t x; pure (.var x offset l) : Parse Node) s₂) := by
  obtain ⟨off₂, slots₂, h₂⟩ | ⟨d₂, h₂, -⟩ := resolve_cases o₂ t x s₂
  · rw [bind_of_ok h₂]
    obtain ⟨off₁, slots₁, h₁⟩ | ⟨d₁, h₁, hd⟩ := resolve_cases o₁ t x s₁
    · rw [bind_of_ok h₁]
      exact led_pure rfl ⟨hb.common, hb.left, hb.right⟩
    · rw [bind_of_error h₁]
      exact fun _ _ _ _ => hd
  · rw [bind_of_error h₂]
    exact led_error

section Levels

variable {inner₁ inner₂ : Parse Node} (hs : Sound true (fun σ => Derives σ .expression) inner₁)
  (hi : Leads k Node.isVariable inner₁ inner₂)
include hs hi

theorem leads_parens : Leads k Node.isVariable
    (do let e ← inner₁; Parse.expect o₁ .closeParen "')'"; pure e)
    (do let e ← inner₂; Parse.expect o₂ .closeParen "')'"; pure e) := by
  intro j hj u₁ u₂ s₁ s₂ hb
  refine (hi j hj u₁ u₂ s₁ s₂ hb).bind hb.left hs.consumes
    (fun e => sound_expect.consumes.bind fun _ => consumes_pure e) fun e₁ e₂ s₁ s₂ hv hb => ?_
  exact (leads_expect j _ _ j (Nat.le_refl j) u₁ u₂ s₁ s₂ hb).map hb.left sound_expect.consumes
    fun _ _ _ => hv

theorem leads_primary :
    Leads (k + 1) Node.isVariable (Grammar.primary o₁ inner₁) (Grammar.primary o₂ inner₂) := by
  refine leads_of_head (sound_primary hs).consumes fun j hj u₁ u₂ s₁ s₂ hb hh hnext => ?_
  have hle := Nat.le_succ j
  cases hl : s₁.input.head.lexeme with
  | number v =>
    rw [primary_of_number hl, primary_of_number (hh ▸ hl)]
    exact led_pure rfl ((hnext (Token.isEnd_of_number hl)).mono hle)
  | identifier x =>
    rw [primary_of_identifier hl, primary_of_identifier (hh ▸ hl), hh]
    exact led_name ((hnext (Token.isEnd_of_identifier hl)).mono hle)
  | endOfInput =>
    have hk : s₂.input.head.kind = .endOfInput := by rw [hh, Token.kind, hl]; rfl
    rw [primary_of_other (s := s₂) (by simp [hk]) (by simp [hk]) (by simp [hk])]
    exact led_error
  | mark m v =>
    have hk₁ : s₁.input.head.kind = .mark m := by rw [Token.kind, hl]; rfl
    have hk₂ : s₂.input.head.kind = .mark m := hh ▸ hk₁
    by_cases hm : m = .openParen
    · subst hm
      rw [primary_of_openParen hk₁, primary_of_openParen hk₂]
      have hb' := hnext (Token.isEnd_of_mark hk₁)
      exact (leads_parens hs hi j (by omega) u₁ u₂ _ _ hb').mono hle
    · rw [primary_of_other (s := s₂) (by simp [hk₂]) (by simp [hk₂]) (by simp [hk₂, hm])]
      exact led_error

theorem leads_unary :
    Leads (k + 1) Node.isVariable (Grammar.unary o₁ inner₁) (Grammar.unary o₂ inner₂) := by
  refine leads_of_head (sound_unary hs).consumes fun j hj u₁ u₂ s₁ s₂ hb hh hnext => ?_
  have hle := Nat.le_succ j
  have hp : Leads (k + 1) Node.isVariable (Grammar.primary o₁ inner₁)
      (Grammar.primary o₂ inner₂) := leads_primary hs hi
  by_cases hplus : s₁.input.head.kind = .mark .plus
  · rw [unary_of_plus hplus, unary_of_plus (hh ▸ hplus)]
    exact (hp j (by omega) u₁ u₂ _ _ (hnext (Token.isEnd_of_mark hplus))).mono hle
  by_cases hminus : s₁.input.head.kind = .mark .minus
  · rw [unary_of_minus hminus, unary_of_minus (hh ▸ hminus)]
    have hb' := hnext (Token.isEnd_of_mark hminus)
    refine Led.mono ?_ hle
    exact (hp j (by omega) u₁ u₂ _ _ hb').map hb'.left (sound_primary hs).consumes
      fun _ _ _ => rfl
  · rw [unary_of_other hplus hminus, unary_of_other (hh ▸ hplus) (hh ▸ hminus)]
    exact hp (j + 1) hj u₁ u₂ s₁ s₂ hb

end Levels

/-! ### Expressions -/

theorem Join.isVariable_node (join : Join) (x y : Node) : (join.node x y).isVariable = false := by
  rw [Join.node]
  split <;> rfl

section Chains

variable {marks : Mark → Option Join} {n below : Nonterminal} {operand₁ operand₂ : Parse Node}
  (hn : Operands n below) (hf : Follows marks n)
  (hs : Sound false (fun σ => Derives σ below) operand₁)
  (ho : Leads k Node.isVariable operand₁ operand₂)
include hn hf hs ho

theorem leads_chainFrom {i fuel₁ fuel₂ : Nat} {e₁ e₂ : Node} (hi : i ≤ k) (h₁ : i ≤ fuel₁)
    (h₂ : i ≤ fuel₂) (hv : e₁.isVariable = e₂.isVariable) :
    Leads i Node.isVariable (Grammar.chainFrom marks operand₁ fuel₁ e₁)
      (Grammar.chainFrom marks operand₂ fuel₂ e₂) := by
  have hc fuel e := (sound_chainFrom hn hf hs fuel e).consumes
  induction i generalizing fuel₁ fuel₂ e₁ e₂ with
  | zero => exact leads_of_head (hc _ _) fun j hj => absurd hj (Nat.not_lt_zero j)
  | succ i ih =>
    obtain ⟨fuel₁, rfl⟩ : ∃ f, fuel₁ = f + 1 := ⟨fuel₁ - 1, by omega⟩
    obtain ⟨fuel₂, rfl⟩ : ∃ f, fuel₂ = f + 1 := ⟨fuel₂ - 1, by omega⟩
    refine leads_of_head (hc _ _) fun j hj u₁ u₂ s₁ s₂ hb hh hnext => ?_
    cases hjoin : s₁.input.head.kind.join? marks with
    | none =>
      rw [chainFrom_of_none hjoin, chainFrom_of_none (hh ▸ hjoin)]
      exact led_pure hv hb
    | some join =>
      obtain ⟨m, hm, -⟩ := Kind.exists_mark_of_join? hjoin
      have hb' := hnext (Token.isEnd_of_mark hm)
      rw [chainFrom_of_some hjoin, chainFrom_of_some (hh ▸ hjoin)]
      refine Led.mono ?_ (Nat.le_succ j)
      refine (ho j (by omega) u₁ u₂ _ _ hb').bind hb'.left hs.consumes (fun e => hc _ _)
        fun e₁' e₂' s₁ s₂ _ hb => ?_
      have hfuel₁ : i ≤ fuel₁ := by omega
      have hfuel₂ : i ≤ fuel₂ := by omega
      have hnode : (join.node e₁ e₁').isVariable = (join.node e₂ e₂').isVariable :=
        (join.isVariable_node e₁ e₁').trans (join.isVariable_node e₂ e₂').symm
      exact ih (by omega) hfuel₁ hfuel₂ hnode j (by omega) u₁ u₂ s₁ s₂ hb

theorem leads_chain : Leads k Node.isVariable (Grammar.chain marks operand₁)
    (Grammar.chain marks operand₂) := by
  intro j hj u₁ u₂ s₁ s₂ hb
  -- The bounds of the two chains differ, but both are as large as the common part.
  obtain ⟨i, hij, h₁, h₂, hb⟩ := hb.exists_le_length
  rw [chain_eq, chain_eq]
  refine Led.mono ?_ hij
  refine (ho i (by omega) u₁ u₂ s₁ s₂ hb).bind hb.left hs.consumes
    (fun e => (sound_chainFrom hn hf hs _ e).consumes) fun e₁ e₂ s₁' s₂' hv hb' => ?_
  exact leads_chainFrom hn hf hs ho (by omega) h₁ h₂ hv i (Nat.le_refl i) u₁ u₂ s₁' s₂' hb'

end Chains

section Assignments

variable {inner₁ inner₂ : Parse Node} (hs : Sound true (fun σ => Derives σ .expression) inner₁)
include hs

theorem consumes_afterTarget (target : Node) : Consumes (Grammar.afterTarget o₁ inner₁ target) := by
  intro s hterm
  by_cases hm : s.input.head.kind = .mark .assign
  · have hsuffix : s.next.input.toList <:+ s.input.toList :=
      ⟨[_], (s.toList_next hterm (Token.isEnd_of_mark hm)).symm⟩
    cases hv : target.isVariable with
    | true =>
      rw [afterTarget_of_variable hm hv]
      refine List.IsSuffix.trans ?_ hsuffix
      exact (hs.consumes.bind fun _ => consumes_pure _) _ (terminated_of_suffix hsuffix hterm)
    | false =>
      rw [afterTarget_of_not_variable hm hv]
      exact hsuffix
  · rw [afterTarget_of_ne hm]
    exact List.suffix_rfl

variable (hi : Leads k Node.isVariable inner₁ inner₂)
include hi

theorem leads_afterTarget {e₁ e₂ : Node} (hv : e₁.isVariable = e₂.isVariable) :
    Leads (k + 1) Node.isVariable (Grammar.afterTarget o₁ inner₁ e₁) (Grammar.afterTarget o₂ inner₂ e₂) := by
  refine leads_of_head (consumes_afterTarget hs e₁) fun j hj u₁ u₂ s₁ s₂ hb hh hnext => ?_
  by_cases hm : s₁.input.head.kind = .mark .assign
  · have hb' := hnext (Token.isEnd_of_mark hm)
    cases hv₂ : e₂.isVariable with
    | true =>
      rw [afterTarget_of_variable hm (hv.trans hv₂), afterTarget_of_variable (hh ▸ hm) hv₂]
      refine Led.mono ?_ (Nat.le_succ j)
      exact (hi j (by omega) u₁ u₂ _ _ hb').map hb'.left hs.consumes fun _ _ _ => rfl
    | false =>
      rw [afterTarget_of_not_variable (hh ▸ hm) hv₂]
      exact led_error
  · rw [afterTarget_of_ne hm, afterTarget_of_ne (hh ▸ hm)]
    exact led_pure hv hb

theorem leads_equality : Leads (k + 1) Node.isVariable (Grammar.equality o₁ inner₁)
    (Grammar.equality o₂ inner₂) := by
  have hterm : Leads (k + 1) Node.isVariable (Grammar.term o₁ inner₁) (Grammar.term o₂ inner₂) :=
    leads_chain .term follows_multiplicative (sound_unary hs) (leads_unary hs hi)
  have hadditive : Leads (k + 1) Node.isVariable (Grammar.additive o₁ inner₁)
      (Grammar.additive o₂ inner₂) :=
    leads_chain .additive follows_additive (sound_term hs) hterm
  have hrelational : Leads (k + 1) Node.isVariable (Grammar.relational o₁ inner₁)
      (Grammar.relational o₂ inner₂) :=
    leads_chain .relational follows_relational (sound_additive hs) hadditive
  exact leads_chain .equality follows_equality (sound_relational hs) hrelational

theorem leads_assignment : Leads (k + 1) Node.isVariable (Grammar.assignment o₁ inner₁)
    (Grammar.assignment o₂ inner₂) := by
  intro j hj u₁ u₂ s₁ s₂ hb
  rw [assignment_eq, assignment_eq]
  exact (leads_equality hs hi j hj u₁ u₂ s₁ s₂ hb).bind hb.left (sound_equality hs).consumes
    (consumes_afterTarget hs) fun e₁ e₂ s₁ s₂ hv hb =>
      leads_afterTarget hs hi hv j hj u₁ u₂ s₁ s₂ hb

end Assignments

theorem leads_expressionWithin {n₁ n₂ : Nat} (h₁ : k ≤ n₁) (h₂ : k ≤ n₂) :
    Leads k Node.isVariable (Grammar.expressionWithin o₁ n₁) (Grammar.expressionWithin o₂ n₂) := by
  induction k generalizing n₁ n₂ with
  | zero =>
    exact leads_of_head (sound_expressionWithin n₁).consumes
      fun j hj => absurd hj (Nat.not_lt_zero j)
  | succ k ih =>
    obtain ⟨n₁, rfl⟩ : ∃ n, n₁ = n + 1 := ⟨n₁ - 1, by omega⟩
    obtain ⟨n₂, rfl⟩ : ∃ n, n₂ = n + 1 := ⟨n₂ - 1, by omega⟩
    exact leads_assignment (sound_expressionWithin n₁) (ih (by omega) (by omega))

theorem leads_expression (k : Nat) :
    Leads k Node.isVariable (Grammar.expression o₁) (Grammar.expression o₂) := by
  intro j hj u₁ u₂ s₁ s₂ hb
  obtain ⟨i, hij, h₁, h₂, hb⟩ := hb.exists_le_length
  have hinner : Leads i Node.isVariable (Grammar.expressionWithin o₁ s₁.input.length)
      (Grammar.expressionWithin o₂ s₂.input.length) := leads_expressionWithin h₁ h₂
  rw [expression_eq, expression_eq]
  refine Led.mono ?_ hij
  exact leads_assignment (sound_expressionWithin _) hinner i (Nat.le_succ i) u₁ u₂ s₁ s₂ hb

/-! ### Statements -/

theorem leads_statement (k : Nat) :
    Leads k (fun _ => ()) (Grammar.statement o₁) (Grammar.statement o₂) := by
  refine leads_of_head sound_statement.consumes fun j hj u₁ u₂ s₁ s₂ hb hh hnext => ?_
  by_cases hm : s₁.input.head.kind = .mark .keywordReturn
  · have hb' := hnext (Token.isEnd_of_mark hm)
    rw [statement_of_return hm, statement_of_return (hh ▸ hm)]
    refine Led.mono ?_ (Nat.le_succ j)
    exact (leads_expression j j (Nat.le_refl j) u₁ u₂ _ _ hb').map hb'.left
      sound_expression.consumes fun _ _ _ => rfl
  · rw [statement_of_other hm, statement_of_other (hh ▸ hm)]
    exact (leads_expression _ _ (Nat.le_refl (j + 1)) u₁ u₂ s₁ s₂ hb).forget

theorem consumes_afterStatement (fuel count : Nat) (n : Node) :
    Consumes (afterStatement o₁ fuel count n) := by
  intro s hs
  cases hend : s.input.head.isEnd with
  | true =>
    rw [afterStatement_of_isEnd fuel count n hend]
    exact List.suffix_rfl
  | false =>
    rw [afterStatement_of_not_isEnd fuel count n hend]
    exact (sound_expect.consumes.bind fun _ =>
      (sound_statementsWithin fuel (count + 1)).consumes.bind fun _ => consumes_pure _) s hs

theorem leads_afterStatement {fuel₁ fuel₂ count₁ count₂ : Nat} (n₁ n₂ : Node)
    (h : Leads k (fun _ => ()) (Grammar.statementsWithin o₁ fuel₁ (count₁ + 1))
      (Grammar.statementsWithin o₂ fuel₂ (count₂ + 1))) :
    Leads (k + 1) (fun _ => ()) (afterStatement o₁ fuel₁ count₁ n₁)
      (afterStatement o₂ fuel₂ count₂ n₂) := by
  refine leads_of_head (consumes_afterStatement _ _ _) fun j hj u₁ u₂ s₁ s₂ hb hh hnext => ?_
  cases hend : s₁.input.head.isEnd with
  | true =>
    rw [afterStatement_of_isEnd _ _ _ hend, afterStatement_of_isEnd _ _ _ (hh ▸ hend)]
    exact led_pure rfl hb
  | false =>
    rw [afterStatement_of_not_isEnd _ _ _ hend, afterStatement_of_not_isEnd _ _ _ (hh ▸ hend)]
    by_cases hm : s₁.input.head.kind = .mark .semicolon
    · rw [bind_of_ok (expect_of_kind hm _), bind_of_ok (expect_of_kind (hh ▸ hm) _)]
      have hb' := hnext hend
      refine Led.mono ?_ (Nat.le_succ j)
      exact (h j (by omega) u₁ u₂ _ _ hb').map hb'.left (sound_statementsWithin _ _).consumes
        fun _ _ _ => rfl
    · rw [bind_of_error (s := s₂) (expect_of_ne (hh ▸ hm) _)]
      exact led_error

theorem leads_statementsWithin {fuel₁ fuel₂ : Nat} (count₁ count₂ : Nat) (h₁ : k ≤ fuel₁)
    (h₂ : k ≤ fuel₂) :
    Leads k (fun _ => ()) (Grammar.statementsWithin o₁ fuel₁ count₁)
      (Grammar.statementsWithin o₂ fuel₂ count₂) := by
  have hc fuel count := (sound_statementsWithin (o := o₁) fuel count).consumes
  induction k generalizing fuel₁ fuel₂ count₁ count₂ with
  | zero => exact leads_of_head (hc _ _) fun j hj => absurd hj (Nat.not_lt_zero j)
  | succ k ih =>
    obtain ⟨fuel₁, rfl⟩ : ∃ f, fuel₁ = f + 1 := ⟨fuel₁ - 1, by omega⟩
    obtain ⟨fuel₂, rfl⟩ : ∃ f, fuel₂ = f + 1 := ⟨fuel₂ - 1, by omega⟩
    replace h₁ : k ≤ fuel₁ := by omega
    replace h₂ : k ≤ fuel₂ := by omega
    refine leads_of_head (hc _ _) fun j hj u₁ u₂ s₁ s₂ hb hh hnext => ?_
    cases hend : s₁.input.head.isEnd with
    | true =>
      rw [statementsWithin_of_isEnd _ _ hend, statementsWithin_of_isEnd _ _ (hh ▸ hend)]
      exact led_pure rfl hb
    | false =>
      by_cases hm : s₁.input.head.kind = .mark .semicolon
      · rw [statementsWithin_of_semicolon _ _ hm, statementsWithin_of_semicolon _ _ (hh ▸ hm)]
        exact (ih count₁ count₂ h₁ h₂ j (by omega) u₁ u₂ _ _ (hnext hend)).mono (Nat.le_succ j)
      · rw [statementsWithin_of_statement _ _ hend hm,
          statementsWithin_of_statement _ _ (hh ▸ hend) (hh ▸ hm)]
        by_cases hmax₂ : o₂.maxStatements ≤ count₂
        · rw [if_pos hmax₂]
          exact led_error
        by_cases hmax₁ : o₁.maxStatements ≤ count₁
        · rw [if_pos hmax₁]
          exact fun _ _ _ _ => rfl
        rw [if_neg hmax₁, if_neg hmax₂]
        refine (leads_statement _ _ (Nat.le_refl (j + 1)) u₁ u₂ s₁ s₂ hb).bind hb.left
          sound_statement.consumes (consumes_afterStatement _ _) fun n₁ n₂ s₁ s₂ _ hb => ?_
        exact leads_afterStatement n₁ n₂ (ih _ _ h₁ h₂) (j + 1) hj u₁ u₂ s₁ s₂ hb

end Rules

/-! ### Syntax errors -/

section Errors

variable {o o' : ParseSettings} {table table' : SlotTable} {input : TokenStream} {P : Program}
  {d : Diagnostic} {s' : ParseState} {k : Nat}

/-- What was read up to a syntax error begins a list that is accepted. -/
theorem exists_accepted_of_error (hr : table.Regular) {p : List Token}
    (hp : Reads ⟨input, table⟩ p s') (hfits : table.Fits p)
    (hq : ∃ q, Plain q ∧ ∀ σ, s'.slots.Resolves σ → ∃ ns, DerivesWithin o 0 σ (p ++ q) ns) :
    ∃ w P, p <+: w ∧ (parseTokens o table w).outcome = .ok P := by
  obtain ⟨q, hplain, hd⟩ := hq
  have hreg : s'.slots.Regular := hp.slots ▸ hr.enter p
  obtain ⟨ns, hns, hmax⟩ := hd _ hreg.agrees.resolves
  have hslots : table.enter (p ++ q) = s'.slots := by
    rw [SlotTable.enter_append, SlotTable.enter_of_forall hplain, hp.slots]
  refine ⟨p ++ q ++ [⟨.endOfInput, "", someLocation⟩], _, ⟨_, (List.append_assoc _ _ _).symm⟩,
    parseTokens_of_derivesAll hns rfl ?_ (hslots ▸ hreg.agrees) (by simpa using hmax)⟩
  exact SlotTable.fits_append.mpr ⟨hfits, SlotTable.fits_of_forall hplain⟩

/-- No list is accepted that begins with what was read up to a syntax error and the token there. -/
theorem parseTokens_ne_ok_of_error (hend : Terminated input.toList = true)
    (hfail : Grammar.statementsWithin o input.length 0 ⟨input, table⟩ = .error d s')
    (hd : d.cause.isSyntax = true) (hk : input.length = k + s'.input.length) {w : List Token}
    (hw : input.toList.take (k + 1) <+: w) : (parseTokens o' table' w).outcome ≠ .ok P := by
  intro hok
  obtain ⟨input', rfl, hend'⟩ := exists_stream_of_parseTokens hok (by simp)
  obtain ⟨s₂, hs₂, -⟩ := exists_of_parseTokens_ok hend' hok
  obtain ⟨u, hu⟩ := hw
  have hb : Beside (input.toList.drop (k + 1)) u (input.toList.take (k + 1)).length
      ⟨input, table⟩ ⟨input', table'⟩ :=
    ⟨⟨_, Nat.le_refl _, (List.take_append_drop _ _).symm, hu.symm⟩, hend, hend'⟩
  obtain ⟨j, -, h₁, h₂, hb⟩ := hb.exists_le_length
  have hled : Led _ u j (fun _ => ()) (Grammar.statementsWithin o input.length 0 ⟨input, table⟩)
      (Grammar.statementsWithin o' input'.length 0 ⟨input', table'⟩) :=
    leads_statementsWithin 0 0 h₁ h₂ j (Nat.le_refl j) _ _ _ _ hb
  rw [hfail] at hled
  have hlen : (input.toList.drop (k + 1)).length < s'.input.toList.length := by
    rw [List.length_drop]
    have hi : input.toList.length = input.length := rfl
    have hs : s'.input.toList.length = s'.input.length := rfl
    have hpos : 0 < s'.input.length := Nat.succ_pos _
    omega
  have hfalse : d.cause.isSyntax = false := hled hlen _ _ hs₂
  rw [hd] at hfalse
  cases hfalse

end Errors

/-- A syntax error is reported at the earliest token that admits no completion: what comes before it
begins a list that is accepted within the same limits, and together with it begins no list that is
accepted, within any limits. -/
theorem syntaxError_at_earliest_token (o : ParseSettings) {wordSize capacity : Int}
    {table : SlotTable} (htable : SlotTable.create wordSize capacity = .ok table)
    {tokens : List Token} (hend : Terminated tokens = true) {d : Diagnostic}
    (hfail : (parseTokens o table tokens).outcome = .error (.diagnostic d))
    (hd : d.cause.isSyntax = true) :
    ∃ (k : Nat) (t : Token), tokens[k]? = some t ∧ d.location = some t.location ∧
      ((⟨tokens, 0⟩ : Cursor).parse (Grammar.program o) table).2 = ⟨tokens, k⟩ ∧
      (∃ w P, tokens.take k <+: w ∧ (parseTokens o table w).outcome = .ok P) ∧
      ∀ w, tokens.take (k + 1) <+: w →
        ∀ o' table' P, (parseTokens o' table' w).outcome ≠ .ok P := by
  have hr : table.Regular := by
    obtain ⟨-, -, rfl⟩ := SlotTable.create_eq_ok htable
    exact SlotTable.regular_empty _ _
  obtain ⟨input, rfl⟩ := TokenStream.exists_of_terminated hend
  obtain ⟨s', hs'⟩ := exists_of_parseTokens_error hend hfail
  have hsound := sound_statementsWithin (o := o) input.length 0 ⟨input, table⟩ hend
  rw [SoundAt, hs'] at hsound
  obtain ⟨p, hstop⟩ := hsound
  have hp := hstop.reads
  have htokens : input.toList = p ++ s'.input.toList := hp.input
  have hlen : input.length = p.length + s'.input.length := hp.length
  refine ⟨p.length, s'.input.head, ?_, hstop.located hd, ?_, ?_, fun w hw o' table' P => ?_⟩
  · rw [htokens, List.getElem?_append_right (Nat.le_refl _), Nat.sub_self]
    rfl
  · rw [Cursor.parse_of_error (program_of_error hs'), hlen, Nat.add_sub_cancel, Int.zero_add]
  · rw [htokens, List.take_left]
    exact exists_accepted_of_error hr hp (hstop.fits hd) (hstop.completed hd)
  · exact parseTokens_ne_ok_of_error hend hs' hd hlen hw

/-- An operand in parentheses that the input breaks off, where there is more behind the break. -/
theorem syntaxError_unclosed_operand :
    let tokens := tokenRow [.identifier "a", .mark .assign none, .mark .openParen none,
      .identifier "a", .endOfInput, .mark .closeParen none, .endOfInput]
    (∃ w P, tokens.take 4 <+: w ∧ (parseTokens ⟨[], 1⟩ ⟨8, 1, [], 0⟩ w).outcome = .ok P) ∧
      ∀ w, tokens.take 5 <+: w → ∀ o table P, (parseTokens o table w).outcome ≠ .ok P := by
  intro tokens
  have htest : (match (parseTokens ⟨[], 1⟩ ⟨8, 1, [], 0⟩ tokens).outcome with
      | .ok _ => false
      | .error f => decide (f = .diagnostic ⟨.missingToken (some "')'") (some "end of input"),
          some ⟨none, 1, 5, 4⟩, none⟩)) = true := by
    decide +kernel
  have hcursor : ((⟨tokens, 0⟩ : Cursor).parse (Grammar.program ⟨[], 1⟩) ⟨8, 1, [], 0⟩).2.pos = 4 := by
    decide +kernel
  have htable : SlotTable.create 8 1 = .ok ⟨8, 1, [], 0⟩ := rfl
  have hend : Terminated tokens = true := rfl
  cases hfail : (parseTokens ⟨[], 1⟩ ⟨8, 1, [], 0⟩ tokens).outcome with
  | ok P =>
    rw [hfail] at htest
    cases htest
  | error f =>
    rw [hfail] at htest
    obtain rfl := of_decide_eq_true htest
    obtain ⟨k, -, -, -, hk, hviable, hdead⟩ :=
      syntaxError_at_earliest_token ⟨[], 1⟩ htable hend hfail rfl
    rw [hk] at hcursor
    obtain rfl : k = 4 := Int.ofNat_inj.mp hcursor
    exact ⟨hviable, hdead⟩

end WordLang
