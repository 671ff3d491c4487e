import WordLang.Proofs.Grammar.Derivation
import WordLang.Proofs.Grammar.Equations
import WordLang.Proofs.Slots

/-! What the rules of the parser have read derives what they return, whatever the table of slots was
before. Where a rule stops at a token that the grammar does not admit, what it has read can be
completed without a new name; where it rejects what stands left of an equals sign, it stops behind
that sign. -/
namespace WordLang

/-- Causes that tell of a token which the grammar does not admit. -/
def Cause.isSyntax : Cause → Bool
  | .missingToken _ _ | .missingOperand _ => true
  | _ => false

/-! ### Streams -/

theorem TokenStream.tail_ne_nil {s : TokenStream} (hs : Terminated s.toList)
    (hh : s.head.isEnd = false) : s.tail ≠ [] := by
  intro ht
  rw [Terminated, TokenStream.toList, ht] at hs
  simp [hh] at hs

theorem TokenStream.toList_ne_nil (s : TokenStream) : s.toList ≠ [] := List.cons_ne_nil _ _

theorem terminated_append {p q : List Token} (hq : q ≠ []) :
    Terminated (p ++ q) = Terminated q := by
  rw [Terminated, Terminated, List.getLast?_append_of_ne_nil _ hq]

/-- A rule leads from one state to another over some tokens. None of them is the end of input, and
their names are in the table then. -/
structure Reads (s : ParseState) (p : List Token) (s' : ParseState) : Prop where
  input : s.input.toList = p ++ s'.input.toList
  isEnd : ∀ t ∈ p, t.isEnd = false
  slots : s'.slots = s.slots.enter p

namespace Reads

variable {s s' s'' : ParseState} {p q : List Token}

theorem refl (s : ParseState) : Reads s [] s := ⟨rfl, by simp, rfl⟩

theorem trans (h : Reads s p s') (h' : Reads s' q s'') : Reads s (p ++ q) s'' where
  input := by rw [h.input, h'.input, List.append_assoc]
  isEnd := List.forall_mem_append.mpr ⟨h.isEnd, h'.isEnd⟩
  slots := by rw [h'.slots, h.slots, SlotTable.enter_append]

theorem terminated (h : Reads s p s') (hs : Terminated s.input.toList) :
    Terminated s'.input.toList := by
  rwa [h.input, terminated_append s'.input.toList_ne_nil] at hs

theorem length (h : Reads s p s') : s.input.length = p.length + s'.input.length := by
  have := congrArg List.length h.input
  rwa [List.length_append] at this

theorem resolves (h : Reads s p s') {σ : String → Nat} (hσ : s'.slots.Resolves σ) :
    s.slots.Resolves σ := by
  rw [h.slots] at hσ
  exact hσ.of_enter

theorem fits_append (h : Reads s p s') (hp : s.slots.Fits p) (hq : s'.slots.Fits q) :
    s.slots.Fits (p ++ q) :=
  SlotTable.fits_append.mpr ⟨hp, h.slots ▸ hq⟩

end Reads

theorem ParseState.toList_next {s : ParseState} (hs : Terminated s.input.toList)
    (hh : s.input.head.isEnd = false) : s.input.toList = s.input.head :: s.next.input.toList :=
  TokenStream.toList_advance hh (TokenStream.tail_ne_nil hs hh)

/-- The current token is passed, and its name is in the table then. -/
theorem ParseState.reads_enroll {s : ParseState} (hs : Terminated s.input.toList)
    (hh : s.input.head.isEnd = false) :
    Reads s [s.input.head] { s.next with slots := s.slots.enroll s.input.head } :=
  ⟨s.toList_next hs hh, by simpa using hh, rfl⟩

theorem ParseState.reads_next {s : ParseState} (hs : Terminated s.input.toList)
    (hh : s.input.head.isEnd = false) (hn : s.input.head.name? = none) :
    Reads s [s.input.head] s.next := by
  have hread := s.reads_enroll hs hh
  rwa [SlotTable.enroll_of_name?_none hn] at hread

theorem Token.name?_of_mark {t : Token} {m : Mark} (h : t.kind = .mark m) : t.name? = none := by
  rw [Token.kind] at h
  rw [Token.name?]
  cases hl : t.lexeme with
  | identifier x => rw [hl] at h; cases h
  | _ => rfl

theorem ParseState.reads_mark {s : ParseState} {m : Mark} (hs : Terminated s.input.toList)
    (hm : s.input.head.kind = .mark m) :
    Reads s [s.input.head] s.next ∧ s.slots.Fits [s.input.head] :=
  have hn := Token.name?_of_mark hm
  ⟨s.reads_next hs (Token.isEnd_of_mark hm) hn, SlotTable.accepts_of_name?_none hn, trivial⟩

/-! ### Rejected targets -/

/-- The marks behind which an expression starts. -/
def Mark.openers : List Mark := [.openParen, .assign, .semicolon, .keywordReturn]

/-- A token behind which an expression starts. -/
def Token.startsExpression (t : Token) : Bool := t.kind ∈ Mark.openers.map Kind.mark

/-- Behind these tokens an expression starts: the last of them tells so, or there are none and an
expression may start right away. -/
def Begins (atOnce : Bool) (front : List Token) : Prop :=
  (front = [] ∧ atOnce = true) ∨ ∃ t, front.getLast? = some t ∧ t.startsExpression = true

/-- The tokens end with an equals sign behind a whole left side that is no variable, and the
diagnostic has the place of that left side. -/
def Rejects (σ : String → Nat) (atOnce : Bool) (p : List Token) (d : Diagnostic) : Prop :=
  ∃ front target mark e, p = front ++ (target ++ [mark]) ∧ Begins atOnce front ∧
    Derives σ .equality target e ∧ e.isVariable = false ∧ mark.kind = .mark .assign ∧
    d.location = e.location

section Rejects

variable {σ : String → Nat} {atOnce atOnce' : Bool} {p q : List Token} {d : Diagnostic}

theorem begins_concat {t : Token} {m : Mark} (h : t.kind = .mark m) (hm : m ∈ Mark.openers) :
    Begins atOnce (p ++ [t]) := by
  refine .inr ⟨t, by simp, ?_⟩
  rw [Token.startsExpression, h]
  exact decide_eq_true (List.mem_map_of_mem hm)

theorem Begins.append (h : Begins atOnce' q) (hp : atOnce' = true → Begins atOnce p) :
    Begins atOnce (p ++ q) := by
  rcases h with ⟨rfl, h⟩ | ⟨t, ht, hstart⟩
  · rw [List.append_nil]
    exact hp h
  · exact .inr ⟨t, by rw [List.getLast?_append, ht]; rfl, hstart⟩

theorem Rejects.append (h : Rejects σ atOnce' q d) (hp : atOnce' = true → Begins atOnce p) :
    Rejects σ atOnce (p ++ q) d := by
  obtain ⟨front, target, mark, e, rfl, hfront, h⟩ := h
  exact ⟨p ++ front, target, mark, e, by simp, hfront.append hp, h⟩

end Rejects

/-! ### Sound rules -/

/-- A meaning of results: the tokens that stand for them, when names have given offsets. -/
abbrev Reading (α : Type) := (String → Nat) → List Token → α → Prop

/-- Tokens without names. -/
def Plain (q : List Token) : Prop := ∀ t ∈ q, t.name? = none

/-- How a rule stops that has read some tokens from one state to another. If it stops for its syntax,
it does so at the current token, and what it has read goes on to tokens for some result. If it rejects
a target, the tokens end with it; the flag tells whether the target may be at the front. -/
structure StopsAt {α : Type} (atOnce : Bool) (D : Reading α) (s : ParseState) (p : List Token)
    (d : Diagnostic) (s' : ParseState) : Prop where
  reads : Reads s p s'
  located : d.cause.isSyntax = true → d.location = some s'.input.head.location
  fits : d.cause.isSyntax = true → s.slots.Fits p
  completed : d.cause.isSyntax = true →
    ∃ q, Plain q ∧ ∀ σ, s'.slots.Resolves σ → ∃ a, D σ (p ++ q) a
  rejects : d.cause = .targetNotVariable → ∀ σ, s'.slots.Resolves σ → Rejects σ atOnce p d

/-- A rule that succeeds has read tokens for its result, and one that fails has read tokens too. -/
def SoundAt {α : Type} (atOnce : Bool) (D : Reading α) (r : Parse α) (s : ParseState) : Prop :=
  match r s with
  | .ok a s' => ∃ p, Reads s p s' ∧ s.slots.Fits p ∧ ∀ σ, s'.slots.Resolves σ → D σ p a
  | .error d s' => ∃ p, StopsAt atOnce D s p d s'

/-- A rule that is sound wherever it starts. -/
def Sound {α : Type} (atOnce : Bool) (D : Reading α) (r : Parse α) : Prop :=
  ∀ s : ParseState, Terminated s.input.toList → SoundAt atOnce D r s

/-- The state in which a rule ends, well or not. -/
def finalState {α : Type} : EStateM.Result Diagnostic ParseState α → ParseState
  | .ok _ s => s
  | .error _ s => s

section Sound

variable {α β : Type} {atOnce atOnce' : Bool} {D : Reading α} {F : Reading β} {s : ParseState}
  {m : Parse α}

theorem Sound.exists_reads (h : Sound atOnce D m) (hs : Terminated s.input.toList) :
    ∃ p, Reads s p (finalState (m s)) := by
  have hsound := h s hs
  rw [SoundAt] at hsound
  cases hm : m s with
  | ok a s' =>
    rw [hm] at hsound
    obtain ⟨p, hp, -⟩ := hsound
    exact ⟨p, hp⟩
  | error d s' =>
    rw [hm] at hsound
    obtain ⟨p, hstop⟩ := hsound
    exact ⟨p, hstop.reads⟩

theorem soundAt_pure {a : α} (h : ∀ σ, D σ [] a) : SoundAt atOnce D (pure a) s :=
  ⟨[], .refl s, trivial, fun σ _ => h σ⟩

/-- A rule stops at the current token for its syntax. -/
theorem soundAt_of_fail {o : ParseSettings} {cause : Cause}
    (h : m s = Parse.fail o s.input.head cause s) (hc : cause.isSyntax = true)
    (hd : ∃ q, Plain q ∧ ∀ σ, ∃ a, D σ q a) : SoundAt atOnce D m s := by
  rw [SoundAt, h]
  obtain ⟨q, hq, hd⟩ := hd
  refine ⟨[], .refl s, fun _ => rfl, fun _ => trivial, fun _ => ⟨q, hq, fun σ _ => hd σ⟩, ?_⟩
  rintro rfl
  cases hc

/-- A rule stops for something else than its syntax. -/
theorem soundAt_of_error {p : List Token} {d : Diagnostic} {s' : ParseState}
    (h : m s = .error d s') (hp : Reads s p s') (hc : d.cause.isSyntax = false)
    (hr : d.cause = .targetNotVariable → ∀ σ, s'.slots.Resolves σ → Rejects σ atOnce p d) :
    SoundAt atOnce D m s := by
  rw [SoundAt, h]
  refine ⟨p, hp, ?_, ?_, ?_, hr⟩ <;> simp [hc]

theorem SoundAt.congr {r : Parse α} (h : SoundAt atOnce D m s) (heq : r s = m s) :
    SoundAt atOnce D r s := by
  rwa [SoundAt, heq]

/-- A rule goes on as another one does behind some tokens. -/
theorem SoundAt.after {E : Reading β} {r r' : Parse β} {p : List Token} {s₁ : ParseState}
    (h : SoundAt atOnce' E r' s₁) (hp : Reads s p s₁) (hfit : s.slots.Fits p) (heq : r s = r' s₁)
    (hbegins : atOnce' = true → Begins atOnce p)
    (hseq : ∀ σ, s₁.slots.Resolves σ → ∀ q b, E σ q b → F σ (p ++ q) b) :
    SoundAt atOnce F r s := by
  rw [SoundAt] at h
  rw [SoundAt, heq]
  cases hr : r' s₁ with
  | ok b s₂ =>
    rw [hr] at h
    obtain ⟨q, hq, hfit', he⟩ := h
    exact ⟨p ++ q, hp.trans hq, hp.fits_append hfit hfit',
      fun σ hσ => hseq σ (hq.resolves hσ) q b (he σ hσ)⟩
  | error d s₂ =>
    rw [hr] at h
    obtain ⟨q, h⟩ := h
    refine ⟨p ++ q, hp.trans h.reads, h.located, fun hc => hp.fits_append hfit (h.fits hc),
      fun hc => ?_, fun hd σ hσ => (h.rejects hd σ hσ).append hbegins⟩
    obtain ⟨q', hplain, he⟩ := h.completed hc
    refine ⟨q', hplain, fun σ hσ => ?_⟩
    obtain ⟨b, hb⟩ := he σ hσ
    exact ⟨b, by rw [List.append_assoc]; exact hseq σ (h.reads.resolves hσ) _ b hb⟩

theorem SoundAt.imp {D' : Reading α} (h : SoundAt atOnce' D m s)
    (hbegins : atOnce' = true → atOnce = true) (hd : ∀ σ p a, D σ p a → D' σ p a) :
    SoundAt atOnce D' m s :=
  h.after (.refl s) trivial rfl (fun h' => .inl ⟨rfl, hbegins h'⟩) fun σ _ => hd σ

/-- One rule after another. Behind the first one no expression may start, and where it stops, a plain
ending has to do for the second. -/
theorem SoundAt.bind {E : α → Reading β} {f : α → Parse β} (hm : SoundAt atOnce D m s)
    (hs : Terminated s.input.toList) (hf : ∀ a, Sound false (E a) (f a))
    (hseq : ∀ σ p a q b, D σ p a → E a σ q b → F σ (p ++ q) b)
    (hend : ∃ q, Plain q ∧ ∀ σ p a, D σ p a → ∃ b, F σ (p ++ q) b) :
    SoundAt atOnce F (m >>= f) s := by
  rw [SoundAt] at hm
  cases hms : m s with
  | ok a s₁ =>
    rw [hms] at hm
    obtain ⟨p, hp, hfit, hd⟩ := hm
    exact (hf a s₁ (hp.terminated hs)).after hp hfit (bind_of_ok hms f) (by simp)
      fun σ hσ q b he => hseq σ p a q b (hd σ hσ) he
  | error d s' =>
    rw [hms] at hm
    obtain ⟨p, h⟩ := hm
    rw [SoundAt, bind_of_error hms]
    refine ⟨p, h.reads, h.located, h.fits, fun hc => ?_, h.rejects⟩
    obtain ⟨q, hq, hd⟩ := h.completed hc
    obtain ⟨q', hq', hlast⟩ := hend
    refine ⟨q ++ q', fun t ht => ?_, fun σ hσ => ?_⟩
    · exact (List.mem_append.mp ht).elim (hq t) (hq' t)
    · obtain ⟨a, ha⟩ := hd σ hσ
      rw [← List.append_assoc]
      exact hlast σ _ a ha

/-- What is made of a result stands for the same tokens. -/
theorem SoundAt.map (hm : SoundAt atOnce D m s) (hs : Terminated s.input.toList) (g : α → β)
    (hg : ∀ σ p a, D σ p a → F σ p (g a)) : SoundAt atOnce F (m >>= fun a => pure (g a)) s := by
  refine hm.bind (E := fun a _ q b => q = [] ∧ b = g a) hs
    (fun a s₁ _ => soundAt_pure fun _ => ⟨rfl, rfl⟩) ?_ ?_
  · rintro σ p a q b ha ⟨rfl, rfl⟩
    rw [List.append_nil]
    exact hg σ p a ha
  · refine ⟨[], by simp [Plain], fun σ p a ha => ⟨g a, ?_⟩⟩
    rw [List.append_nil]
    exact hg σ p a ha

section Mark

variable {E : Reading β} {r r' : Parse β} {mk : Mark} (hs : Terminated s.input.toList)
  (hm : s.input.head.kind = .mark mk) (heq : r s = r' s.next)
  (hseq : ∀ σ q b, E σ q b → F σ (s.input.head :: q) b)
include hs hm heq hseq

/-- The current token is a mark and is passed. -/
theorem Sound.mark (h : Sound false E r') : SoundAt atOnce F r s := by
  obtain ⟨hp, hfit⟩ := s.reads_mark hs hm
  exact (h s.next (hp.terminated hs)).after hp hfit heq (by simp) fun σ _ => hseq σ

/-- The current token is a mark behind which an expression starts. -/
theorem Sound.opening (h : Sound true E r') (hmk : mk ∈ Mark.openers) : SoundAt atOnce F r s := by
  obtain ⟨hp, hfit⟩ := s.reads_mark hs hm
  exact (h s.next (hp.terminated hs)).after hp hfit heq (fun _ => begins_concat (p := []) hm hmk)
    fun σ _ => hseq σ

end Mark

end Sound

/-! ### Operands -/

/-- Where completions stand. -/
def someLocation : Location := ⟨none, 1, 1, 0⟩

/-- A token that completes an operand. -/
def someNumber : Token := ⟨.number 0, "0", someLocation⟩

/-- A token that completes parentheses. -/
def someClose : Token := ⟨.mark .closeParen none, ")", someLocation⟩

theorem exists_primary : ∃ q, Plain q ∧ ∀ σ, ∃ e, Derives σ .primary q e :=
  ⟨[someNumber], by simp [Plain, someNumber, Token.name?], fun _ => ⟨_, .number rfl⟩⟩

variable {o : ParseSettings} {inner operand : Parse Node}

theorem sound_expect {m : Mark} {description : String} :
    Sound false (fun _ p (_ : Unit) => ∃ u : Token, u.kind = .mark m ∧ p = [u])
      (Parse.expect o m description) := by
  intro s hs
  by_cases hm : s.input.head.kind = .mark m
  · obtain ⟨hp, hfit⟩ := s.reads_mark hs hm
    rw [SoundAt, expect_of_kind hm]
    exact ⟨_, hp, hfit, fun _ _ => ⟨_, hm, rfl⟩⟩
  · refine soundAt_of_fail (expect_of_ne hm description) rfl
      ⟨[⟨.mark m none, "", someLocation⟩], ?_, fun _ => ⟨(), _, rfl, rfl⟩⟩
    simp [Plain, Token.name?]

section Operands

variable (hi : Sound true (fun σ => Derives σ .expression) inner)
include hi

theorem sound_parens :
    Sound true (fun σ p e => ∃ ts u, Derives σ .expression ts e ∧ u.kind = .mark .closeParen ∧
        p = ts ++ [u])
      (do let e ← inner; Parse.expect o .closeParen "')'"; pure e) := by
  intro s hs
  refine (hi s hs).bind
    (E := fun e _ p b => ∃ u : Token, u.kind = .mark .closeParen ∧ p = [u] ∧ b = e)
    hs (fun e s' hs' => ?_) ?_ ?_
  · refine (sound_expect s' hs').map hs' (fun _ => e) ?_
    rintro σ p a ⟨u, hu, rfl⟩
    exact ⟨u, hu, rfl, rfl⟩
  · rintro σ p e q b he ⟨u, hu, rfl, rfl⟩
    exact ⟨p, u, he, hu, rfl⟩
  · exact ⟨[someClose], by simp [Plain, someClose, Token.name?],
      fun σ p e he => ⟨e, p, someClose, he, rfl, rfl⟩⟩

theorem sound_primary : Sound false (fun σ => Derives σ .primary) (Grammar.primary o inner) := by
  intro s hs
  by_cases hm : s.input.head.kind = .mark .openParen
  · refine (sound_parens hi).opening hs hm (primary_of_openParen hm) ?_ (by decide)
    rintro σ q e ⟨ts, u, he, hu, rfl⟩
    exact .parens hm he hu
  cases hl : s.input.head.lexeme with
  | number v =>
    have hn : s.input.head.name? = none := by rw [Token.name?, hl]
    rw [SoundAt, primary_of_number hl]
    exact ⟨_, s.reads_next hs (Token.isEnd_of_number hl) hn,
      ⟨SlotTable.accepts_of_name?_none hn, trivial⟩, fun σ _ => .number hl⟩
  | identifier x =>
    have hx : s.input.head.name? = some x := by rw [Token.name?, hl]
    have hp := s.reads_enroll hs (Token.isEnd_of_identifier hl)
    by_cases ha : s.slots.Accepts s.input.head
    · obtain ⟨slot, hslot, hres⟩ := SlotTable.resolve_of_accepts hx ha
        (some s.input.head.location) (Text.lineAt? o.sourceLines s.input.head.location.line)
      have hok : Parse.resolve o s.input.head x s.next =
          .ok slot.offset { s.next with slots := s.slots.enroll s.input.head } := by
        rw [Parse.resolve, show s.next.slots = s.slots from rfl, hres]
      rw [SoundAt, primary_of_identifier hl, bind_of_ok hok]
      refine ⟨_, hp, ⟨ha, trivial⟩, fun σ hσ => ?_⟩
      rw [← hσ x slot hslot]
      exact .name hl
    · obtain ⟨hsame, d, hres, hcause⟩ := SlotTable.resolve_of_not_accepts hx ha
        (some s.input.head.location) (Text.lineAt? o.sourceLines s.input.head.location.line)
      have herr : Parse.resolve o s.input.head x s.next = .error d s.next := by
        rw [Parse.resolve, show s.next.slots = s.slots from rfl, hres]
        rfl
      rw [hsame] at hp
      exact soundAt_of_error ((primary_of_identifier hl).trans (bind_of_error herr _)) hp
        (by rw [hcause]; rfl) (by simp [hcause])
  | _ =>
    refine soundAt_of_fail (primary_of_other ?_ ?_ hm) rfl exists_primary <;>
      simp [Token.kind, hl, Lexeme.kind]

theorem sound_unary : Sound false (fun σ => Derives σ .unary) (Grammar.unary o inner) := by
  intro s hs
  by_cases hp : s.input.head.kind = .mark .plus
  · exact (sound_primary hi).mark hs hp (unary_of_plus hp) fun σ q e he => .plus hp he
  by_cases hm : s.input.head.kind = .mark .minus
  · refine Sound.mark (E := fun σ p b => ∃ e, Derives σ .primary p e ∧
      b = .binary .sub (.number 0 (some s.input.head.location)) e (some s.input.head.location))
      hs hm (unary_of_minus hm) ?_ fun s₁ hs₁ => ?_
    · rintro σ q b ⟨e, he, rfl⟩
      exact .minus hm he
    · exact (sound_primary hi s₁ hs₁).map hs₁ _ fun σ p e he => ⟨e, he, rfl⟩
  · exact ((sound_primary hi s hs).imp id fun σ p e he => .unsigned he).congr
      (unary_of_other hp hm)

end Operands

/-! ### Levels -/

/-- The marks of a level of the parser are those of a level of the grammar. -/
def Follows (level : Mark → Option Join) (n : Nonterminal) : Prop :=
  ∀ m j, level m = some j → Joins n m j.node

theorem follows_equality : Follows Mark.equality? .equality := by
  intro m j h
  cases m <;> cases h
  · exact .equal
  · exact .notEqual

theorem follows_relational : Follows Mark.relational? .relational := by
  intro m j h
  cases m <;> cases h
  · exact .less
  · exact .greater
  · exact .lessEqual
  · exact .greaterEqual

theorem follows_additive : Follows Mark.additive? .additive := by
  intro m j h
  cases m <;> cases h
  · exact .plus
  · exact .minus

theorem follows_multiplicative : Follows Mark.multiplicative? .term := by
  intro m j h
  cases m <;> cases h
  · exact .star
  · exact .slash

section Levels

variable {level : Mark → Option Join} {n below : Nonterminal}

/-- What a chain goes on to read extends any derivation of its first part. -/
theorem sound_chainFrom (hb : Operands n below) (hl : Follows level n)
    (ho : Sound false (fun σ => Derives σ below) operand) (fuel : Nat) (e : Node) :
    Sound false (fun σ p e' => ∀ ts, Derives σ n ts e → Derives σ n (ts ++ p) e')
      (Grammar.chainFrom level operand fuel e) := by
  induction fuel generalizing e with
  | zero => exact fun s _ => soundAt_pure fun σ ts h => by rwa [List.append_nil]
  | succ fuel ih =>
    intro s hs
    cases hj : s.input.head.kind.join? level with
    | none =>
      refine SoundAt.congr (soundAt_pure fun σ ts h => ?_) (chainFrom_of_none hj (fuel + 1) e)
      rwa [List.append_nil]
    | some j =>
      obtain ⟨m, hm, hlevel⟩ := Kind.exists_mark_of_join? hj
      refine Sound.mark (E := fun σ p b => ∀ ts, Derives σ n ts e →
        Derives σ n (ts ++ s.input.head :: p) b) hs hm (chainFrom_of_some hj fuel e)
        (fun σ q b h => h) fun s₁ hs₁ => ?_
      refine (ho s₁ hs₁).bind hs₁ (fun e' => ih (j.node e e')) ?_ ?_
      · intro σ p e' q b he' h ts he
        simpa using h _ (.join hb (hl m j hlevel) he hm he')
      · refine ⟨[], by simp [Plain], fun σ p e' he' => ⟨j.node e e', fun ts he => ?_⟩⟩
        rw [List.append_nil]
        exact .join hb (hl m j hlevel) he hm he'

theorem sound_chain (hb : Operands n below) (hl : Follows level n)
    (ho : Sound false (fun σ => Derives σ below) operand) :
    Sound false (fun σ => Derives σ n) (Grammar.chain level operand) := by
  intro s hs
  refine SoundAt.congr ?_ (chain_eq s)
  refine (ho s hs).bind hs (sound_chainFrom hb hl ho s.input.length) ?_ ?_
  · exact fun σ p e q b he h => h p (.operand hb he)
  · exact ⟨[], by simp [Plain], fun σ p e he => ⟨e, .operand hb (by rwa [List.append_nil])⟩⟩

variable (hi : Sound true (fun σ => Derives σ .expression) inner)
include hi

theorem sound_term : Sound false (fun σ => Derives σ .term) (Grammar.term o inner) :=
  sound_chain .term follows_multiplicative (sound_unary hi)

theorem sound_additive : Sound false (fun σ => Derives σ .additive) (Grammar.additive o inner) :=
  sound_chain .additive follows_additive (sound_term hi)

theorem sound_relational :
    Sound false (fun σ => Derives σ .relational) (Grammar.relational o inner) :=
  sound_chain .relational follows_relational (sound_additive hi)

theorem sound_equality : Sound false (fun σ => Derives σ .equality) (Grammar.equality o inner) :=
  sound_chain .equality follows_equality (sound_relational hi)

end Levels

/-! ### Expressions and statements -/

/-- An assignment to a variable, whatever its name and place. -/
theorem Derives.assign_of_isVariable {σ : String → Nat} {ts us : List Token} {t : Token}
    {x value : Node} (hv : x.isVariable = true) (hx : Derives σ .equality ts x)
    (ht : t.kind = .mark .assign) (he : Derives σ .expression us value) :
    Derives σ .assignment (ts ++ t :: us) (.assign x value x.location) := by
  cases x with
  | var x off l => exact .assign hx ht he.assignment_of_expression
  | _ => cases hv

/-- A target is rejected behind the equals sign, and nothing else is rejected as one here. -/
theorem sound_assignment (hi : Sound true (fun σ => Derives σ .expression) inner) :
    Sound true (fun σ => Derives σ .assignment) (Grammar.assignment o inner) := by
  intro s hs
  have hequality := sound_equality (o := o) hi s hs
  rw [assignment_eq]
  cases hr : Grammar.equality o inner s with
  | error d s₁ =>
    refine (hequality.imp (by simp) fun σ p e he => .bare he).congr ?_
    rw [bind_of_error hr, hr]
  | ok target s₁ =>
    rw [SoundAt, hr] at hequality
    obtain ⟨p, hp, hfit, hd⟩ := hequality
    by_cases hm : s₁.input.head.kind = .mark .assign
    · obtain ⟨hmark, hfit'⟩ := s₁.reads_mark (hp.terminated hs) hm
      have hnext := hp.trans hmark
      have hs₂ := hnext.terminated hs
      cases hv : target.isVariable with
      | true =>
        have hvalue := (hi _ hs₂).map (F := fun σ q (e : Node) => ∃ value,
          Derives σ .expression q value ∧ e = .assign target value target.location) hs₂
          (fun value => .assign target value target.location) fun σ q e he => ⟨e, he, rfl⟩
        refine hvalue.after hnext (hp.fits_append hfit hfit')
          ((bind_of_ok hr _).trans (afterTarget_of_variable hm hv))
          (fun _ => begins_concat hm (by decide)) ?_
        rintro σ hσ q _ ⟨value, he, rfl⟩
        rw [List.append_assoc]
        exact .assign_of_isVariable hv (hd σ hσ) hm he
      | false =>
        refine soundAt_of_error ((bind_of_ok hr _).trans (afterTarget_of_not_variable hm hv)) hnext
          rfl fun _ σ hσ => ?_
        exact ⟨[], p, _, target, rfl, .inl ⟨rfl, rfl⟩, hd σ (hmark.resolves hσ), hv, hm, rfl⟩
    · rw [SoundAt, bind_of_ok hr, afterTarget_of_ne hm]
      exact ⟨p, hp, hfit, fun σ hσ => .bare (hd σ hσ)⟩

theorem sound_expressionWithin (fuel : Nat) :
    Sound true (fun σ => Derives σ .expression) (Grammar.expressionWithin o fuel) := by
  induction fuel with
  | zero =>
    intro s _
    obtain ⟨q, hq, h⟩ := exists_primary
    exact soundAt_of_fail rfl rfl
      ⟨q, hq, fun σ => (h σ).imp fun e he => he.expression_of_primary⟩
  | succ fuel ih =>
    exact fun s hs => (sound_assignment ih s hs).imp id fun σ p e he => .expression he

theorem sound_expression : Sound true (fun σ => Derives σ .expression) (Grammar.expression o) := by
  intro s hs
  exact ((sound_assignment (sound_expressionWithin _) s hs).imp id
    fun σ p e he => .expression he).congr (expression_eq s)

theorem sound_statement : Sound true (fun σ => Derives σ .statement) (Grammar.statement o) := by
  intro s hs
  by_cases hm : s.input.head.kind = .mark .keywordReturn
  · refine Sound.opening (E := fun σ p n => ∃ e, Derives σ .expression p e ∧
      n = .result e (some s.input.head.location)) hs hm (statement_of_return hm) ?_
      (fun s₁ hs₁ => ?_) (by decide)
    · rintro σ q b ⟨e, he, rfl⟩
      exact .result hm he
    · exact (sound_expression s₁ hs₁).map hs₁ _ fun σ p e he => ⟨e, he, rfl⟩
  · exact ((sound_expression s hs).imp id fun σ p e he => .statement he).congr
      (statement_of_other hm)

/-! ### Programs -/

/-- Statements that stay within the limit when some are read already. -/
def DerivesWithin (o : ParseSettings) (count : Nat) : Reading (List Node) := fun σ p ns =>
  DerivesAll σ p ns ∧ (ns = [] ∨ (count : Int) + ns.length ≤ o.maxStatements)

theorem derivesWithin_nil {count : Nat} {σ : String → Nat} : DerivesWithin o count σ [] [] :=
  ⟨.nil, .inl rfl⟩

section Statements

variable {count : Nat} (hmax : (count : Int) < o.maxStatements)
include hmax

theorem derivesWithin_last {σ : String → Nat} {ts : List Token} {n : Node}
    (hn : Derives σ .statement ts n) : DerivesWithin o count σ ts [n] := by
  refine ⟨.last hn, .inr ?_⟩
  rw [List.length_singleton]
  omega

theorem derivesWithin_cons {σ : String → Nat} {ts us : List Token} {u : Token} {n : Node}
    {ns : List Node} (hn : Derives σ .statement ts n) (hu : u.kind = .mark .semicolon)
    (h : DerivesWithin o (count + 1) σ us ns) :
    DerivesWithin o count σ (ts ++ u :: us) (n :: ns) := by
  obtain ⟨hns, hcount⟩ := h
  refine ⟨.cons hn hu hns, .inr ?_⟩
  rw [List.length_cons]
  rcases hcount with rfl | hcount
  · rw [List.length_nil]
    omega
  · push_cast at hcount ⊢
    omega

theorem sound_afterStatement {fuel : Nat}
    (ih : Sound true (DerivesWithin o (count + 1)) (Grammar.statementsWithin o fuel (count + 1)))
    (n : Node) : Sound false (fun σ p ns => ∀ ts, Derives σ .statement ts n →
      DerivesWithin o count σ (ts ++ p) ns) (afterStatement o fuel count n) := by
  intro s hs
  cases hend : s.input.head.isEnd with
  | true =>
    refine SoundAt.congr (soundAt_pure fun σ ts hn => ?_)
      (afterStatement_of_isEnd fuel count n hend)
    rw [List.append_nil]
    exact derivesWithin_last hmax hn
  | false =>
    refine SoundAt.congr ?_ (afterStatement_of_not_isEnd fuel count n hend)
    by_cases hm : s.input.head.kind = .mark .semicolon
    · refine Sound.opening (E := fun σ p ns => ∃ more, DerivesWithin o (count + 1) σ p more ∧
        ns = n :: more) hs hm (bind_of_ok (expect_of_kind hm _) _) ?_ (fun s₁ hs₁ => ?_) (by decide)
      · rintro σ q b ⟨more, hmore, rfl⟩ ts hn
        exact derivesWithin_cons hmax hn hm hmore
      · exact (ih s₁ hs₁).map hs₁ _ fun σ p more h => ⟨more, h, rfl⟩
    · -- A semicolon is all that is missing.
      let semicolon : Token := ⟨.mark .semicolon none, "", someLocation⟩
      refine soundAt_of_fail (bind_of_error (expect_of_ne hm _) _) rfl ⟨[semicolon], ?_, fun σ => ?_⟩
      · simp [Plain, semicolon, Token.name?]
      · exact ⟨[n], fun ts hn => derivesWithin_cons hmax hn rfl derivesWithin_nil⟩

end Statements

theorem sound_statementsWithin (fuel count : Nat) :
    Sound true (DerivesWithin o count) (Grammar.statementsWithin o fuel count) := by
  induction fuel generalizing count with
  | zero => exact fun s _ => soundAt_pure fun _ => derivesWithin_nil
  | succ fuel ih =>
    intro s hs
    cases hh : s.input.head.isEnd with
    | true =>
      exact SoundAt.congr (soundAt_pure fun _ => derivesWithin_nil)
        (statementsWithin_of_isEnd _ count hh)
    | false =>
      by_cases hm : s.input.head.kind = .mark .semicolon
      · exact Sound.opening hs hm (statementsWithin_of_semicolon fuel count hm)
          (fun σ q b h => ⟨.skip hm h.1, h.2⟩) (ih count) (by decide)
      · refine SoundAt.congr ?_ (statementsWithin_of_statement fuel count hh hm)
        split
        · exact soundAt_of_error rfl (.refl s) rfl (by simp)
        · rename_i hmax
          rw [Int.not_le] at hmax
          exact (sound_statement s hs).bind hs
            (fun n => sound_afterStatement hmax (ih (count + 1)) n)
            (fun σ p n q ns hn h => h p hn)
            ⟨[], by simp [Plain], fun σ p n hn =>
              ⟨[n], by rw [List.append_nil]; exact derivesWithin_last hmax hn⟩⟩

theorem expect_ok {m : Mark} {description : String} {s s' : ParseState}
    (h : Parse.expect o m description s = .ok () s') :
    s.input.head.kind = .mark m ∧ s' = s.next := by
  by_cases hm : s.input.head.kind = .mark m
  · rw [expect_of_kind hm] at h
    cases h
    exact ⟨hm, rfl⟩
  · rw [expect_of_ne hm] at h
    cases h

/-- A statement that was read is not empty. -/
theorem reads_statement {s s' : ParseState} {n : Node} (hs : Terminated s.input.toList)
    (h : Grammar.statement o s = .ok n s') : ∃ p, p ≠ [] ∧ Reads s p s' := by
  have hsound := sound_statement (o := o) s hs
  rw [SoundAt, h] at hsound
  obtain ⟨p, hp, -, hd⟩ := hsound
  obtain ⟨σ, hσ⟩ := s'.slots.exists_resolves
  exact ⟨p, (hd σ hσ).ne_nil, hp⟩

/-- With a bound for every token, statements are read up to the end of input. -/
theorem isEnd_of_statementsWithin {fuel count : Nat} {s s' : ParseState} {ns : List Node}
    (hs : Terminated s.input.toList) (hf : s.input.length ≤ fuel)
    (h : Grammar.statementsWithin o fuel count s = .ok ns s') : s'.input.head.isEnd = true := by
  induction fuel generalizing count s s' ns with
  | zero => exact absurd hf (by simp [TokenStream.length])
  | succ fuel ih =>
    cases hh : s.input.head.isEnd with
    | true =>
      rw [statementsWithin_of_isEnd _ count hh] at h
      cases h
      exact hh
    | false =>
      by_cases hm : s.input.head.kind = .mark .semicolon
      · have hread := s.reads_next hs hh (Token.name?_of_mark hm)
        have hlen := hread.length
        rw [statementsWithin_of_semicolon fuel count hm] at h
        rw [List.length_singleton] at hlen
        exact ih (hread.terminated hs) (by omega) h
      · rw [statementsWithin_of_statement fuel count hh hm] at h
        split at h
        · cases h
        obtain ⟨n, s₁, hn, h⟩ := exists_of_bind_ok h
        obtain ⟨p, hp, hread⟩ := reads_statement hs hn
        have hlen := hread.length
        have hpos := List.length_pos_iff.mpr hp
        have hs₁ := hread.terminated hs
        cases hend : s₁.input.head.isEnd with
        | true =>
          rw [afterStatement_of_isEnd fuel count n hend] at h
          cases h
          exact hend
        | false =>
          rw [afterStatement_of_not_isEnd fuel count n hend] at h
          obtain ⟨_, s₂, hexpect, h⟩ := exists_of_bind_ok h
          obtain ⟨more, s₃, hmore, h⟩ := exists_of_bind_ok h
          cases h
          obtain ⟨hm₁, rfl⟩ := expect_ok hexpect
          have hread₁ := s₁.reads_next hs₁ hend (Token.name?_of_mark hm₁)
          have hlen₁ := hread₁.length
          rw [List.length_singleton] at hlen₁
          exact ih (hread₁.terminated hs₁) (by omega) hmore

end WordLang
