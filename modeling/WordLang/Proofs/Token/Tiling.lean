import Mathlib.Data.List.Chain
import WordLang.Proofs.Token.Spelling

/-! Scanning step by step, over blanks and longest tokens, up to the end of the source or to a place
where it halts. The tokens of a source that is scanned to its end tile it: each is the longest that
can be at its place, and only blanks stand between them. -/
namespace WordLang

/-! ### Steps -/

/-- Scanning goes from one place to another over blanks and tokens. -/
inductive Passes (file : Option String) :
    Position → List Char → List Token → Position → List Char → Prop
  | stop (p : Position) (cs : List Char) : Passes file p cs [] p cs
  | blank {p p' : Position} {c : Char} {cs cs' : List Char} {ts : List Token}
      (hc : isSpace c = true) (h : Passes file (p.next c) cs ts p' cs') :
      Passes file p (c :: cs) ts p' cs'
  | token {p p' : Position} {text cs cs' : List Char} {l : Lexeme} {ts : List Token}
      (hlong : Longest text (text ++ cs)) (hs : Spells text l) (ha : Admitted text l)
      (h : Passes file (p.after text) cs ts p' cs') :
      Passes file p (text ++ cs) (⟨l, String.ofList text, p.locate file⟩ :: ts) p' cs'

/-- Scanning halts at a place: no token is there, or a numeral that is too long or too large. -/
inductive Halts (s : Source) (p : Position) : List Char → Failure → Prop
  | character {c : Char} {cs : List Char} (hc : isSpace c = false)
      (h : ∀ text l, Spells text l → ¬text <+: c :: cs) :
      Halts s p (c :: cs) (s.diagnose p (.invalidCharacter (some (String.singleton c))))
  | tooLong {text cs : List Char} {v : Int} (hlong : Longest text (text ++ cs))
      (hs : Spells text (.number v)) (h : Text.maxDecimalDigits < text.length) :
      Halts s p (text ++ cs) (.numeralTooLong text.length)
  | tooLarge {text cs : List Char} {v : Int} (hlong : Longest text (text ++ cs))
      (hs : Spells text (.number v)) (hlen : text.length ≤ Text.maxDecimalDigits)
      (hv : maxLiteral < v) :
      Halts s p (text ++ cs) (s.diagnose p (.literalTooLarge (String.ofList text)))

namespace Passes

variable {file : Option String} {p p' p'' : Position} {cs cs' cs'' : List Char}
  {ts ts' : List Token}

theorem trans (h : Passes file p cs ts p' cs') (h' : Passes file p' cs' ts' p'' cs'') :
    Passes file p cs (ts ++ ts') p'' cs'' := by
  induction h with
  | stop => exact h'
  | blank hc _ ih => exact .blank hc (ih h')
  | token hlong hs ha _ ih => exact .token hlong hs ha (ih h')

/-- What is passed stands before what is left, and is passed without it, too. -/
theorem exists_front (h : Passes file p cs ts p' cs') :
    ∃ front, cs = front ++ cs' ∧ p' = p.after front ∧ Passes file p front ts p' [] := by
  induction h with
  | stop p cs => exact ⟨[], rfl, rfl, .stop p []⟩
  | @blank p p' c cs cs' ts hc _ ih =>
    obtain ⟨front, rfl, rfl, h⟩ := ih
    exact ⟨c :: front, rfl, rfl, .blank hc h⟩
  | @token p p' text cs cs' l ts hlong hs ha _ ih =>
    obtain ⟨front, rfl, rfl, h⟩ := ih
    have hcut : text ++ front <+: text ++ (front ++ cs') := by
      rw [← List.append_assoc]
      exact List.prefix_append _ _
    refine ⟨text ++ front, by rw [List.append_assoc], by rw [Position.after_append], ?_⟩
    exact .token (hlong.of_prefix (List.prefix_append _ _) hcut) hs ha h

/-- A token that is passed was once in front, and is within the limits. -/
theorem exists_of_mem (h : Passes file p cs ts p' cs') {t : Token} (ht : t ∈ ts) :
    ∃ ts₁ p₁ text cs₁, Passes file p cs ts₁ p₁ (text ++ cs₁) ∧ Spells text t.lexeme ∧
      Admitted text t.lexeme ∧ t.text = String.ofList text ∧ t.location = p₁.locate file := by
  induction h with
  | stop => cases ht
  | blank hc _ ih =>
    obtain ⟨ts₁, p₁, text, cs₁, h, ht⟩ := ih ht
    exact ⟨ts₁, p₁, text, cs₁, .blank hc h, ht⟩
  | @token p p' text cs cs' l ts hlong hs ha _ ih =>
    rcases List.mem_cons.mp ht with rfl | ht
    · exact ⟨[], p, text, cs, .stop _ _, hs, ha, rfl, rfl⟩
    · obtain ⟨ts₁, p₁, text₁, cs₁, h, ht⟩ := ih ht
      exact ⟨_, p₁, text₁, cs₁, .token hlong hs ha h, ht⟩

/-- The end of input is never passed. -/
theorem isEnd_eq (h : Passes file p cs ts p' cs') : ∀ t ∈ ts, t.isEnd = false := by
  intro t ht
  obtain ⟨-, -, text, -, -, hs, -⟩ := h.exists_of_mem ht
  have hkind : t.lexeme.kind ≠ .endOfInput := by
    generalize t.lexeme = l at hs
    cases hs <;> simp [Lexeme.kind]
  simpa [Token.isEnd, Token.kind] using hkind

end Passes

namespace Source

variable {s : Source} {p p' : Position} {cs cs' text : List Char} {ts : List Token}

theorem scan_skip (n : Nat) (p : Position) (cs : List Char) :
    s.scan n p cs = s.scan 0 (p.after (cs.take n)) (cs.drop n) := by
  induction cs generalizing n p with
  | nil => cases n <;> rfl
  | cons c cs ih =>
    cases n with
    | zero => rfl
    | succ n => exact ih n (p.next c)

theorem scan_space {c : Char} (hc : isSpace c = true) (p : Position) (cs : List Char) :
    s.scan 0 p (c :: cs) = s.scan 0 (p.next c) cs := by
  rw [scan, if_pos hc]

/-- A token is read in front of the tokens behind it. -/
theorem scan_found {shape : Shape} {l : Lexeme} (hf : front? (text ++ cs) = some (shape, text))
    (h : Found (text ++ cs) shape text l) (p : Position) :
    s.scan 0 p (text ++ cs) = (do
      let l ← s.weigh p text l
      let more ← s.scan 0 (p.after text) cs
      pure (⟨l, String.ofList text, p.locate s.file⟩ :: more)) := by
  obtain ⟨c, u, rfl⟩ := List.exists_cons_of_ne_nil h.spells.ne_nil
  have hc : isSpace c = false := h.spells.isSpace_eq c (by simp)
  have hskip : s.scan ((c :: u).length - 1) (p.next c) (u ++ cs) =
      s.scan 0 (p.after (c :: u)) cs := by
    rw [scan_skip]
    simp
  rw [List.cons_append] at hf ⊢
  rw [scan, if_neg (by simp [hc]), hf]
  simp only [h.lexeme_eq, hskip]
  cases s.weigh p (c :: u) l with
  | error e => rfl
  | ok l => cases s.scan 0 (p.after (c :: u)) cs <;> rfl

/-- What a scan passes stands before what it finds behind. -/
theorem scan_of_passes (h : Passes s.file p cs ts p' cs') :
    s.scan 0 p cs = (s.scan 0 p' cs').map (ts ++ ·) := by
  induction h with
  | stop p cs => cases s.scan 0 p cs <;> rfl
  | blank hc _ ih => rw [scan_space hc, ih]
  | @token p p' text cs cs' l ts hlong hs ha _ ih =>
    obtain ⟨shape, hf, hfound⟩ := hlong.exists_found hs
    rw [scan_found hf hfound, weigh_of_admitted ha, ih]
    cases s.scan 0 p' cs' <;> rfl

theorem scan_of_halts {e : Failure} (h : Halts s p cs e) : s.scan 0 p cs = .error e := by
  cases h with
  | @character c cs hc h =>
    cases hf : front? (c :: cs) with
    | none => rw [scan, if_neg (by simp [hc]), hf]
    | some r =>
      obtain ⟨l, hfound⟩ := exists_found hf
      exact absurd hfound.longest.front (h _ _ hfound.spells)
  | tooLong hlong hs h =>
    obtain ⟨shape, hf, hfound⟩ := hlong.exists_found hs
    rw [scan_found hf hfound, weigh, if_pos h]
    rfl
  | tooLarge hlong hs hlen hv =>
    obtain ⟨shape, hf, hfound⟩ := hlong.exists_found hs
    rw [scan_found hf hfound, weigh, if_neg (by omega), if_pos hv]
    rfl

/-- A token is passed, unless it is a numeral beyond the limits. -/
theorem admitted_or_halts {l : Lexeme} (hlong : Longest text (text ++ cs)) (hs : Spells text l)
    (p : Position) : Admitted text l ∨ ∃ e, Halts s p (text ++ cs) e := by
  cases l with
  | number v =>
    by_cases hlen : text.length ≤ Text.maxDecimalDigits
    · by_cases hv : v ≤ maxLiteral
      · left
        rintro w ⟨⟩
        exact ⟨hlen, hv⟩
      · exact .inr ⟨_, .tooLarge hlong hs hlen (by omega)⟩
    · exact .inr ⟨_, .tooLong hlong hs (by omega)⟩
  | _ => left; rintro w ⟨⟩

/-- A scan goes on to the end, or to a place where it halts. -/
theorem exists_passes (s : Source) (p : Position) (cs : List Char) :
    ∃ ts p' cs', Passes s.file p cs ts p' cs' ∧ (cs' = [] ∨ ∃ e, Halts s p' cs' e) := by
  -- On the number of characters left, of which a token takes at least one.
  induction hn : cs.length using Nat.strongRecOn generalizing p cs with
  | ind n ih =>
    subst hn
    cases cs with
    | nil => exact ⟨[], p, [], .stop p [], .inl rfl⟩
    | cons c cs =>
      cases hc : isSpace c with
      | true =>
        obtain ⟨ts, p', cs', h, hend⟩ := ih cs.length (by simp) (p.next c) cs rfl
        exact ⟨ts, p', cs', .blank hc h, hend⟩
      | false =>
        cases hf : front? (c :: cs) with
        | none =>
          exact ⟨[], p, c :: cs, .stop _ _, .inr ⟨_, .character hc fun _ _ hs =>
            not_spells_of_front? hf hs⟩⟩
        | some r =>
          obtain ⟨l, hfound⟩ := exists_found hf
          have hlong := hfound.longest
          obtain ⟨rest, heq, -⟩ := hfound.rest
          have hpos := List.length_pos_iff.mpr hfound.spells.ne_nil
          rw [heq] at hlong ih ⊢
          rcases admitted_or_halts hlong hfound.spells p with ha | hhalts
          · obtain ⟨ts, p', cs', h, hend⟩ := ih rest.length
              (by rw [List.length_append]; omega) (p.after r.2) rest rfl
            exact ⟨_, p', cs', .token hlong hfound.spells ha h, hend⟩
          · exact ⟨[], p, _, .stop _ _, .inr hhalts⟩

/-- The end of input at a place. -/
def endToken (s : Source) (p : Position) : Token := ⟨.endOfInput, "", p.locate s.file⟩

/-- A scan succeeds just when it passes the whole text. -/
theorem scan_eq_ok_iff {tokens : List Token} : s.scan 0 p cs = .ok tokens ↔
    ∃ ts p', Passes s.file p cs ts p' [] ∧ tokens = ts ++ [s.endToken p'] := by
  constructor
  · intro hscan
    obtain ⟨ts, p', cs', h, hend⟩ := s.exists_passes p cs
    rw [scan_of_passes h] at hscan
    rcases hend with rfl | ⟨e, he⟩
    · cases hscan
      exact ⟨ts, p', h, rfl⟩
    · rw [scan_of_halts he] at hscan
      cases hscan
  · rintro ⟨ts, p', h, rfl⟩
    rw [scan_of_passes h]
    rfl

/-- A scan fails just when it comes to a place where it halts. -/
theorem scan_eq_error_iff {e : Failure} : s.scan 0 p cs = .error e ↔
    ∃ ts p' cs', Passes s.file p cs ts p' cs' ∧ Halts s p' cs' e := by
  constructor
  · intro hscan
    obtain ⟨ts, p', cs', h, hend⟩ := s.exists_passes p cs
    rw [scan_of_passes h] at hscan
    rcases hend with rfl | ⟨e', he⟩
    · cases hscan
    · rw [scan_of_halts he] at hscan
      cases hscan
      exact ⟨ts, p', cs', h, he⟩
  · rintro ⟨ts, p', cs', h, he⟩
    rw [scan_of_passes h, scan_of_halts he]
    rfl

end Source

/-! ### Tilings -/

namespace Token

/-- The offset of a token. -/
def start (t : Token) : Nat := t.location.offset.toNat

/-- The offset behind a token. -/
def stop (t : Token) : Nat := t.start + t.text.length

end Token

/-- Only blanks stand between two offsets, the second of which does not come before the first. -/
def BlankBetween (cs : List Char) (i j : Nat) : Prop :=
  i ≤ j ∧ ∀ c ∈ (cs.drop i).take (j - i), isSpace c = true

/-- Tokens tile a text from an offset on: they stand where they say, in order, with only blanks
before, between and behind them; each is the longest that can stand there, and has the one meaning
of its text. The last one marks the end and covers nothing. -/
structure Tiles (cs : List Char) (k : Nat) (body : List Token) (last : Token) : Prop where
  offset_eq : ∀ t ∈ body ++ [last], t.location.offset = t.start
  isEnd_body : ∀ t ∈ body, t.isEnd = false
  isEnd_last : last.isEnd = true
  text_last : last.text = ""
  start_last : last.start = cs.length
  text_ne : ∀ t ∈ body, t.text ≠ ""
  text_eq : ∀ t ∈ body, (cs.drop t.start).take t.text.length = t.text.toList
  blank_before : ∀ t ∈ (body ++ [last]).head?, BlankBetween cs k t.start
  blank_between : (body ++ [last]).IsChain fun t u => BlankBetween cs t.stop u.start
  longest : ∀ t ∈ body, Longest t.text.toList (cs.drop t.start)
  spells_iff : ∀ t ∈ body, ∀ l, Spells t.text.toList l ↔ l = t.lexeme

theorem blankBetween_append {front : List Char} (cs : List Char) {k : Nat} (hk : k ≤ front.length)
    (h : ∀ c ∈ front.drop k, isSpace c = true) : BlankBetween (front ++ cs) k front.length := by
  refine ⟨hk, ?_⟩
  rwa [List.drop_append_of_le_length hk, List.take_left' (by simp)]

theorem Token.start_locate (l : Lexeme) (text : String) (p : Position) (file : Option String) :
    Token.start ⟨l, text, p.locate file⟩ = p.offset := Int.toNat_natCast _

/-- A token that stands behind blanks and before a tiling. -/
theorem Tiles.cons {front text cs : List Char} {k : Nat} {l : Lexeme} {file : Option String}
    {p : Position} {ts : List Token} {last : Token} (hp : p.offset = front.length)
    (hb : BlankBetween (front ++ (text ++ cs)) k front.length) (hlong : Longest text (text ++ cs))
    (hs : Spells text l)
    (h : Tiles (front ++ (text ++ cs)) (front ++ text).length ts last) :
    Tiles (front ++ (text ++ cs)) k (⟨l, String.ofList text, p.locate file⟩ :: ts) last := by
  set t : Token := ⟨l, String.ofList text, p.locate file⟩
  have hstart : t.start = front.length := (Token.start_locate _ _ _ _).trans hp
  have htext : t.text.toList = text := String.toList_ofList
  have hlen : t.text.length = text.length := String.length_ofList
  have hdrop : (front ++ (text ++ cs)).drop t.start = text ++ cs := by rw [hstart, List.drop_left]
  have hend : t.isEnd = false := by cases hs <;> rfl
  have hne : t.text ≠ "" := fun h0 => hs.ne_nil (by rw [← htext, h0]; rfl)
  refine ⟨?_, ?_, h.isEnd_last, h.text_last, h.start_last, ?_, ?_, ?_, ?_, ?_, ?_⟩
  · rw [List.cons_append]
    exact List.forall_mem_cons.mpr ⟨by rw [hstart, ← hp]; rfl, h.offset_eq⟩
  · exact List.forall_mem_cons.mpr ⟨hend, h.isEnd_body⟩
  · exact List.forall_mem_cons.mpr ⟨hne, h.text_ne⟩
  · refine List.forall_mem_cons.mpr ⟨?_, h.text_eq⟩
    rw [hdrop, hlen, htext, List.take_left]
  · simpa [hstart] using hb
  · rw [List.cons_append, List.isChain_cons]
    refine ⟨fun u hu => ?_, h.blank_between⟩
    have := h.blank_before u hu
    rwa [List.length_append, ← hstart, ← hlen] at this
  · exact List.forall_mem_cons.mpr ⟨by rwa [hdrop, htext], h.longest⟩
  · refine List.forall_mem_cons.mpr ⟨fun l' => ?_, h.spells_iff⟩
    rw [htext]
    exact ⟨fun h' => h'.unique hs, fun heq => heq ▸ hs⟩

theorem Passes.tiles {file : Option String} {p p' : Position} {cs cs' : List Char}
    {ts : List Token} (h : Passes file p cs ts p' cs') (hend : cs' = []) {front : List Char}
    (hp : p.offset = front.length) {k : Nat} (hk : k ≤ front.length)
    (hb : ∀ c ∈ front.drop k, isSpace c = true) :
    Tiles (front ++ cs) k ts ⟨.endOfInput, "", p'.locate file⟩ := by
  -- The front is what was passed so far; since the offset `k`, where the last token stopped, it is
  -- blank.
  induction h generalizing front k with
  | stop p cs =>
    subst hend
    have hbefore := blankBetween_append [] hk hb
    rw [List.append_nil] at hbefore ⊢
    constructor <;>
      simp [Token.start, Position.locate, hp, Token.isEnd, Token.kind, Lexeme.kind, hbefore]
  | @blank p p' c cs cs' ts hc _ ih =>
    rw [List.append_cons]
    refine ih hend ?_ (by simp; omega) ?_
    · rw [← Position.after_nil (p.next c), ← Position.after_cons, Position.offset_after, hp]
      simp
    · rw [List.drop_append_of_le_length hk]
      simpa [or_imp, forall_and] using ⟨hb, hc⟩
  | @token p p' text cs cs' l ts hlong hs ha _ ih =>
    refine .cons hp (blankBetween_append _ hk hb) hlong hs ?_
    rw [← List.append_assoc]
    refine ih hend ?_ (Nat.le_refl _) (by simp)
    rw [Position.offset_after, hp, List.length_append]

/-- The tokens of a source tile it, from its beginning to its end. -/
theorem tokens_tile {s : Source} {tokens : List Token} (h : s.tokens = .ok tokens) :
    ∃ body last, tokens = body ++ [last] ∧ Tiles s.text.toList 0 body last := by
  obtain ⟨ts, p, hpass, rfl⟩ := Source.scan_eq_ok_iff.mp h
  have hstart : Position.start.offset = ([] : List Char).length := rfl
  exact ⟨ts, _, rfl, hpass.tiles rfl hstart (Nat.le_refl 0) (by simp)⟩

/-- Without blanks, longer tokens come first, and a number ends where a name begins. -/
theorem tokens_tile_crowded :
    let s : Source := ⟨none, "===2a\n<returned"⟩
    ∃ tokens, s.tokens = .ok tokens ∧
      tokens.map Token.text = ["==", "=", "2", "a", "<", "returned", ""] ∧
      ∃ body last, tokens = body ++ [last] ∧ Tiles s.text.toList 0 body last := by
  intro s
  obtain ⟨tokens, htokens, htexts⟩ := exists_of_any_toOption (x := s.tokens)
    (p := fun ts => ts.map Token.text = ["==", "=", "2", "a", "<", "returned", ""])
    (by decide +kernel)
  exact ⟨tokens, htokens, by simpa using htexts, tokens_tile htokens⟩

end WordLang
