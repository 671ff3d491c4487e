import Mathlib.Data.Nat.Digits.Lemmas
import Mathlib.Order.Bounds.Basic
import WordLang.Proofs.Token.Tiling

/-! Where a scan halts: at a literal beyond the limits, or at a character that is part of no token.
What was read by then is what would have been read if the source ended there. -/
namespace WordLang

/-! ### Places on the way -/

/-- The scan of a source comes to a place behind some tokens, with some text left. -/
def Source.Reaches (s : Source) (ts : List Token) (p : Position) (rest : List Char) : Prop :=
  Passes s.file .start s.text.toList ts p rest

namespace Source.Reaches

variable {s : Source} {ts : List Token} {p : Position} {rest : List Char}

theorem offset_eq {front : List Char} (h : p = Position.start.after front) :
    p.offset = front.length := by
  rw [h, Position.offset_after]
  exact Nat.zero_add _

theorem locate_eq (h : s.Reaches ts p rest) : p.locate s.file = s.locationAt p.offset := by
  obtain ⟨front, heq, hp, -⟩ := h.exists_front
  rw [offset_eq hp, hp, s.locate_after heq]

theorem drop_offset (h : s.Reaches ts p rest) : s.text.toList.drop p.offset = rest := by
  obtain ⟨front, heq, hp, -⟩ := h.exists_front
  rw [offset_eq hp, heq, List.drop_left]

theorem tokens_eq_error {e : Failure} (h : s.Reaches ts p rest) (he : Halts s p rest e) :
    s.tokens = .error e := scan_eq_error_iff.mpr ⟨ts, p, rest, h, he⟩

end Source.Reaches

/-! ### Literals -/

/-- Digits with no further digit behind them. -/
structure DigitRun (digits rest : List Char) : Prop where
  ne_nil : digits ≠ []
  isDigit : ∀ c ∈ digits, c.isDigit = true
  stop : ∀ c ∈ rest.head?, c.isDigit = false

namespace DigitRun

variable {digits rest : List Char}

theorem spells (h : DigitRun digits rest) : Spells digits (.number (digitsValue digits)) :=
  .number h.ne_nil h.isDigit

theorem longest (h : DigitRun digits rest) : Longest digits (digits ++ rest) :=
  h.spells.longest h.stop

/-- The longest text of a number takes in a whole run of digits. -/
theorem of_longest {v : Int} (hlong : Longest digits (digits ++ rest))
    (hs : Spells digits (.number v)) : DigitRun digits rest := by
  obtain ⟨shape, -, hfound⟩ := hlong.exists_found hs
  obtain ⟨more, heq, hmore⟩ := hfound.rest
  obtain rfl : rest = more := List.append_cancel_left heq
  cases hs with
  | number hn hcs => exact ⟨hn, hcs, hmore⟩

end DigitRun

/-- Causes that the scanner complains of. -/
def Cause.isLexical : Cause → Bool
  | .report .lexical _ _ | .invalidCharacter _ | .literalTooLarge _ => true
  | _ => false

namespace Source

/-- A scan comes to a run of digits, where a number may start. -/
def ReachesRun (s : Source) (ts : List Token) (p : Position) (digits rest : List Char) : Prop :=
  s.Reaches ts p (digits ++ rest) ∧ DigitRun digits rest

/-- A source has tokens, or else a lexical diagnostic. -/
def ScansOrComplains (s : Source) : Prop :=
  (∃ tokens, s.tokens = .ok tokens) ∨
    ∃ d, s.tokens = .error (.diagnostic d) ∧ d.cause.isLexical = true

/-- A run of digits is read by its value: if that is in range, it is a number, and the scan goes on
behind it; if not, there is a lexical diagnostic at its first digit. -/
structure ReadsByValue (s : Source) (ts : List Token) (p : Position) (digits rest : List Char) :
    Prop where
  inRange : digitsValue digits ≤ maxLiteral →
    s.Reaches (ts ++ [⟨.number (digitsValue digits), String.ofList digits,
      s.locationAt p.offset⟩]) (p.after digits) rest
  tooLarge : maxLiteral < digitsValue digits →
    ∃ d, s.tokens = .error (.diagnostic d) ∧ d.cause.isLexical = true ∧
      d.location = some (s.locationAt p.offset)

variable {s : Source} {ts : List Token} {p : Position} {digits rest : List Char}

theorem ReachesRun.readsByValue (h : s.ReachesRun ts p digits rest)
    (hlen : digits.length ≤ Text.maxDecimalDigits) : s.ReadsByValue ts p digits rest := by
  obtain ⟨hreach, hrun⟩ := h
  refine ⟨fun hv => ?_, fun hv => ?_⟩
  · have ha : Admitted digits (.number (digitsValue digits)) := by
      rintro v ⟨⟩
      exact ⟨hlen, Int.ofNat_le.mpr hv⟩
    rw [← hreach.locate_eq]
    exact hreach.trans (.token hrun.longest hrun.spells ha (.stop _ _))
  · have hhalts := Halts.tooLarge (s := s) (p := p) hrun.longest hrun.spells hlen
      (Int.ofNat_lt.mpr hv)
    exact ⟨_, hreach.tokens_eq_error hhalts, rfl, congrArg some hreach.locate_eq⟩

/-- A run that is too long stops the scan before its value is known. -/
theorem ReachesRun.tokens_of_lt (h : s.ReachesRun ts p digits rest)
    (hlen : Text.maxDecimalDigits < digits.length) :
    s.tokens = .error (.numeralTooLong digits.length) :=
  h.1.tokens_eq_error (.tooLong h.2.longest h.2.spells hlen)

theorem ReachesRun.length_le (h : s.ReachesRun ts p digits rest)
    (hread : s.ReadsByValue ts p digits rest) : digits.length ≤ Text.maxDecimalDigits := by
  by_contra hlen
  have htokens := h.tokens_of_lt (Nat.not_le.mp hlen)
  by_cases hv : digitsValue digits ≤ maxLiteral
  · -- Only tokens within the limits are passed, and this one would not be.
    obtain ⟨-, -, text, -, -, -, ha, htext, -⟩ :=
      (hread.inRange hv).exists_of_mem (List.mem_append_right ts (List.mem_singleton_self _))
    obtain rfl : digits = text := String.ofList_injective htext
    exact hlen (ha _ rfl).1
  · obtain ⟨d, hd, -⟩ := hread.tooLarge (Nat.not_le.mp hv)
    rw [htokens] at hd
    cases hd

theorem ReachesRun.not_scansOrComplains (h : s.ReachesRun ts p digits rest)
    (hlen : Text.maxDecimalDigits < digits.length) : ¬s.ScansOrComplains := by
  have htokens := h.tokens_of_lt hlen
  rintro (⟨tokens, hok⟩ | ⟨d, hd, -⟩)
  · rw [htokens] at hok
    cases hok
  · rw [htokens] at hd
    cases hd

theorem scansOrComplains_of_forall
    (h : ∀ ts p digits rest, s.ReachesRun ts p digits rest →
      digits.length ≤ Text.maxDecimalDigits) : s.ScansOrComplains := by
  cases htokens : s.tokens with
  | ok tokens => exact .inl ⟨tokens, htokens⟩
  | error e =>
    obtain ⟨ts, p, cs, hreach, hhalts⟩ := scan_eq_error_iff.mp htokens
    right
    cases hhalts with
    | character => exact ⟨_, htokens, rfl⟩
    | tooLong hlong hs hlen =>
      have := h ts p _ _ ⟨hreach, .of_longest hlong hs⟩
      omega
    | tooLarge => exact ⟨_, htokens, rfl⟩

/-- Digits and nothing else are one run. -/
theorem reachesRun_whole (file : Option String) (digits : List Char) (hn : digits ≠ [])
    (hd : ∀ c ∈ digits, c.isDigit = true) :
    ReachesRun ⟨file, String.ofList digits⟩ [] .start digits [] := by
  refine ⟨?_, hn, hd, by simp⟩
  rw [Reaches, String.toList_ofList, List.append_nil]
  exact .stop _ _

end Source

/-- A run of digits that the scan comes to is read by its value just when it has no more than 4300
digits, leading zeros counted. A longer one ends the scan with a failure that is no diagnostic;
where there is none on the way, a source has its tokens or a lexical diagnostic. -/
theorem literal_readsByValue_iff (s : Source) :
    (s.ScansOrComplains ↔ ∀ ts p digits rest, s.ReachesRun ts p digits rest →
      digits.length ≤ Text.maxDecimalDigits) ∧
    ∀ ts p digits rest, s.ReachesRun ts p digits rest →
      (s.ReadsByValue ts p digits rest ↔ digits.length ≤ Text.maxDecimalDigits) ∧
      (Text.maxDecimalDigits < digits.length →
        s.tokens = .error (.numeralTooLong digits.length)) := by
  refine ⟨⟨fun h ts p digits rest hrun => ?_, Source.scansOrComplains_of_forall⟩,
    fun ts p digits rest hrun => ⟨⟨hrun.length_le, hrun.readsByValue⟩, hrun.tokens_of_lt⟩⟩
  by_contra hlen
  exact hrun.not_scansOrComplains (Nat.not_le.mp hlen) h

/-- Zeros before a literal do not matter, and the largest literal is one less than the one that is
refused. -/
theorem literal_readsByValue_limits :
    let s : Source := ⟨none, "009223372036854775807"⟩
    let t : Source := ⟨none, "9223372036854775808"⟩
    (s.ScansOrComplains ∧ s.ReadsByValue [] .start s.text.toList []) ∧
      t.ReadsByValue [] .start t.text.toList [] := by
  intro s t
  have hs : s.ReachesRun [] .start s.text.toList [] :=
    Source.reachesRun_whole none "009223372036854775807".toList (by decide) (by decide)
  have ht : t.ReachesRun [] .start t.text.toList [] :=
    Source.reachesRun_whole none "9223372036854775808".toList (by decide) (by decide)
  have hread := ((literal_readsByValue_iff s).2 _ _ _ _ hs).1.mpr (by decide)
  refine ⟨⟨?_, hread⟩, ((literal_readsByValue_iff t).2 _ _ _ _ ht).1.mpr (by decide)⟩
  obtain ⟨tokens, htokens, -⟩ := exists_of_any_toOption (x := s.tokens) (p := fun _ => true)
    (by decide +kernel)
  exact .inl ⟨tokens, htokens⟩

theorem digitsValue_cons (c : Char) (cs : List Char) :
    digitsValue (c :: cs) = digitsValue cs + 10 ^ cs.length * (c.toNat - '0'.toNat) := by
  simp [digitsValue, Nat.ofDigits_append]

/-- Leading zeros count for nothing. -/
theorem digitsValue_zeros (n : Nat) (cs : List Char) :
    digitsValue (List.replicate n '0' ++ cs) = digitsValue cs := by
  induction n with
  | zero => rfl
  | succ n ih =>
    rw [List.replicate_succ, List.cons_append, digitsValue_cons, ih, Nat.sub_self, Nat.mul_zero,
      Nat.add_zero]

theorem maxLiteral_lt_ones {n : Nat} (h : 20 ≤ n) :
    maxLiteral < digitsValue (List.replicate n '1' ++ ['1']) := by
  obtain ⟨k, rfl⟩ : ∃ k, n = k + 1 := ⟨n - 1, by omega⟩
  rw [List.replicate_succ, List.cons_append, digitsValue_cons, List.length_append,
    List.length_replicate]
  calc maxLiteral < 10 ^ 20 := by decide
    _ ≤ 10 ^ (k + 1) := Nat.pow_le_pow_right (by decide) h
    _ = 10 ^ (k + 1) * ('1'.toNat - '0'.toNat) := (Nat.mul_one _).symm
    _ ≤ _ := Nat.le_add_left _ _

/-- A row of one digit, and a last digit, are a run of one more than there are in the row. -/
theorem Source.reachesRun_row (n : Nat) {c d : Char} (hc : c.isDigit = true)
    (hd : d.isDigit = true) :
    let digits := List.replicate n c ++ [d]
    ReachesRun ⟨none, String.ofList digits⟩ [] .start digits [] ∧ digits.length = n + 1 := by
  refine ⟨reachesRun_whole none _ (by simp) fun x hx => ?_, by simp⟩
  rcases List.mem_append.mp hx with hx | hx
  · rw [List.eq_of_mem_replicate hx, hc]
  · rw [List.mem_singleton.mp hx, hd]

/-- A digit more than 4300 is too many, be the literal out of range or the number seven behind
zeros: the first has no diagnostic, the second is no number. -/
theorem overlong_literals_not_read :
    let ones := List.replicate 4300 '1' ++ ['1']
    let seven := List.replicate 4300 '0' ++ ['7']
    (maxLiteral < digitsValue ones ∧
      Source.ReachesRun ⟨none, String.ofList ones⟩ [] .start ones [] ∧
      ¬Source.ScansOrComplains ⟨none, String.ofList ones⟩) ∧
    digitsValue seven = 7 ∧ Source.ReachesRun ⟨none, String.ofList seven⟩ [] .start seven [] ∧
      ¬Source.ReadsByValue ⟨none, String.ofList seven⟩ [] .start seven [] := by
  intro ones seven
  obtain ⟨hones, hlen₁⟩ := Source.reachesRun_row 4300 (c := '1') (d := '1') rfl rfl
  obtain ⟨hseven, hlen₂⟩ := Source.reachesRun_row 4300 (c := '0') (d := '7') rfl rfl
  have hlt : Text.maxDecimalDigits < 4300 + 1 := by decide
  refine ⟨⟨maxLiteral_lt_ones (by decide), hones, hones.not_scansOrComplains (hlen₁ ▸ hlt)⟩,
    digitsValue_zeros 4300 ['7'], hseven, fun h => ?_⟩
  exact Nat.not_le.mpr hlt (hlen₂ ▸ hseven.length_le h)

/-! ### Stray characters -/

/-- The characters that marks are made of, but for the exclamation mark. -/
def markChars : List Char := ['+', '-', '*', '/', '(', ')', '<', '>', '=', ';']

/-- The character in front of a text is no blank and part of no token: it belongs to no word, no
number and no mark, and is no exclamation mark before an equals sign. -/
def isStray : List Char → Bool
  | [] => false
  | c :: cs =>
    !(isSpace c || isNameChar c || markChars.contains c || c == '!' && cs.head? == some '=')

section Stray

variable {c : Char} {cs text : List Char} {l : Lexeme}

theorem isStray_cons : isStray (c :: cs) = true ↔ isSpace c = false ∧ isNameChar c = false ∧
    c ∉ markChars ∧ ¬(c = '!' ∧ cs.head? = some '=') := by
  simp [isStray, and_assoc, imp_iff_not_or]

theorem exists_cons_of_isStray (h : isStray cs = true) : ∃ c rest, cs = c :: rest := by
  cases cs with
  | nil => cases h
  | cons c rest => exact ⟨c, rest, rfl⟩

theorem isStray_of_part (h : isNameChar c = true ∨ c ∈ markChars) (cs : List Char) :
    isStray (c :: cs) = false := by
  rcases h with h | h <;> simp [isStray, h]

theorem isNameChar_of_isDigit (h : c.isDigit = true) : isNameChar c = true := by
  simp [isNameChar, Char.isAlphanum, h]

theorem isNameStart_or_isDigit (h : isNameChar c = true) :
    isNameStart c = true ∨ c.isDigit = true := by
  simp only [isNameChar, isNameStart, Char.isAlphanum, Bool.or_eq_true] at h ⊢
  tauto

theorem Mark.part_of_mem_spelling {m : Mark} (hm : m ≠ .notEqual) :
    ∀ d ∈ m.spelling, isNameChar d = true ∨ d ∈ markChars := by
  cases m with
  | notEqual => exact absurd rfl hm
  | _ => decide

theorem Mark.exists_spelling (h : c ∈ markChars) : ∃ m : Mark, m.spelling = [c] := by
  simp only [markChars, List.mem_cons, List.not_mem_nil, or_false] at h
  rcases h with rfl | rfl | rfl | rfl | rfl | rfl | rfl | rfl | rfl | rfl
  exacts [⟨.plus, rfl⟩, ⟨.minus, rfl⟩, ⟨.star, rfl⟩, ⟨.slash, rfl⟩, ⟨.openParen, rfl⟩,
    ⟨.closeParen, rfl⟩, ⟨.less, rfl⟩, ⟨.greater, rfl⟩, ⟨.assign, rfl⟩, ⟨.semicolon, rfl⟩]

/-- No character of a token is stray. -/
theorem Spells.isStray_drop (h : Spells text l) (rest : List Char) {i : Nat}
    (hi : i < text.length) : isStray (text.drop i ++ rest) = false := by
  have hpart (hall : ∀ d ∈ text, isNameChar d = true ∨ d ∈ markChars) :
      isStray (text.drop i ++ rest) = false := by
    rw [List.drop_eq_getElem_cons hi, List.cons_append]
    exact isStray_of_part (hall _ (List.getElem_mem hi)) _
  cases h with
  | name hc hcs _ =>
    refine hpart (List.forall_mem_cons.mpr ⟨?_, fun d hd => .inl (hcs d hd)⟩)
    exact .inl (isNameChar_of_isNameStart hc)
  | number _ hcs => exact hpart fun d hd => .inl (isNameChar_of_isDigit (hcs d hd))
  | mark m =>
    by_cases hm : m = .notEqual
    · -- Here the exclamation mark is followed by what makes it part of a token.
      subst hm
      obtain rfl | rfl : i = 0 ∨ i = 1 := by
        simp only [Mark.spelling, List.length_cons, List.length_nil] at hi
        omega
      · rfl
      · rfl
    · exact hpart (Mark.part_of_mem_spelling hm)

/-- A stray character starts no token. -/
theorem not_prefix_of_isStray (h : isStray cs = true) (hs : Spells text l) : ¬text <+: cs := by
  rintro ⟨rest, rfl⟩
  have := hs.isStray_drop rest (List.length_pos_iff.mpr hs.ne_nil)
  rw [List.drop_zero, h] at this
  cases this

/-- Where no token starts there is a stray character, or else a blank. -/
theorem isStray_of_not_prefix (hc : isSpace c = false)
    (h : ∀ text l, Spells text l → ¬text <+: c :: cs) : isStray (c :: cs) = true := by
  have hone {l : Lexeme} : ¬Spells [c] l := fun hs => h [c] l hs (by simp)
  refine isStray_cons.mpr ⟨hc, ?_, fun hm => ?_, ?_⟩
  · rw [← Bool.not_eq_true]
    intro hn
    rcases isNameStart_or_isDigit hn with hn | hd
    · have hw : String.ofList [c] ≠ returnWord := fun hw => by
        have := congrArg String.length hw
        rw [String.length_ofList, List.length_singleton] at this
        exact absurd this (by decide)
      exact hone (.name hn (by simp) hw)
    · exact hone (.number (by simp) (by simpa using hd))
  · obtain ⟨m, hm⟩ := Mark.exists_spelling hm
    exact hone (hm ▸ Spells.mark m)
  · rintro ⟨rfl, hhead⟩
    obtain ⟨more, rfl⟩ := List.head?_eq_some_iff.mp hhead
    exact h _ _ (.mark .notEqual) ⟨more, rfl⟩

/-- No token goes on over a stray character. -/
theorem Lexeme.absorbs_of_isStray (h : isStray cs = true) (l : Lexeme) :
    ∀ c ∈ cs.head?, l.absorbs c = false := by
  intro c hc
  obtain ⟨rest, rfl⟩ := List.head?_eq_some_iff.mp hc
  obtain ⟨-, hn, hm, -⟩ := isStray_cons.mp h
  rw [← Bool.not_eq_true]
  intro ha
  obtain ⟨-, hc⟩ | ⟨-, hc⟩ | ⟨-, rfl⟩ := absorbs_cases ha
  · rw [hc] at hn
    cases hn
  · rw [isNameChar_of_isDigit hc] at hn
    cases hn
  · exact hm (by decide)

end Stray

namespace Passes

variable {file : Option String} {p p' : Position} {cs cs' : List Char} {ts : List Token}

/-- Nothing that is passed is stray. -/
theorem isStray_drop (h : Passes file p cs ts p' cs') {i : Nat} (hi : i + cs'.length < cs.length) :
    isStray (cs.drop i) = false := by
  induction h generalizing i with
  | stop p cs => omega
  | @blank p p' c cs cs' ts hc _ ih =>
    cases i with
    | zero => simp [isStray, hc]
    | succ i =>
      rw [List.length_cons] at hi
      exact ih (by omega)
  | @token p p' text cs cs' l ts _ hs _ _ ih =>
    rw [List.length_append] at hi
    by_cases hlt : i < text.length
    · rw [List.drop_append_of_le_length (Nat.le_of_lt hlt)]
      exact hs.isStray_drop cs hlt
    · rw [List.drop_append, List.drop_eq_nil_of_le (Nat.not_lt.mp hlt), List.nil_append]
      exact ih (by omega)

/-- A text that is passed to its end is passed before anything that no token goes on over. -/
theorem append (h : Passes file p cs ts p' []) {rest : List Char}
    (hrest : ∀ l : Lexeme, ∀ c ∈ rest.head?, l.absorbs c = false) :
    Passes file p (cs ++ rest) ts p' rest := by
  generalize hend : [] = cs' at h
  induction h with
  | stop p cs =>
    subst hend
    exact .stop p rest
  | blank hc _ ih => exact .blank hc (ih hend)
  | @token p p' text cs cs' l ts hlong hs ha _ ih =>
    obtain ⟨shape, -, hfound⟩ := hlong.exists_found hs
    obtain ⟨more, heq, hmore⟩ := hfound.rest
    obtain rfl : cs = more := List.append_cancel_left heq
    rw [List.append_assoc]
    refine .token (hs.longest fun d hd => ?_) hs ha (ih hend)
    -- What follows the token is what followed it before, unless it was the last.
    cases cs with
    | nil => exact hrest l d hd
    | cons c cs => exact hmore d hd

end Passes

namespace Source

/-- A source that ends before an offset. -/
def upTo (s : Source) (k : Nat) : Source := ⟨s.file, String.ofList (s.text.toList.take k)⟩

/-- A scan ends with the complaint that the character at an offset is invalid. -/
def RefusesAt (s : Source) (k : Nat) (char : Option String) : Prop :=
  ∃ d, s.tokens = .error (.diagnostic d) ∧ d.cause = .invalidCharacter char ∧
    d.location.map Location.offset = some (k : Int)

variable {s : Source} {k : Nat} {char : Option String} {ts : List Token} {p : Position}

/-- Characters are refused where the scan comes to a stray one. -/
theorem refusesAt_iff : s.RefusesAt k char ↔ ∃ ts p c rest, s.Reaches ts p (c :: rest) ∧
    isStray (c :: rest) = true ∧ p.offset = k ∧ char = some (String.singleton c) := by
  constructor
  · rintro ⟨d, hd, hcause, hoffset⟩
    obtain ⟨ts, p, cs, hreach, hhalts⟩ := scan_eq_error_iff.mp hd
    generalize he : Failure.diagnostic d = e at hhalts
    cases hhalts with
    | @character c rest hc h =>
      cases he
      cases hcause
      refine ⟨ts, p, c, rest, hreach, isStray_of_not_prefix hc h, ?_, rfl⟩
      simpa [Position.locate] using hoffset
    | tooLong => cases he
    | tooLarge =>
      cases he
      cases hcause
  · rintro ⟨ts, p, c, rest, hreach, hstray, rfl, rfl⟩
    have hhalts : Halts s p (c :: rest) _ := .character (isStray_cons.mp hstray).1
      fun text l hs => not_prefix_of_isStray hstray hs
    exact ⟨_, hreach.tokens_eq_error hhalts, rfl, rfl⟩

/-- What was passed on the way to a place is what a source that ends there has for tokens. -/
theorem Reaches.tokens_upTo {rest : List Char} (h : s.Reaches ts p rest) :
    (s.upTo p.offset).tokens = .ok (ts ++ [s.endToken p]) := by
  obtain ⟨front, heq, hp, hpass⟩ := h.exists_front
  refine scan_eq_ok_iff.mpr ⟨ts, p, ?_, rfl⟩
  rw [upTo, String.toList_ofList, offset_eq hp, heq, List.take_left]
  exact hpass

/-- Whatever has tokens up to a stray character is scanned as far as that. -/
theorem reaches_of_tokens_upTo {tokens : List Token} (h : (s.upTo k).tokens = .ok tokens)
    (hstray : isStray (s.text.toList.drop k) = true) :
    ∃ ts p, s.Reaches ts p (s.text.toList.drop k) ∧ p.offset = k := by
  obtain ⟨ts, p, hpass, -⟩ := scan_eq_ok_iff.mp h
  rw [upTo, String.toList_ofList] at hpass
  have hall := hpass.append (Lexeme.absorbs_of_isStray hstray)
  rw [List.take_append_drop] at hall
  refine ⟨ts, p, hall, ?_⟩
  obtain ⟨front, heq, hp, -⟩ := hpass.exists_front
  have hk : k < s.text.toList.length := by
    by_contra hle
    rw [List.drop_eq_nil_of_le (Nat.not_lt.mp hle)] at hstray
    cases hstray
  rw [Reaches.offset_eq hp, ← List.append_nil front, ← heq, List.length_take,
    Nat.min_eq_left (Nat.le_of_lt hk)]

end Source

/-- A scan complains of an invalid character at an offset just when the first stray character is
there and what stands before it has tokens. It names the character; and the tokens of what stands
before it are those that had been read by then, and the end of input at the offset. -/
theorem invalidCharacter_iff_isLeast (s : Source) (k : Nat) :
    ((∃ char, s.RefusesAt k char) ↔ IsLeast {i | isStray (s.text.toList.drop i) = true} k ∧
      ∃ tokens, (s.upTo k).tokens = .ok tokens) ∧
    ∀ char, s.RefusesAt k char →
      (∃ c, s.text.toList[k]? = some c ∧ char = some (String.singleton c)) ∧
      ∃ ts p, s.Reaches ts p (s.text.toList.drop k) ∧
        (s.upTo k).tokens = .ok (ts ++ [s.endToken p]) ∧
        (s.endToken p).location = s.locationAt k := by
  refine ⟨⟨?_, ?_⟩, ?_⟩
  · rintro ⟨char, h⟩
    obtain ⟨ts, p, c, rest, hreach, hstray, rfl, rfl⟩ := Source.refusesAt_iff.mp h
    refine ⟨⟨?_, fun i hi => ?_⟩, _, hreach.tokens_upTo⟩
    · rwa [Set.mem_ofPred_eq, hreach.drop_offset]
    · by_contra hlt
      have hlen := congrArg List.length hreach.drop_offset
      rw [List.length_drop, List.length_cons] at hlen
      have hbefore : i + (c :: rest).length < s.text.toList.length := by
        rw [List.length_cons]
        omega
      rw [Set.mem_ofPred_eq, hreach.isStray_drop hbefore] at hi
      cases hi
  · rintro ⟨⟨hstray, -⟩, tokens, htokens⟩
    obtain ⟨ts, p, hreach, rfl⟩ := Source.reaches_of_tokens_upTo htokens hstray
    obtain ⟨c, rest, hcons⟩ := exists_cons_of_isStray hstray
    rw [Set.mem_ofPred_eq, hcons] at hstray
    rw [hcons] at hreach
    exact ⟨_, Source.refusesAt_iff.mpr ⟨ts, p, c, rest, hreach, hstray, rfl, rfl⟩⟩
  · intro char h
    obtain ⟨ts, p, c, rest, hreach, hstray, rfl, rfl⟩ := Source.refusesAt_iff.mp h
    have hdrop := hreach.drop_offset
    refine ⟨⟨c, ?_, rfl⟩, ts, p, hdrop ▸ hreach, hreach.tokens_upTo, hreach.locate_eq⟩
    rw [← List.head?_drop, hdrop]
    rfl

/-- Of two exclamation marks, the one before an equals sign is part of a token. -/
theorem invalidCharacter_iff_isLeast_lone_mark :
    let s : Source := ⟨none, "a != !b"⟩
    s.RefusesAt 5 (some "!") ∧ IsLeast {i | isStray (s.text.toList.drop i) = true} 5 ∧
      ∃ ts p, s.Reaches ts p (s.text.toList.drop 5) ∧
        (s.upTo 5).tokens = .ok (ts ++ [s.endToken p]) := by
  intro s
  have htokens : s.tokens = .error (.diagnostic
      ⟨.invalidCharacter (some "!"), some ⟨none, 1, 6, 5⟩, some "a != !b"⟩) :=
    eq_error_of_map (f := fun _ => ()) (by decide +kernel)
  have hrefuses : s.RefusesAt 5 (some "!") := ⟨_, htokens, rfl, rfl⟩
  obtain ⟨-, ts, p, hreach, hbefore, -⟩ := (invalidCharacter_iff_isLeast s 5).2 _ hrefuses
  exact ⟨hrefuses, ((invalidCharacter_iff_isLeast s 5).1.mp ⟨_, hrefuses⟩).1, ts, p, hreach,
    hbefore⟩

end WordLang
