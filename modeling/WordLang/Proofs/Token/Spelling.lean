import Mathlib.Data.Nat.Digits.Defs
import WordLang.Proofs.Scanning
import WordLang.Proofs.Token.Position

/-! The lexical grammar: the texts that spell tokens, and what they mean. It knows nothing of the
order in which a scanner tries things. At the front of any text, the scanner finds the longest text
that spells a token. -/
namespace WordLang

/-! ### Spellings -/

/-- The characters of a mark. -/
def Mark.spelling : Mark → List Char
  | .keywordReturn => returnWord.toList
  | .plus => ['+']
  | .minus => ['-']
  | .star => ['*']
  | .slash => ['/']
  | .equal => ['=', '=']
  | .notEqual => ['!', '=']
  | .less => ['<']
  | .greater => ['>']
  | .lessEqual => ['<', '=']
  | .greaterEqual => ['>', '=']
  | .assign => ['=']
  | .openParen => ['(']
  | .closeParen => [')']
  | .semicolon => [';']

/-- The value of digits in base ten. -/
def digitsValue (cs : List Char) : Nat := Nat.ofDigits 10 (cs.reverse.map (·.toNat - '0'.toNat))

/-- The texts of tokens: names other than the keyword, runs of digits, and marks. -/
inductive Spells : List Char → Lexeme → Prop
  | name {c : Char} {cs : List Char} (hc : isNameStart c = true)
      (hcs : ∀ d ∈ cs, isNameChar d = true)
      (hw : String.ofList (c :: cs) ≠ returnWord) :
      Spells (c :: cs) (.identifier (String.ofList (c :: cs)))
  | number {cs : List Char} (hn : cs ≠ []) (hcs : ∀ c ∈ cs, c.isDigit = true) :
      Spells cs (.number (digitsValue cs))
  | mark (m : Mark) : Spells m.spelling (.mark m (some (String.ofList m.spelling)))

/-- A text is the longest at the front of another one that spells a token. -/
structure Longest (text cs : List Char) : Prop where
  front : text <+: cs
  spells : ∃ l, Spells text l
  length_le : ∀ u l, Spells u l → u <+: cs → u.length ≤ text.length

/-- The characters that a lexeme goes on over. -/
def Lexeme.absorbs : Lexeme → Char → Bool
  | .identifier _, c | .mark .keywordReturn _, c => isNameChar c
  | .number _, c => c.isDigit
  | .mark .assign _, c | .mark .less _, c | .mark .greater _, c => c == '='
  | _, _ => false

theorem ofDigitChars_eq_digitsValue (cs : List Char) :
    Nat.ofDigitChars 10 cs 0 = digitsValue cs := by
  induction cs using List.reverseRecOn with
  | nil => rfl
  | append_singleton cs c ih =>
    rw [Nat.ofDigitChars_append, ih, Nat.ofDigitChars_cons]
    simp [digitsValue, Nat.ofDigits_cons]
    omega

/-! ### First characters -/

theorem isDigit_of_isNameStart {c : Char} (h : isNameStart c = true) : c.isDigit = false := by
  cases hd : c.isDigit with
  | false => rfl
  | true =>
    have := toNat_of_isNameStart h
    have := Text.toNat_of_isDigit hd
    omega

theorem toNat_of_isSpace {c : Char} (h : isSpace c = true) : c.toNat ≤ 32 := by
  simp only [isSpace, Bool.or_eq_true, beq_iff_eq] at h
  rcases h with ((((rfl | rfl) | rfl) | rfl) | rfl) | rfl <;> decide

theorem isSpace_of_isNameChar {c : Char} (h : isNameChar c = true) : isSpace c = false := by
  by_contra hs
  have := toNat_of_isSpace (Bool.eq_true_of_not_eq_false hs)
  have := toNat_of_isNameChar h
  omega

theorem isSpace_of_isDigit {c : Char} (h : c.isDigit = true) : isSpace c = false := by
  by_contra hs
  have := toNat_of_isSpace (Bool.eq_true_of_not_eq_false hs)
  have := Text.toNat_of_isDigit h
  omega

/-- Words go on over name characters, numbers over digits, and three marks over an equals sign. -/
theorem Lexeme.absorbs_cases {l : Lexeme} {c : Char} (h : l.absorbs c = true) :
    l.kind ∈ [.identifier, .mark .keywordReturn] ∧ isNameChar c = true ∨
      l.kind = .number ∧ c.isDigit = true ∨
      l.kind ∈ [.mark .assign, .mark .less, .mark .greater] ∧ c = '=' := by
  cases l with
  | endOfInput => cases h
  | identifier x => exact .inl ⟨by simp [kind], h⟩
  | number v => exact .inr (.inl ⟨rfl, h⟩)
  | mark m v =>
    cases m with
    | keywordReturn => exact .inl ⟨by simp [kind], h⟩
    | assign | less | greater => exact .inr (.inr ⟨by simp [kind], beq_iff_eq.mp h⟩)
    | _ => cases h

/-- A token does not go on over a blank. -/
theorem Lexeme.absorbs_of_isSpace {c : Char} (h : isSpace c = true) (l : Lexeme) :
    l.absorbs c = false := by
  by_contra hl
  have hs : isSpace c = false := by
    obtain ⟨-, hc⟩ | ⟨-, hc⟩ | ⟨-, rfl⟩ := absorbs_cases (Bool.eq_true_of_not_eq_false hl)
    · exact isSpace_of_isNameChar hc
    · exact isSpace_of_isDigit hc
    · decide
  rw [h] at hs
  cases hs

/-- Marks other than the keyword start like no name and no number. -/
theorem Mark.head_spelling {m : Mark} (hm : m ≠ .keywordReturn) {c : Char} {cs : List Char}
    (h : m.spelling = c :: cs) : isNameStart c = false ∧ c.isDigit = false := by
  cases m with
  | keywordReturn => exact absurd rfl hm
  | _ => cases h; decide

theorem Mark.find?_spelling (m : Mark) : all.find? (·.spelling = m.spelling) = some m := by
  cases m <;> decide

theorem Mark.spelling_injective {m m' : Mark} (h : m.spelling = m'.spelling) : m = m' := by
  have hm := m.find?_spelling
  rw [h, m'.find?_spelling] at hm
  exact (Option.some.inj hm).symm

theorem Mark.spelling_pair {m : Mark} (hm : m ≠ .keywordReturn) {c d : Char} {rest : List Char}
    (h : m.spelling = c :: d :: rest) : rest = [] ∧ d = '=' ∧ c ∈ ['=', '!', '<', '>'] := by
  cases m with
  | keywordReturn => exact absurd rfl hm
  | equal | notEqual | lessEqual | greaterEqual => cases h; decide
  | _ => cases h

theorem Mark.absorbs_of_spelling {m : Mark} {c : Char} (h : m.spelling = [c])
    (hc : c ∈ ['=', '!', '<', '>']) (v : Option String) :
    (Lexeme.mark m v).absorbs '=' = true := by
  cases m with
  | assign | less | greater => rfl
  | _ => cases h <;> exact absurd hc (by decide)

namespace Spells

variable {c : Char} {cs text : List Char} {l l' : Lexeme}

theorem ne_nil (h : Spells text l) : text ≠ [] := by
  cases h with
  | name => simp
  | number hn => exact hn
  | mark m => cases m <;> decide

theorem of_isNameStart (h : Spells (c :: cs) l) (hc : isNameStart c = true) :
    (∀ d ∈ cs, isNameChar d = true) ∧
      l = if String.ofList (c :: cs) = returnWord then .mark .keywordReturn (some returnWord)
        else .identifier (String.ofList (c :: cs)) := by
  generalize ht : c :: cs = text at h
  cases h with
  | name _ hcs hw =>
    cases ht
    exact ⟨hcs, by rw [if_neg hw]⟩
  | number _ hd =>
    have := hd c (by simp [← ht])
    rw [isDigit_of_isNameStart hc] at this
    cases this
  | mark m =>
    by_cases hm : m = .keywordReturn
    · subst hm
      rw [show Mark.keywordReturn.spelling = returnWord.toList from rfl, String.ofList_toList]
      refine ⟨?_, by rw [if_pos rfl]⟩
      cases ht
      decide
    · have := (Mark.head_spelling hm ht.symm).1
      rw [hc] at this
      cases this

theorem of_isDigit (h : Spells (c :: cs) l) (hc : c.isDigit = true) :
    (∀ d ∈ cs, d.isDigit = true) ∧ l = .number (digitsValue (c :: cs)) := by
  generalize ht : c :: cs = text at h
  cases h with
  | name hn =>
    cases ht
    rw [isDigit_of_isNameStart hn] at hc
    cases hc
  | number _ hd =>
    subst ht
    exact ⟨fun d hm => hd d (by simp [hm]), rfl⟩
  | mark m =>
    have hm : m ≠ .keywordReturn := by
      rintro rfl
      cases ht
      cases hc
    have := (Mark.head_spelling hm ht.symm).2
    rw [hc] at this
    cases this

theorem of_other (h : Spells (c :: cs) l) (hc : isNameStart c = false) (hd : c.isDigit = false) :
    ∃ m, m ≠ .keywordReturn ∧ m.spelling = c :: cs ∧
      l = .mark m (some (String.ofList (c :: cs))) := by
  generalize ht : c :: cs = text at h
  cases h with
  | name hn => cases ht; rw [hc] at hn; cases hn
  | number _ hall =>
    have := hall c (by simp [← ht])
    rw [hd] at this
    cases this
  | mark m =>
    refine ⟨m, ?_, rfl, rfl⟩
    rintro rfl
    cases ht
    cases hc

/-- No blank is part of a token. -/
theorem isSpace_eq (h : Spells text l) : ∀ d ∈ text, isSpace d = false := by
  cases h with
  | name hc hcs _ =>
    simp only [List.mem_cons, forall_eq_or_imp]
    exact ⟨isSpace_of_isNameChar (isNameChar_of_isNameStart hc),
      fun d hd => isSpace_of_isNameChar (hcs d hd)⟩
  | number _ hcs => exact fun d hd => isSpace_of_isDigit (hcs d hd)
  | mark m => cases m <;> decide

/-- A text means one thing only. -/
theorem unique (h : Spells text l) (h' : Spells text l') : l = l' := by
  cases text with
  | nil => exact absurd rfl h.ne_nil
  | cons c cs =>
    cases hc : isNameStart c with
    | true => rw [(h.of_isNameStart hc).2, (h'.of_isNameStart hc).2]
    | false =>
      cases hd : c.isDigit with
      | true => rw [(h.of_isDigit hd).2, (h'.of_isDigit hd).2]
      | false =>
        obtain ⟨m, -, hm, rfl⟩ := h.of_other hc hd
        obtain ⟨m', -, hm', rfl⟩ := h'.of_other hc hd
        rw [Mark.spelling_injective (hm.trans hm'.symm)]

/-- What a longer text has behind a shorter one, the shorter one goes on over. -/
theorem absorbs_of_append {d : Char} {rest : List Char} (h : Spells text l)
    (h' : Spells (text ++ d :: rest) l') : l.absorbs d = true := by
  -- Both texts start with the same character, which tells what the longer one can go on with.
  cases h with
  | name hc _ _ => exact (h'.of_isNameStart hc).1 d (by simp)
  | number hn hcs =>
    obtain ⟨c, cs, rfl⟩ := List.exists_cons_of_ne_nil hn
    exact (h'.of_isDigit (hcs c (by simp))).1 d (by simp)
  | mark m =>
    by_cases hm : m = .keywordReturn
    · subst hm
      exact (h'.of_isNameStart (by decide)).1 d (by simp)
    · obtain ⟨c, cs, hs⟩ := List.exists_cons_of_ne_nil (Spells.mark m).ne_nil
      obtain ⟨hc, hd⟩ := Mark.head_spelling hm hs
      rw [hs] at h'
      obtain ⟨m', hm', hs', -⟩ := h'.of_other hc hd
      cases cs with
      | nil =>
        obtain ⟨-, rfl, hpair⟩ := Mark.spelling_pair hm' hs'
        exact Mark.absorbs_of_spelling hs hpair _
      | cons e cs =>
        have := (Mark.spelling_pair hm' hs').1
        simp at this

end Spells

/-- A text is the longest where none of the characters follows that it goes on over. -/
theorem Spells.longest {text rest : List Char} {l : Lexeme} (h : Spells text l)
    (hrest : ∀ d ∈ rest.head?, l.absorbs d = false) : Longest text (text ++ rest) := by
  refine ⟨List.prefix_append _ _, ⟨l, h⟩, fun u l' hu hfront => ?_⟩
  by_contra hlt
  obtain ⟨v, rfl⟩ :=
    List.prefix_of_prefix_length_le (List.prefix_append text rest) hfront (by omega)
  cases v with
  | nil => simp at hlt
  | cons d v =>
    obtain ⟨w, hw⟩ := hfront
    rw [List.append_assoc, List.append_cancel_left_eq] at hw
    have hd := hrest d (by simp [← hw])
    rw [h.absorbs_of_append hu] at hd
    cases hd

/-- The longest text stays the longest where what follows it is cut. -/
theorem Longest.of_prefix {text cs cs' : List Char} (h : Longest text cs) (ht : text <+: cs')
    (hcs : cs' <+: cs) : Longest text cs' :=
  ⟨ht, h.spells, fun u l hu hfront => h.length_le u l hu (hfront.trans hcs)⟩

/-! ### The front of a text -/

theorem eq_or_of_ite_eq_some {c d : Char} {m m' : Mark} {r : Option Mark}
    (h : (if c = d then some m else r) = some m') : (c = d ∧ m = m') ∨ r = some m' := by
  split at h
  · rename_i hc
    exact .inl ⟨hc, Option.some.inj h⟩
  · exact .inr h

theorem Mark.spelling_of_ofChar? {c : Char} {m : Mark} (h : ofChar? c = some m) :
    m.spelling = [c] := by
  unfold ofChar? at h
  repeat (obtain ⟨rfl, rfl⟩ | h := eq_or_of_ite_eq_some h; · rfl)
  cases h

theorem Mark.spelling_of_ofPair? {c d : Char} {m : Mark} (h : ofPair? c d = some m) :
    m.spelling = [c, d] := by
  unfold ofPair? at h
  split at h
  · rename_i hd
    subst hd
    repeat (obtain ⟨rfl, rfl⟩ | h := eq_or_of_ite_eq_some h; · rfl)
    cases h
  · cases h

/-- Every mark but the keyword is found by its characters. -/
theorem Mark.found_of_spelling {m : Mark} (hm : m ≠ .keywordReturn) {c : Char} {cs : List Char}
    (h : m.spelling = c :: cs) :
    cs = [] ∧ ofChar? c = some m ∨ cs = ['='] ∧ ofPair? c '=' = some m := by
  cases m with
  | keywordReturn => exact absurd rfl hm
  | _ => cases h; decide

/-- Over a text without a line feed the scan stays on its line. -/
theorem Source.diagnoseFrom_after (s : Source) (p : Position) {text : List Char}
    (h : '\n' ∉ text) (cause : Cause) : s.diagnoseFrom p (p.after text) cause = s.diagnose p cause := by
  rw [diagnose, diagnoseFrom, diagnoseFrom, currentLine, currentLine, p.lineStart_after h]

/-- What becomes of a lexeme: a numeral is counted before it is valued. -/
def Source.weigh (s : Source) (p : Position) (text : List Char) : Lexeme → Except Failure Lexeme
  | .number v =>
    if Text.maxDecimalDigits < text.length then .error (.numeralTooLong text.length)
    else if maxLiteral < v then .error (s.diagnose p (.literalTooLarge (String.ofList text)))
    else .ok (.number v)
  | l => .ok l

/-- A lexeme that may have a text: only numerals are limited, in length and in value. -/
def Admitted (text : List Char) (l : Lexeme) : Prop :=
  ∀ v, l = .number v → text.length ≤ Text.maxDecimalDigits ∧ v ≤ maxLiteral

theorem Source.weigh_of_admitted {text : List Char} {l : Lexeme} (h : Admitted text l) (s : Source)
    (p : Position) : s.weigh p text l = .ok l := by
  cases l with
  | number v =>
    obtain ⟨hlen, hv⟩ := h v rfl
    rw [weigh, if_neg (by omega), if_neg (by omega)]
  | _ => rfl

/-- A shape and a text come to a lexeme, and the text is not followed by more of it. -/
structure Found (cs : List Char) (shape : Shape) (text : List Char) (l : Lexeme) : Prop where
  spells : Spells text l
  rest : ∃ rest, cs = text ++ rest ∧ ∀ d ∈ rest.head?, l.absorbs d = false
  lexeme_eq : ∀ (s : Source) (p : Position), s.lexeme p shape text = s.weigh p text l

theorem exists_append_dropWhile (p : Char → Bool) (c : Char) (cs : List Char) :
    ∃ rest, c :: cs = c :: cs.takeWhile p ++ rest ∧ ∀ d ∈ rest.head?, p d = false := by
  refine ⟨cs.dropWhile p, by rw [List.cons_append, List.takeWhile_append_dropWhile], ?_⟩
  intro d hd
  have := List.head?_dropWhile_not p cs
  rwa [hd] at this

theorem found_word {c : Char} (hc : isNameStart c = true) (cs : List Char) :
    ∃ l, Found (c :: cs) .word (c :: cs.takeWhile isNameChar) l := by
  have hall : ∀ d ∈ cs.takeWhile isNameChar, isNameChar d = true :=
    List.all_eq_true.mp List.all_takeWhile
  obtain ⟨rest, heq, hrest⟩ := exists_append_dropWhile isNameChar c cs
  by_cases hw : String.ofList (c :: cs.takeWhile isNameChar) = returnWord
  · have ht : c :: cs.takeWhile isNameChar = Mark.keywordReturn.spelling := by
      rw [Mark.spelling, ← hw, String.toList_ofList]
    rw [ht] at heq hw ⊢
    refine ⟨_, .mark .keywordReturn, ⟨rest, heq, hrest⟩, fun s p => ?_⟩
    rw [Source.lexeme, if_pos hw, hw]
    rfl
  · refine ⟨_, .name hc hall hw, ⟨rest, heq, hrest⟩, fun s p => ?_⟩
    rw [Source.lexeme, if_neg hw]
    rfl

theorem found_digits {c : Char} (hc : c.isDigit = true) (cs : List Char) :
    ∃ l, Found (c :: cs) .digits (c :: cs.takeWhile Char.isDigit) l := by
  have hall : ∀ d ∈ c :: cs.takeWhile Char.isDigit, d.isDigit = true := by
    simp only [List.mem_cons, forall_eq_or_imp]
    exact ⟨hc, List.all_eq_true.mp List.all_takeWhile⟩
  refine ⟨_, .number (by simp) hall, exists_append_dropWhile Char.isDigit c cs, fun s p => ?_⟩
  have hline : '\n' ∉ c :: cs.takeWhile Char.isDigit := fun h => absurd (hall _ h) (by decide)
  rw [Source.lexeme, Source.weigh, ofDigitChars_eq_digitsValue, s.diagnoseFrom_after p hline]
  simp only [Nat.cast_lt]

theorem found_mark {m : Mark} {text rest : List Char}
    (hs : m.spelling = text)
    (hrest : ∀ d ∈ rest.head?, (Lexeme.mark m (some (String.ofList text))).absorbs d = false) :
    ∃ l, Found (text ++ rest) (.mark m) text l := by
  subst hs
  exact ⟨_, .mark m, ⟨rest, rfl, hrest⟩, fun _ _ => rfl⟩

theorem Mark.absorbs_of_pair {m : Mark} {c d : Char} (h : m.spelling = [c, d])
    (v : Option String) (e : Char) : (Lexeme.mark m v).absorbs e = false := by
  cases m with
  | equal | notEqual | lessEqual | greaterEqual => rfl
  | _ => cases h

theorem Mark.absorbs_of_not_pair {m : Mark} {c d : Char} (h : m.spelling = [c])
    (hp : ofPair? c d = none) (v : Option String) : (Lexeme.mark m v).absorbs d = false := by
  cases m with
  | assign | less | greater =>
    cases h
    rw [Lexeme.absorbs, beq_eq_false_iff_ne]
    rintro rfl
    cases hp
  | keywordReturn => cases h
  | _ => rfl

/-- What the scanner finds at the front of a text. -/
theorem exists_found {cs text : List Char} {shape : Shape} (h : front? cs = some (shape, text)) :
    ∃ l, Found cs shape text l := by
  cases cs with
  | nil => cases h
  | cons c cs =>
    rw [front?] at h
    split at h
    · rename_i hc
      cases h
      exact found_word hc cs
    split at h
    · rename_i hd
      cases h
      exact found_digits hd cs
    -- Neither a word nor a number: two characters are tried before one.
    rename_i hc hd
    rw [Bool.not_eq_true] at hc hd
    split at h
    · rename_i m hm
      cases h
      cases cs with
      | nil => cases hm
      | cons d cs =>
        have hs := Mark.spelling_of_ofPair? hm
        exact found_mark hs fun e _ => Mark.absorbs_of_pair hs _ e
    · rename_i hpair
      obtain ⟨m, hm, heq⟩ := Option.map_eq_some_iff.mp h
      cases heq
      have hs := Mark.spelling_of_ofChar? hm
      refine found_mark hs fun d hd => Mark.absorbs_of_not_pair hs ?_ _
      rwa [hd] at hpair

/-- Where the scanner finds nothing, no text at the front spells a token. -/
theorem not_spells_of_front? {cs text : List Char} {l : Lexeme} (h : front? cs = none)
    (hs : Spells text l) : ¬text <+: cs := by
  intro hfront
  obtain ⟨c, u, rfl⟩ := List.exists_cons_of_ne_nil hs.ne_nil
  obtain ⟨rest, rfl⟩ := hfront
  rw [List.cons_append, front?] at h
  split at h
  · cases h
  split at h
  · cases h
  rename_i hc hd
  rw [Bool.not_eq_true] at hc hd
  obtain ⟨m, hm, hsp, -⟩ := hs.of_other hc hd
  split at h
  · cases h
  rename_i hpair
  obtain ⟨-, hfound⟩ | ⟨rfl, hfound⟩ := Mark.found_of_spelling hm hsp
  · rw [hfound] at h
    cases h
  · have : Mark.ofPair? c '=' = none := hpair
    rw [hfound] at this
    cases this

theorem Found.longest {cs text : List Char} {shape : Shape} {l : Lexeme}
    (h : Found cs shape text l) : Longest text cs := by
  obtain ⟨rest, rfl, hrest⟩ := h.rest
  exact h.spells.longest hrest

/-- The longest text at the front that spells a token is what the scanner finds there. -/
theorem Longest.exists_found {cs text : List Char} {l : Lexeme} (h : Longest text cs)
    (hs : Spells text l) : ∃ shape, front? cs = some (shape, text) ∧ Found cs shape text l := by
  cases hf : front? cs with
  | none => exact absurd h.front (not_spells_of_front? hf hs)
  | some r =>
    obtain ⟨shape, u⟩ := r
    obtain ⟨l', hfound⟩ := WordLang.exists_found hf
    have hu := hfound.longest
    have hlen := Nat.le_antisymm (h.length_le u l' hfound.spells hu.front)
      (hu.length_le text l hs h.front)
    obtain rfl : u = text :=
      (List.prefix_of_prefix_length_le hu.front h.front (Nat.le_of_eq hlen)).eq_of_length hlen
    obtain rfl := hs.unique hfound.spells
    exact ⟨shape, rfl, hfound⟩

end WordLang
