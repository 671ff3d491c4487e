import Mathlib.Data.List.TakeWhile
import WordLang.Text.Lines
import WordLang.Text.Numeral

/-! Reading back what was written: blanks around a text are cut, pieces between separators and lines
between line ends are found again, and a numeral in base ten stands for the integer it was written
for. -/
namespace WordLang.Text

/-- What holds of the characters of a text is decided by going through the text, never by going
through all characters there are. -/
instance decidableForallMem {p : Char → Prop} [DecidablePred p] (cs : List Char) :
    Decidable (∀ c ∈ cs, p c) :=
  List.decidableBAll p cs

/-! ### Fronts and ends -/

theorem ne_of_head? {a b : String} (h : a.toList.head? ≠ b.toList.head?) : a ≠ b := by
  rintro rfl
  exact h rfl

/-- Equal texts are equal before and behind the last mark of a kind. -/
theorem append_cons_cancel {a : Char} {xs ys zs ws : List Char} (hy : a ∉ ys) (hw : a ∉ ws)
    (h : xs ++ a :: ys = zs ++ a :: ws) : xs = zs ∧ ys = ws := by
  rcases List.append_eq_append_iff.mp h with ⟨as, rfl, htail⟩ | ⟨as, rfl, htail⟩
  · cases as with
    | nil => simpa using htail
    | cons b as => simp [(List.cons.inj htail).2] at hy
  · cases as with
    | nil => simpa [eq_comm] using htail
    | cons b as => simp [(List.cons.inj htail).2] at hw

/-! ### Blanks -/

theorem dropWhile_of_head? {p : Char → Bool} {cs : List Char} (h : ∀ c ∈ cs.head?, p c = false) :
    cs.dropWhile p = cs := by
  cases cs with
  | nil => rfl
  | cons c rest => exact List.dropWhile_cons_of_neg (by rw [h c rfl]; exact Bool.false_ne_true)

/-- Blanks before a text are cut, and a text that neither starts nor ends with a blank stays. -/
theorem trimBy_append {p : Char → Bool} (blanks : List Char) {cs : List Char}
    (hb : ∀ c ∈ blanks, p c) (hh : ∀ c ∈ cs.head?, p c = false)
    (hl : ∀ c ∈ cs.getLast?, p c = false) : trimBy p (blanks ++ cs) = cs := by
  have hr : ∀ c ∈ cs.reverse.head?, p c = false := by simpa using hl
  rw [trimBy, List.dropWhile_append_of_pos hb, dropWhile_of_head? hh, dropWhile_of_head? hr,
    List.reverse_reverse]

theorem trimBy_of_forall {p : Char → Bool} {cs : List Char} (h : ∀ c ∈ cs, p c = false) :
    trimBy p cs = cs :=
  trimBy_append [] (by simp) (fun c hc => h c (List.mem_of_mem_head? hc))
    (fun c hc => h c (List.mem_of_mem_getLast? hc))

theorem firstWord_of_forall {word : List Char} (hw : ∀ c ∈ word, isBlank c = false) :
    firstWord word = (word, []) := by
  have hword : ∀ c ∈ word, (!isBlank c) = true := fun c hc => by simp [hw c hc]
  have hbody : word.dropWhile isBlank = word :=
    dropWhile_of_head? fun c hc => hw c (List.mem_of_mem_head? hc)
  rw [firstWord, hbody]
  simp only [List.takeWhile_eq_self_iff.2 hword, List.dropWhile_eq_nil_iff.2 hword]
  rfl

/-- A word, blanks, and a text that neither starts nor ends with a blank are told apart. -/
theorem firstWord_append {word blanks cs : List Char} {b : Char}
    (hw : ∀ c ∈ word, isBlank c = false) (hn : word ≠ []) (hb : ∀ c ∈ b :: blanks, isBlank c)
    (hh : ∀ c ∈ cs.head?, isBlank c = false) (hl : ∀ c ∈ cs.getLast?, isBlank c = false) :
    firstWord (word ++ (b :: blanks ++ cs)) = (word, cs) := by
  have hword : ∀ c ∈ word, (!isBlank c) = true := fun c hc => by simp [hw c hc]
  have hstop : ¬(!isBlank b) = true := by simp [hb b]
  have hbody : (word ++ (b :: blanks ++ cs)).dropWhile isBlank = word ++ (b :: blanks ++ cs) := by
    refine dropWhile_of_head? fun c hc => hw c ?_
    cases word with
    | nil => exact absurd rfl hn
    | cons w rest => exact List.mem_of_mem_head? hc
  have htake : (b :: blanks ++ cs).takeWhile (!isBlank ·) = [] := List.takeWhile_cons_of_neg hstop
  have hdrop : (b :: blanks ++ cs).dropWhile (!isBlank ·) = b :: blanks ++ cs :=
    List.dropWhile_cons_of_neg hstop
  rw [firstWord, hbody]
  simp only [List.takeWhile_append_of_pos hword, List.dropWhile_append_of_pos hword, htake, hdrop,
    List.append_nil]
  rw [trim, trimBy_append (b :: blanks) hb hh hl]

/-! ### Pieces and lines -/

theorem splitBy_of_forall {p : Char → Bool} {cs : List Char} (h : ∀ c ∈ cs, p c = false) :
    splitBy p cs = [cs] := by
  induction cs with
  | nil => rfl
  | cons c rest ih =>
    have hr : rest.foldr (splitStep p) [[]] = [rest] := ih fun d hd => h d (by simp [hd])
    rw [splitBy, List.foldr_cons, hr, splitStep.eq_def, if_neg (by simp [h c])]

/-- The first piece ends at the first separator. -/
theorem splitBy_append {p : Char → Bool} {cs : List Char} (h : ∀ c ∈ cs, p c = false) {sep : Char}
    (hs : p sep) (rest : List Char) : splitBy p (cs ++ sep :: rest) = cs :: splitBy p rest := by
  induction cs with
  | nil => rw [List.nil_append, splitBy, List.foldr_cons, splitStep.eq_def, if_pos hs, splitBy]
  | cons c more ih =>
    have hr : (more ++ sep :: rest).foldr (splitStep p) [[]] = more :: splitBy p rest :=
      ih fun d hd => h d (by simp [hd])
    rw [List.cons_append, splitBy, List.foldr_cons, hr, splitStep.eq_def, if_neg (by simp [h c])]

/-- Lines without line feeds are found again in the text that they are joined to. -/
theorem sourceLines_intercalate {lines : List String} (hne : lines ≠ [])
    (h : ∀ line ∈ lines, '\n' ∉ line.toList) :
    sourceLines (String.intercalate "\n" lines) = lines := by
  induction lines with
  | nil => exact absurd rfl hne
  | cons line rest ih =>
    have hline : ∀ c ∈ line.toList, (c == '\n') = false := by
      intro c hc
      rw [beq_eq_false_iff_ne]
      rintro rfl
      exact h line (by simp) hc
    cases rest with
    | nil => simp [sourceLines, splitBy_of_forall hline]
    | cons next more =>
      have hrest := ih (by simp) fun l hl => h l (by simp [hl])
      have htext : (String.intercalate "\n" (line :: next :: more)).toList =
          line.toList ++ '\n' :: (String.intercalate "\n" (next :: more)).toList := by
        simp [String.intercalate_cons_cons]
      rw [sourceLines] at hrest
      rw [sourceLines, htext, splitBy_append hline (by simp), List.map_cons, hrest,
        String.ofList_toList]

/-- A line is what stands before the first line feed, if no other line end stands there. -/
theorem linesFrom_append {line : List Char} (h : ∀ c ∈ line, isLineEnd c = false)
    (begun rest : List Char) :
    linesFrom false begun (line ++ '\n' :: rest) =
      (begun.reverse ++ line) :: linesFrom false [] rest := by
  induction line generalizing begun with
  | nil =>
    have hend : isLineEnd '\n' = true := by decide
    rw [List.nil_append, linesFrom, if_neg (by simp), if_pos hend, List.append_nil]
    rfl
  | cons c more ih =>
    have hc := h c (by simp)
    rw [List.cons_append, linesFrom, if_neg (by simp), if_neg (by simp [hc]),
      ih fun d hd => h d (by simp [hd])]
    simp

/-- Lines without line ends are found again in a listing that ends each of them. -/
theorem listingLines_flatMap {lines : List (List Char)}
    (h : ∀ line ∈ lines, ∀ c ∈ line, isLineEnd c = false) :
    listingLines (lines.flatMap (· ++ ['\n'])) = lines := by
  induction lines with
  | nil => rfl
  | cons line rest ih =>
    have hl := linesFrom_append (h line (by simp)) [] (rest.flatMap (· ++ ['\n']))
    rw [List.flatMap_cons, List.append_assoc, List.singleton_append, listingLines, hl]
    simpa [listingLines] using ih fun l hm => h l (by simp [hm])

/-! ### Numerals -/

theorem toNat_of_isDigit {c : Char} (h : c.isDigit) : 48 ≤ c.toNat ∧ c.toNat ≤ 57 := by
  simpa [Char.isDigit, UInt32.le_iff_toNat_le] using h

theorem digitBelow?_of_isDigit {c : Char} (h : c.isDigit) :
    digitBelow? 10 c = some (c.toNat - 48) := by
  have hc := toNat_of_isDigit h
  rw [digitBelow?, digitValue?, if_pos h]
  exact Option.filter_some_pos (by simp; omega)

/-- Digit characters are read as their values. -/
theorem digitsAfter?_of_isDigit {cs : List Char} (h : ∀ c ∈ cs, c.isDigit) :
    digitsAfter? 10 true cs = some (cs.map (·.toNat - 48)) := by
  induction cs with
  | nil => rfl
  | cons c rest ih =>
    have hc := h c (by simp)
    have hu : c ≠ '_' := by rintro rfl; exact absurd hc (by decide)
    rw [digitsAfter?, if_neg hu, digitBelow?_of_isDigit hc, ih fun d hd => h d (by simp [hd])]
    rfl

theorem ofDigits_map (cs : List Char) :
    ofDigits 10 (cs.map (·.toNat - 48)) = Nat.ofDigitChars 10 cs 0 := by
  rw [ofDigits, Nat.ofDigitChars_eq_foldl, List.foldl_map]
  congr 1
  funext n c
  rw [Nat.mul_comm]
  rfl

/-- Only zero is written with a leading zero. -/
theorem eq_zero_of_head?_toDigits {n : Nat} (h : (Nat.toDigits 10 n).head? = some '0') : n = 0 := by
  induction n using Nat.strongRecOn with
  | ind n ih =>
    rw [Nat.toDigits_eq_if (by decide)] at h
    split at h
    · rename_i hn
      have h0 : n.digitChar = '0' := by simpa using h
      have := Nat.toNat_digitChar_of_lt_ten hn
      rw [h0, show '0'.toNat = 48 from rfl] at this
      omega
    · rename_i hn
      cases hd : Nat.toDigits 10 (n / 10) with
      | nil => exact absurd hd Nat.toDigits_ne_nil
      | cons c rest =>
        have hc : (Nat.toDigits 10 (n / 10)).head? = some '0' := by
          rw [hd] at h ⊢
          simpa using h
        have := ih (n / 10) (by omega) hc
        omega

theorem isDigit_of_mem_toDigits {n : Nat} {c : Char} (h : c ∈ Nat.toDigits 10 n) : c.isDigit :=
  Nat.isDigit_of_mem_toDigits (by decide) (by decide) h

/-- A natural number is read back from its digits, if they are not too many. -/
theorem decimal?_toDigits {n : Nat} (h : (Nat.toDigits 10 n).length ≤ maxDecimalDigits) :
    decimal? (Nat.toDigits 10 n) = some n := by
  have hread : digits? 10 (Nat.toDigits 10 n) = some ((Nat.toDigits 10 n).map (·.toNat - 48)) := by
    have hall := fun c (hc : c ∈ Nat.toDigits 10 n) => isDigit_of_mem_toDigits hc
    cases hd : Nat.toDigits 10 n with
    | nil => exact absurd hd Nat.toDigits_ne_nil
    | cons c rest =>
      rw [hd] at hall
      have hc := hall c (by simp)
      have hu : c ≠ '_' := by rintro rfl; exact absurd hc (by decide)
      rw [digits?, digitsAfter?, if_neg hu, digitBelow?_of_isDigit hc,
        digitsAfter?_of_isDigit fun d hd => hall d (by simp [hd])]
      rfl
  have hvalue : ofDigits 10 ((Nat.toDigits 10 n).map (·.toNat - 48)) = n := by
    rw [ofDigits_map, Nat.ofDigitChars_ten_toDigits]
  have hzero : ((Nat.toDigits 10 n).map (·.toNat - 48)).head? = some 0 → n = 0 := by
    intro h0
    apply eq_zero_of_head?_toDigits
    rw [List.head?_map, Option.map_eq_some_iff] at h0
    obtain ⟨c, hc, hv⟩ := h0
    have := toNat_of_isDigit (isDigit_of_mem_toDigits (List.mem_of_mem_head? hc))
    rw [hc, Option.some.injEq]
    exact Char.toNat_inj.mp (show c.toNat = 48 by omega)
  rw [decimal?, hread]
  simp only [hvalue, List.length_map]
  rw [if_neg (by omega), if_neg fun hc => hc.2 (hzero hc.1)]

theorem natural?_toDigits {n : Nat} (h : (Nat.toDigits 10 n).length ≤ maxDecimalDigits) :
    natural? (Nat.toDigits 10 n) = some n := by
  have hread := decimal?_toDigits h
  rw [natural?.eq_def]
  split
  · rename_i b rest hd
    have hn : n = 0 := eq_zero_of_head?_toDigits (by rw [hd]; rfl)
    rw [hn, Nat.toDigits_zero] at hd
    simp at hd
  · exact hread

/-- The characters of an integer in base ten. -/
theorem toList_decimal (n : Int) :
    (decimal n).toList =
      if n < 0 then '-' :: Nat.toDigits 10 n.natAbs else Nat.toDigits 10 n.natAbs := by
  rw [decimal]
  split <;> simp

theorem mem_decimal {n : Int} {c : Char} (h : c ∈ (decimal n).toList) : c = '-' ∨ c.isDigit := by
  rw [toList_decimal] at h
  split at h
  · rcases List.mem_cons.1 h with hc | hc
    · exact Or.inl hc
    · exact Or.inr (isDigit_of_mem_toDigits hc)
  · exact Or.inr (isDigit_of_mem_toDigits h)

theorem notMem_decimal {c : Char} (hm : c ≠ '-') (hd : c.isDigit = false) (n : Int) :
    c ∉ (decimal n).toList := by
  intro h
  rcases mem_decimal h with h | h
  · exact hm h
  · rw [hd] at h
    cases h

theorem decimal_ne_nil (n : Int) : (decimal n).toList ≠ [] := by
  rw [toList_decimal]
  split <;> simp

/-- Different integers are written differently. -/
theorem decimal_injective {n m : Int} (h : decimal n = decimal m) : n = m := by
  have hdigits (hd : Nat.toDigits 10 n.natAbs = Nat.toDigits 10 m.natAbs) :
      n.natAbs = m.natAbs := by
    have := congrArg (Nat.ofDigitChars 10 · 0) hd
    simpa only [Nat.ofDigitChars_ten_toDigits] using this
  have hsign (k : Nat) (cs : List Char) : Nat.toDigits 10 k ≠ '-' :: cs := fun hk =>
    absurd (isDigit_of_mem_toDigits (hk ▸ List.mem_cons_self)) (by decide)
  have hlist := congrArg String.toList h
  rw [toList_decimal, toList_decimal] at hlist
  split at hlist <;> split at hlist
  · have := hdigits (List.cons.inj hlist).2
    omega
  · exact absurd hlist.symm (hsign _ _)
  · exact absurd hlist (hsign _ _)
  · have := hdigits hlist
    omega

/-- An integer is read back from its decimal numeral, if the numeral is not too long. -/
theorem integer?_decimal {n : Int} (h : (Nat.toDigits 10 n.natAbs).length ≤ maxDecimalDigits) :
    integer? (decimal n).toList = some n := by
  have hcode : ∀ c ∈ (decimal n).toList, c.toNat < 0x80 ∧ isNumeralBlank c = false := by
    intro c hc
    rcases mem_decimal hc with rfl | hd
    · decide
    · have := toNat_of_isDigit hd
      refine ⟨by omega, ?_⟩
      have hs : c ≠ ' ' := by rintro rfl; exact absurd hd (by decide)
      simp [isNumeralBlank, hs]
      omega
  have hmap : (decimal n).toList.map numeralChar = (decimal n).toList := by
    rw [List.map_congr_left fun c hc => by rw [numeralChar, if_pos (hcode c hc).1], List.map_id']
  rw [integer?, hmap, trimBy_of_forall fun c hc => (hcode c hc).2, toList_decimal]
  split
  · rename_i hn
    rw [signed?, natural?_toDigits h]
    show some (-(n.natAbs : Int)) = some n
    rw [Option.some.injEq]
    omega
  · rename_i hn
    have hs : ∀ cs, Nat.toDigits 10 n.natAbs ≠ '-' :: cs := fun cs hc =>
      absurd (isDigit_of_mem_toDigits (hc ▸ List.mem_cons_self)) (by decide)
    have hp : ∀ cs, Nat.toDigits 10 n.natAbs ≠ '+' :: cs := fun cs hc =>
      absurd (isDigit_of_mem_toDigits (hc ▸ List.mem_cons_self)) (by decide)
    rw [signed?.eq_def]
    split
    · rename_i hc
      exact absurd hc (hs _)
    · rename_i hc
      exact absurd hc (hp _)
    · rw [natural?_toDigits h, Option.map_some, Option.some.injEq]
      simp
      omega

end WordLang.Text
