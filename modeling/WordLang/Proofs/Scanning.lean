import WordLang.Proofs.Machine.Instruction
import WordLang.Token.Scan

/-! What scanned tokens are like: names have name characters only, numbers are small, and the end of
input stands at the end and nowhere else. -/
namespace WordLang

/-- A lexeme as scanning makes them. -/
def Lexeme.Scanned : Lexeme → Prop
  | .identifier x => ∀ c ∈ x.toList, isNameChar c = true
  | .number v => Text.Readable v
  | _ => True

theorem isNameChar_of_isNameStart {c : Char} (h : isNameStart c = true) : isNameChar c = true := by
  simp only [isNameStart, isNameChar, Char.isAlphanum, Bool.or_eq_true] at h ⊢
  exact h.elim (fun h => .inl (.inl h)) .inr

theorem toNat_of_isNameStart {c : Char} (h : isNameStart c = true) :
    65 ≤ c.toNat ∧ c.toNat ≤ 122 := by
  have hstart : ((decide (65 ≤ c.val ∧ c.val ≤ 90) || (97 ≤ c.val && c.val ≤ 122)) ||
      c == '_') = true := h
  simp only [Bool.or_eq_true, Bool.and_eq_true, decide_eq_true_eq, beq_iff_eq,
    UInt32.le_iff_toNat_le] at hstart
  rcases hstart with (⟨hl, hu⟩ | ⟨hl, hu⟩) | rfl
  · exact ⟨hl, Nat.le_trans hu (by decide)⟩
  · exact ⟨Nat.le_trans (by decide) hl, hu⟩
  · decide

theorem toNat_of_isNameChar {c : Char} (h : isNameChar c = true) :
    48 ≤ c.toNat ∧ c.toNat ≤ 122 := by
  simp only [isNameChar, Char.isAlphanum, Bool.or_eq_true] at h
  rcases h with (h | h) | h
  · have := toNat_of_isNameStart (show isNameStart c = true by simp [isNameStart, h])
    omega
  · have := Text.toNat_of_isDigit h
    omega
  · have := toNat_of_isNameStart (show isNameStart c = true by simp [isNameStart, h])
    omega

theorem isNameChar_of_mem_word {cs text : List Char} (h : front? cs = some (.word, text)) :
    ∀ c ∈ text, isNameChar c = true := by
  cases cs with
  | nil => cases h
  | cons c cs =>
    rw [front?] at h
    split at h
    · rename_i hc
      cases h
      intro d hd
      rcases List.mem_cons.mp hd with rfl | hd
      · exact isNameChar_of_isNameStart hc
      · exact List.all_eq_true.mp List.all_takeWhile d hd
    split at h
    · cases h
    split at h
    · cases h
    · cases hm : Mark.ofChar? c with
      | none => rw [hm] at h; cases h
      | some m => rw [hm] at h; cases h

theorem readable_of_le_maxLiteral {n : Nat} (h : n ≤ maxLiteral) : Text.Readable n := by
  refine Text.readable_of_natAbs_lt ?_
  unfold maxLiteral at h
  omega

namespace Source

variable {s : Source}

theorem lexeme_scanned {p : Position} {shape : Shape} {cs text : List Char} {l : Lexeme}
    (hf : front? cs = some (shape, text)) (h : s.lexeme p shape text = .ok l) :
    l.kind ≠ .endOfInput ∧ l.Scanned := by
  cases shape with
  | word =>
    rw [lexeme] at h
    by_cases hw : String.ofList text = returnWord
    · simp only [if_pos hw] at h
      cases h
      exact ⟨nofun, trivial⟩
    · simp only [if_neg hw] at h
      cases h
      refine ⟨nofun, ?_⟩
      rw [Lexeme.Scanned, String.toList_ofList]
      exact isNameChar_of_mem_word hf
  | digits =>
    rw [lexeme] at h
    split at h
    · cases h
    split at h
    · cases h
    · rename_i hle
      cases h
      exact ⟨nofun, readable_of_le_maxLiteral (Nat.not_lt.mp hle)⟩
  | mark m =>
    cases h
    exact ⟨nofun, trivial⟩

/-- Tokens that end with the end of input, after tokens as scanning makes them. -/
def Yields (tokens : List Token) : Prop :=
  ∃ body last, tokens = body ++ [last] ∧ last.isEnd = true ∧
    ∀ t ∈ body, t.isEnd = false ∧ t.lexeme.Scanned

theorem scan_yields {n : Nat} {p : Position} {cs : List Char} {tokens : List Token}
    (h : s.scan n p cs = .ok tokens) : Yields tokens := by
  induction cs generalizing n p tokens with
  | nil =>
    rw [scan] at h
    cases h
    exact ⟨[], _, rfl, rfl, by simp⟩
  | cons c cs ih =>
    cases n with
    | succ n => exact ih h
    | zero =>
      rw [scan] at h
      split at h
      · exact ih h
      split at h
      · cases h
      rename_i shape text hf
      split at h
      · cases h
      rename_i l hl
      split at h
      · cases h
      rename_i more hmore
      cases h
      obtain ⟨hk, hscanned⟩ := lexeme_scanned hf hl
      obtain ⟨body, last, rfl, hlast, hbody⟩ := ih hmore
      refine ⟨⟨l, String.ofList text, p.locate s.file⟩ :: body, last, rfl, hlast, ?_⟩
      simp only [List.mem_cons, forall_eq_or_imp]
      refine ⟨⟨?_, hscanned⟩, hbody⟩
      simp [Token.isEnd, Token.kind, hk]

end Source

end WordLang
