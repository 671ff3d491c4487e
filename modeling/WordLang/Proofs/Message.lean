import Mathlib.Tactic.SplitIfs
import WordLang.Proofs.Text
import WordLang.Diagnostic

/-! What a diagnostic reads like, line by line. Whatever the text of a message is made from, quoted
characters included, none of it breaks the line that it stands on. -/
namespace WordLang

/-- A text without line feeds. -/
def Unbroken (text : String) : Prop := '\n' ∉ text.toList

instance (text : String) : Decidable (Unbroken text) :=
  inferInstanceAs (Decidable ('\n' ∉ text.toList))

/-! ### Parts of a message -/

theorem Unbroken.append {a b : String} (ha : Unbroken a) (hb : Unbroken b) : Unbroken (a ++ b) := by
  rw [Unbroken, String.toList_append, List.mem_append]
  exact fun h => h.elim ha hb

theorem unbroken_spaces (n : Nat) : Unbroken (String.ofList (List.replicate n ' ')) := by
  simp [Unbroken]

theorem unbroken_decimal (n : Int) : Unbroken (Text.decimal n) :=
  Text.notMem_decimal (by decide) (by decide) n

theorem unbroken_showDetail {detail : Option String} (h : ∀ text ∈ detail, Unbroken text) :
    Unbroken (Text.showDetail detail) := by
  cases detail with
  | none => decide
  | some text => exact h text rfl

namespace Text

theorem not_mem_toDigits (n : Nat) : '\n' ∉ Nat.toDigits 16 n := by
  induction n using Nat.strongRecOn with
  | ind n ih =>
    rw [Nat.toDigits_eq_if (by decide)]
    split
    · simp
    · have hhigh := ih (n / 16) (by omega)
      simp [hhigh]

theorem not_mem_escapeCode (n : Nat) : '\n' ∉ escapeCode n := by
  have hhex (width : Nat) : '\n' ∉ hexDigits width n := by
    simp [hexDigits, not_mem_toDigits]
  unfold escapeCode
  split_ifs <;> simpa using ⟨by decide, hhex _⟩

theorem not_mem_escapeChar {quote : Char} (hq : quote ≠ '\n') (c : Char) :
    '\n' ∉ escapeChar quote c := by
  have hb : backslash ≠ '\n' := by decide
  unfold escapeChar
  -- Only a printable character stands for itself, and the line feed is told apart before that.
  split_ifs with h1 h2 h3 h4 h5
  · have hc : c ≠ '\n' := by rcases h1 with rfl | rfl <;> assumption
    simpa using ⟨hb.symm, hc.symm⟩
  · simpa using hb.symm
  · simpa using hb.symm
  · simpa using hb.symm
  · simpa using Ne.symm h2
  · exact not_mem_escapeCode _

theorem unbroken_quoted (text : String) : Unbroken (quoted text) := by
  have hq : quoteFor text.toList ≠ '\n' := by
    unfold quoteFor
    split <;> decide
  have hbody := not_mem_escapeChar hq
  simp [Unbroken, quoted, hq.symm, hbody]

end Text

/-! ### Messages -/

namespace Cause

/-- The texts that stand in the message of a cause, or in its advice, as they are. -/
def details : Cause → List String
  | .report _ text hint => text.toList ++ hint.toList
  | .missingToken expected found => expected.toList ++ found.toList
  | .missingOperand found => found.toList
  | .tooMany what _ => what.toList
  | .literalTooLarge text | .unknownOperator text | .noCodeFor text => [text]
  | .invalidCharacter _ | .targetNotVariable | .assignsToNonVariable => []

variable {cause : Cause}

theorem unbroken_text (h : ∀ text ∈ cause.details, Unbroken text) :
    ∀ text ∈ cause.text?, Unbroken text := by
  intro message hm
  cases cause with
  | report area text hint => exact h message (by simpa [details] using .inl hm)
  | invalidCharacter c =>
    cases hm
    cases c with
    | none => decide
    | some c => exact Unbroken.append (by decide) (Text.unbroken_quoted c)
  | literalTooLarge digits =>
    cases hm
    exact (Unbroken.append (by decide) (h digits (by simp [details]))).append (by decide)
  | missingToken expected found =>
    cases hm
    have he : Unbroken (Text.showDetail expected) :=
      unbroken_showDetail fun text ht => h text (by simpa [details] using .inl ht)
    refine (Unbroken.append (by decide) he).append ?_
    cases found with
    | none => decide
    | some found =>
      simp only
      split
      · decide
      · exact Unbroken.append (by decide) (h found (by simp [details]))
  | missingOperand found =>
    cases hm
    exact Unbroken.append (by decide)
      (unbroken_showDetail fun text ht => h text (by simpa [details] using ht))
  | tooMany what limit =>
    cases hm
    have hw : Unbroken (Text.showDetail what) :=
      unbroken_showDetail fun text ht => h text (by simpa [details] using ht)
    have hl : Unbroken (Text.showDetail (limit.map Text.decimal)) :=
      unbroken_showDetail fun text ht => by
        obtain ⟨n, -, rfl⟩ := Option.map_eq_some_iff.mp ht
        exact unbroken_decimal n
    exact (((Unbroken.append (by decide) hw).append (by decide)).append hl).append (by decide)
  | targetNotVariable | assignsToNonVariable =>
    cases hm
    decide
  | unknownOperator spelling =>
    cases hm
    exact (Unbroken.append (by decide) (h spelling (by simp [details]))).append (by decide)
  | noCodeFor form =>
    cases hm
    exact Unbroken.append (by decide) (h form (by simp [details]))

theorem unbroken_hint (h : ∀ text ∈ cause.details, Unbroken text) :
    ∀ hint ∈ cause.hint, Unbroken hint := by
  intro message hm
  cases cause with
  | report area text hint => exact h message (by simpa [details] using .inr hm)
  | literalTooLarge digits =>
    cases hm
    exact Unbroken.append (by decide) (unbroken_decimal maxLiteral)
  | missingOperand | targetNotVariable =>
    cases hm
    decide
  | _ => cases hm

end Cause

theorem Location.unbroken_render {l : Location} (h : ∀ name ∈ l.file, Unbroken name) :
    Unbroken l.render :=
  ((((unbroken_showDetail h).append (by decide)).append (unbroken_decimal l.line)).append
    (by decide)).append (unbroken_decimal l.column)

namespace Diagnostic

variable {d : Diagnostic}

theorem unbroken_headline (hc : ∀ text ∈ d.cause.details, Unbroken text)
    (hl : ∀ l ∈ d.location, ∀ name ∈ l.file, Unbroken name) : Unbroken d.headline := by
  rw [headline]
  refine (Unbroken.append ?_ (by decide)).append (unbroken_showDetail (Cause.unbroken_text hc))
  split
  · rename_i l hd
    exact (Location.unbroken_render (hl l hd)).append (by decide)
  · decide

theorem unbroken_excerpt (h : ∀ line ∈ d.sourceLine, Unbroken line) :
    ∀ text ∈ d.excerpt, Unbroken text := by
  intro text ht
  unfold excerpt at ht
  split at ht
  · rename_i l line _ hline
    rcases List.mem_cons.mp ht with rfl | ht
    · exact (unbroken_spaces indent).append (h line hline)
    split at ht
    · rw [List.mem_singleton] at ht
      subst ht
      exact (unbroken_spaces _).append (by decide)
    · cases ht
  · cases ht

/-- The line is set in by four, and the caret stands under the column. -/
theorem excerpt_eq {l : Location} {line : String} (hl : d.location = some l)
    (hs : d.sourceLine = some line) (hc : 0 < l.column) :
    d.excerpt = ["    " ++ line,
      String.ofList (List.replicate (4 + (l.column - 1).toNat) ' ') ++ "^"] := by
  rw [excerpt, hl, hs]
  simp only [if_pos hc]
  rfl

theorem unbroken_hintLine (hc : ∀ text ∈ d.cause.details, Unbroken text) :
    ∀ text ∈ d.hintLine, Unbroken text := by
  unfold hintLine
  split
  · rename_i hint hh
    split
    · simp
    · simpa using Unbroken.append (by decide) (Cause.unbroken_hint hc hint hh)
  · simp

/-- The lines of a message are those that it was put together from. -/
theorem sourceLines_render (hc : ∀ text ∈ d.cause.details, Unbroken text)
    (hl : ∀ l ∈ d.location, ∀ name ∈ l.file, Unbroken name)
    (hline : ∀ line ∈ d.sourceLine, Unbroken line) :
    Text.sourceLines d.render = d.headline :: d.excerpt ++ d.hintLine := by
  refine Text.sourceLines_intercalate (by simp) fun text ht => ?_
  rw [List.cons_append, List.mem_cons, List.mem_append] at ht
  rcases ht with rfl | ht | ht
  · exact unbroken_headline hc hl
  · exact unbroken_excerpt hline text ht
  · exact unbroken_hintLine hc text ht

end Diagnostic

end WordLang
