import WordLang.Proofs.Token.Tiling

/-! Writing tokens and reading them back. Tokens may stand next to each other where the first one
does not go on over the second; everywhere else there has to be a blank between them. -/
namespace WordLang

/-- The text of a token within the limits, and the blanks behind it. -/
structure Piece where
  text : List Char
  lexeme : Lexeme
  blanks : List Char
  spells : Spells text lexeme
  admitted : Admitted text lexeme
  isSpace_blanks : ∀ c ∈ blanks, isSpace c = true

namespace Piece

/-- Pieces as they are written one behind the other. -/
def written (pieces : List Piece) : List Char := pieces.flatMap fun q => q.text ++ q.blanks

/-- The tokens of pieces that start at a place. -/
def tokens (file : Option String) : Position → List Piece → List Token
  | _, [] => []
  | p, q :: qs =>
    ⟨q.lexeme, String.ofList q.text, p.locate file⟩ :: tokens file (p.after (q.text ++ q.blanks)) qs

/-- A blank has to stand between two pieces: after a word if the next text starts like the rest of
one, between numbers, and where two marks look like another one. -/
def NeedsBlank (q r : Piece) : Prop :=
  q.lexeme.kind ∈ [.identifier, .mark .keywordReturn] ∧ (∃ c ∈ r.text.head?, isNameChar c = true) ∨
  q.lexeme.kind = .number ∧ r.lexeme.kind = .number ∨
  q.lexeme.kind ∈ [.mark .assign, .mark .less, .mark .greater] ∧
    r.lexeme.kind ∈ [.mark .assign, .mark .equal]

/-- Two pieces may stand as they are written. -/
def Apart (q r : Piece) : Prop := q.blanks = [] → ¬NeedsBlank q r

theorem written_cons (q : Piece) (qs : List Piece) :
    written (q :: qs) = q.text ++ (q.blanks ++ written qs) := by
  rw [written, List.flatMap_cons, List.append_assoc, written]

/-- Where a token goes on over the next one, a blank has to stand between them. -/
theorem needsBlank_of_absorbs {q r : Piece} {c : Char} (hc : c ∈ r.text.head?)
    (h : q.lexeme.absorbs c = true) : NeedsBlank q r := by
  obtain ⟨u, hu⟩ := List.head?_eq_some_iff.mp hc
  have hs := r.spells
  rw [hu] at hs
  obtain ⟨hq, hn⟩ | ⟨hq, hd⟩ | ⟨hq, rfl⟩ := Lexeme.absorbs_cases h
  · exact .inl ⟨hq, c, hc, hn⟩
  · refine .inr (.inl ⟨hq, ?_⟩)
    rw [(hs.of_isDigit hd).2]
    rfl
  · refine .inr (.inr ⟨hq, ?_⟩)
    obtain ⟨m, hm, hspell, hl⟩ := hs.of_other (by decide) (by decide)
    rw [hl]
    cases m with
    | assign | equal => simp [Lexeme.kind]
    | keywordReturn => exact absurd rfl hm
    | _ => cases hspell

/-- A piece is the longest token where it is written. -/
theorem longest {q : Piece} {qs : List Piece} (h : ∀ r ∈ qs.head?, Apart q r) :
    Longest q.text (q.text ++ (q.blanks ++ written qs)) := by
  refine q.spells.longest fun c hc => ?_
  -- The character behind the text is a blank, or else the first one of the next piece.
  cases hb : q.blanks with
  | cons b bs =>
    obtain rfl : b = c := by simpa [hb] using hc
    exact Lexeme.absorbs_of_isSpace (q.isSpace_blanks b (by simp [hb])) _
  | nil =>
    cases qs with
    | nil => simp [hb, written] at hc
    | cons r rs =>
      obtain ⟨d, u, hr⟩ := List.exists_cons_of_ne_nil r.spells.ne_nil
      obtain rfl : d = c := by simpa [hb, written_cons, hr] using hc
      rw [← Bool.not_eq_true]
      exact fun ha => h r rfl hb (needsBlank_of_absorbs (by rw [hr]; rfl) ha)

end Piece

theorem Passes.blanks {file : Option String} {p p' : Position} {blanks cs cs' : List Char}
    {ts : List Token} (hb : ∀ c ∈ blanks, isSpace c = true)
    (h : Passes file (p.after blanks) cs ts p' cs') : Passes file p (blanks ++ cs) ts p' cs' := by
  induction blanks generalizing p with
  | nil => exact h
  | cons c blanks ih => exact .blank (hb c (by simp)) (ih (fun d hd => hb d (by simp [hd])) h)

theorem Piece.passes (file : Option String) (p : Position) {pieces : List Piece}
    (h : pieces.IsChain Apart) :
    Passes file p (written pieces) (Piece.tokens file p pieces) (p.after (written pieces)) [] := by
  induction pieces generalizing p with
  | nil => exact .stop p []
  | cons q qs ih =>
    obtain ⟨hq, hqs⟩ := List.isChain_cons.mp h
    have hrest := (ih ((p.after q.text).after q.blanks) hqs).blanks q.isSpace_blanks
    rw [Piece.tokens, written_cons, Position.after_append, Position.after_append,
      Position.after_append]
    exact .token (longest hq) q.spells q.admitted hrest

/-- Whatever is written in pieces, with a blank wherever one is needed, is read back as the tokens
of the pieces, in their order and places, before the end of input. -/
theorem tokens_of_pieces (file : Option String) {leading : List Char}
    (hl : ∀ c ∈ leading, isSpace c = true) {pieces : List Piece} (h : pieces.IsChain Piece.Apart) :
    let p := Position.start.after leading
    Source.tokens ⟨file, String.ofList (leading ++ Piece.written pieces)⟩ =
      .ok (Piece.tokens file p pieces ++
        [⟨.endOfInput, "", (p.after (Piece.written pieces)).locate file⟩]) := by
  intro p
  rw [Source.tokens, String.toList_ofList]
  exact Source.scan_eq_ok_iff.mpr ⟨_, _, (Piece.passes file p h).blanks hl, rfl⟩

/-- A number and a name, and a name and a mark, need no blank between them; two marks that look like
another one do. -/
theorem tokens_of_pieces_crowded :
    let two : Piece := ⟨['2'], .number (digitsValue ['2']), [], .number (by simp) (by decide),
      by rintro v ⟨⟩; decide, by simp⟩
    let name : Piece := ⟨['a'], .identifier "a", [], .name (by decide) (by simp) (by decide),
      by rintro v ⟨⟩, by simp⟩
    let less : Piece := ⟨['<'], _, ['\n'], .mark .less, by rintro v ⟨⟩, by decide⟩
    let equal : Piece := ⟨['=', '='], _, [], .mark .equal, by rintro v ⟨⟩, by simp⟩
    [two, name, less, equal].IsChain Piece.Apart ∧
      Source.tokens ⟨none, " 2a<\n=="⟩ = .ok [⟨.number 2, "2", ⟨none, 1, 2, 1⟩⟩,
        ⟨.identifier "a", "a", ⟨none, 1, 3, 2⟩⟩, ⟨.mark .less (some "<"), "<", ⟨none, 1, 4, 3⟩⟩,
        ⟨.mark .equal (some "=="), "==", ⟨none, 2, 1, 5⟩⟩, ⟨.endOfInput, "", ⟨none, 2, 3, 7⟩⟩] := by
  intro two name less equal
  have hapart : [two, name, less, equal].IsChain Piece.Apart := by
    have hless : isNameChar '<' = false := by decide
    simp [two, name, less, equal, Piece.Apart, Piece.NeedsBlank, Lexeme.kind, hless]
  have hleading : ∀ c ∈ [' '], isSpace c = true := by decide
  exact ⟨hapart, tokens_of_pieces none hleading hapart⟩

end WordLang
