import WordLang.Proofs.Compilation
import WordLang.Proofs.Grammar.Outcome
import WordLang.Proofs.Message
import WordLang.Proofs.Token.Tiling

/-! What a compilation can complain of, and where. Every diagnostic belongs to an offset of the
source where a token stands, or should, or where the source ends; none is the fault of the compiler
itself. -/
namespace WordLang

/-! ### Places of tokens -/

/-- An offset of a source, up to its end, at which no blank stands. -/
def Source.IsPlace (s : Source) (k : Nat) : Prop :=
  k ≤ s.text.length ∧ ∀ c ∈ s.text.toList[k]?, isSpace c = false

theorem Spells.unbroken {text : List Char} {l : Lexeme} (h : Spells text l) :
    Unbroken (String.ofList text) := by
  rw [Unbroken, String.toList_ofList]
  exact fun hn => absurd (h.isSpace_eq '\n' hn) (by decide)

namespace Source

variable {s : Source} {p : Position} {cs : List Char} {ts : List Token}

/-- Where a scan comes to no blank there is a place. -/
theorem exists_place (h : Passes s.file .start s.text.toList ts p cs)
    (hc : ∀ c ∈ cs.head?, isSpace c = false) :
    ∃ k, s.IsPlace k ∧ p.locate s.file = s.locationAt k ∧ s.currentLine p = s.lineOf k := by
  obtain ⟨front, heq, rfl, -⟩ := h.exists_front
  refine ⟨front.length, ⟨?_, ?_⟩, s.locate_after heq, s.currentLine_after heq⟩
  · rw [← String.length_toList, heq, List.length_append]
    exact Nat.le_add_right _ _
  · rwa [heq, List.getElem?_append_right (Nat.le_refl _), Nat.sub_self, ← List.head?_eq_getElem?]

/-- Tokens stand at places, and none breaks a line. -/
theorem exists_place_of_mem {tokens : List Token} (h : s.tokens = .ok tokens) {t : Token}
    (ht : t ∈ tokens) :
    Unbroken t.text ∧ ∃ k, s.IsPlace k ∧ t.location = s.locationAt k := by
  obtain ⟨ts, p, hpass, rfl⟩ := scan_eq_ok_iff.mp h
  rcases List.mem_append.mp ht with ht | ht
  · obtain ⟨ts₁, p₁, text, cs₁, hpass, hs, -, htext, hl⟩ := hpass.exists_of_mem ht
    obtain ⟨c, more, rfl⟩ := List.exists_cons_of_ne_nil hs.ne_nil
    obtain ⟨k, hk, hat, -⟩ := exists_place hpass (by simpa using hs.isSpace_eq c (by simp))
    exact ⟨htext ▸ hs.unbroken, k, hk, hl ▸ hat⟩
  · rw [List.mem_singleton] at ht
    subst ht
    have hempty : Unbroken "" := by decide
    obtain ⟨k, hk, hat, -⟩ := exists_place hpass (by simp)
    exact ⟨hempty, k, hk, hat⟩

end Source

/-! ### Complaints -/

/-- A diagnostic is about a place of a source: it has its location and quotes its line. -/
structure Diagnostic.IsAbout (d : Diagnostic) (s : Source) (k : Nat) : Prop where
  isPlace : s.IsPlace k
  location : d.location = some (s.locationAt k)
  sourceLine : d.sourceLine = Text.lineAt? s.lines (s.locationAt k).line
  details : ∀ text ∈ d.cause.details, Unbroken text
  isInternal : d.cause.isInternal = false

theorem Token.unbroken_describe {t : Token} (h : Unbroken t.text) : Unbroken t.describe := by
  rw [describe]
  split
  · decide
  · exact (Unbroken.append (by decide) h).append (by decide)

theorem Objection.unbroken_details {t : Token} {cause : Cause} (h : Objection t cause)
    (ht : Unbroken t.text) : ∀ text ∈ cause.details, Unbroken text := by
  have hd := Token.unbroken_describe ht
  cases h with
  | closeParen | semicolon =>
    have hm : Unbroken "')'" ∧ Unbroken "';'" := by decide
    simp [Cause.details, hd, hm]
  | operand => simpa [Cause.details] using hd
  | target => simp [Cause.details]
  | statementLimit limit | variableLimit limit =>
    have hw : Unbroken "statements" ∧ Unbroken "variables" := by decide
    simp [Cause.details, hw]

theorem Source.exists_isAbout_of_passes {s : Source} {ts : List Token} {p : Position} {c : Char}
    {cs : List Char} (h : Passes s.file .start s.text.toList ts p (c :: cs))
    (hc : isSpace c = false) {cause : Cause} (hd : ∀ text ∈ cause.details, Unbroken text)
    (hi : cause.isInternal = false) :
    ∃ k, Diagnostic.IsAbout ⟨cause, some (p.locate s.file), some (s.currentLine p)⟩ s k := by
  obtain ⟨k, hk, hat, hline⟩ := exists_place h (by simpa using hc)
  exact ⟨k, hk, by rw [hat], by rw [hline, s.lineAt?_locationAt], hd, hi⟩

/-- A scan that halts with a diagnostic halts at a place. -/
theorem Source.exists_isAbout_of_tokens {s : Source} {d : Diagnostic}
    (h : s.tokens = .error (.diagnostic d)) : ∃ k, d.IsAbout s k := by
  obtain ⟨ts, p, cs, hpass, hhalts⟩ := scan_eq_error_iff.mp h
  -- Not every failure of a scan is a diagnostic: a numeral that is too long is none.
  generalize he : Failure.diagnostic d = e at hhalts
  cases hhalts with
  | character hc _ =>
    cases he
    exact exists_isAbout_of_passes hpass hc (by simp [Cause.details]) rfl
  | tooLong => cases he
  | @tooLarge text cs v _ hs =>
    cases he
    obtain ⟨c, more, rfl⟩ := List.exists_cons_of_ne_nil hs.ne_nil
    refine exists_isAbout_of_passes hpass (hs.isSpace_eq c (by simp)) ?_ rfl
    simpa [Cause.details] using hs.unbroken

/-- A diagnostic of the parser is about the place of a token. -/
theorem Source.exists_isAbout_of_parseTokens {s : Source} {tokens : List Token} {n : Int}
    {table : SlotTable} {d : Diagnostic} (hs : s.tokens = .ok tokens)
    (h : (parseTokens ⟨s.lines, n⟩ table tokens).outcome = .error (.diagnostic d)) :
    ∃ k, d.IsAbout s k := by
  obtain ⟨t, ht, hobj⟩ := objectsTo_of_parseTokens h
  obtain ⟨htext, k, hk, hl⟩ := exists_place_of_mem hs ht
  have hlocation := hobj.location
  have hline := hobj.sourceLine
  rw [hl] at hlocation hline
  exact ⟨k, hk, hlocation, hline, hobj.cause.unbroken_details htext, hobj.cause.isInternal_eq⟩

theorem Options.exists_isAbout_of_compile {o : Options} {s : Source} {d : Diagnostic}
    (h : (o.compile s).outcome = .error (.diagnostic d)) : ∃ k, d.IsAbout s k := by
  obtain h | h | ⟨tokens, table, hs, h | ⟨P, frameSize, d', hok, h⟩⟩ := compile_error h
  · exact Source.exists_isAbout_of_tokens h
  · -- Limits that make no table are refused without a diagnostic.
    rw [SlotTable.create] at h
    split at h
    · cases h
    split at h
    · cases h
    · cases h
  · exact Source.exists_isAbout_of_parseTokens hs h
  · -- A program that was parsed has code, so that nothing is left to go wrong.
    obtain ⟨lines, hlines⟩ := Program.exists_assembly (isStatement_of_parseTokens hok) frameSize
      o.comments
    rw [hlines] at h
    cases h

/-! ### No fault of the compiler -/

/-- Whatever list of tokens a program was parsed from, with whatever slots and limits, it has an
assembly for every frame; and no compilation ends with a fault of the compiler itself. -/
theorem parsed_has_assembly :
    (∀ (settings : ParseSettings) (table : SlotTable) (tokens : List Token) (P : Program),
      (parseTokens settings table tokens).outcome = .ok P →
        ∀ frameSize comments, ∃ lines, P.assembly frameSize comments = .ok lines) ∧
    ∀ (o : Options) (s : Source) (d : Diagnostic),
      (o.compile s).outcome = .error (.diagnostic d) → d.cause.isInternal = false := by
  constructor
  · intro settings table tokens P h
    exact Program.exists_assembly (isStatement_of_parseTokens h)
  · intro o s d h
    obtain ⟨k, hk⟩ := Options.exists_isAbout_of_compile h
    exact hk.isInternal

/-- Tokens by hand, with a negative number and a name of one line feed, and a source that is
refused. -/
theorem parsed_has_assembly_handwritten :
    let tokens := tokenRow [.identifier "\n", .mark .assign none, .mark .minus none, .number (-2),
      .endOfInput]
    (∃ P, (parseTokens ⟨[], 1⟩ ⟨3, 1, [], 0⟩ tokens).outcome = .ok P ∧ P.statements.length = 1 ∧
      ∃ lines, P.assembly (-5) true = .ok lines) ∧
    ∃ d, (({} : Options).compile ⟨none, "2 = b"⟩).outcome = .error (.diagnostic d) ∧
      d.cause.isInternal = false := by
  intro tokens
  obtain ⟨P, hP, hcount⟩ := exists_of_any_toOption
    (x := (parseTokens ⟨[], 1⟩ ⟨3, 1, [], 0⟩ tokens).outcome) (p := fun P => P.statements.length = 1)
    (by decide +kernel)
  have hd : (({} : Options).compile ⟨none, "2 = b"⟩).outcome =
      .error (.diagnostic ⟨.targetNotVariable, some ⟨none, 1, 1, 0⟩, some "2 = b"⟩) :=
    eq_error_of_map (f := fun _ => ()) (by decide +kernel)
  exact ⟨⟨P, hP, by simpa using hcount, parsed_has_assembly.1 _ _ _ P hP (-5) true⟩,
    _, hd, parsed_has_assembly.2 _ _ _ hd⟩

/-! ### The place of a diagnostic -/

/-- A diagnostic points at an offset of a source: it has the location of the offset, and with it the
line that the offset is on; what stands there is no blank and stands on that line; and in the
message the line is set in by four, with a caret below what it points at. -/
structure Diagnostic.PointsAt (d : Diagnostic) (s : Source) (k : Nat) (line : String) : Prop where
  offset_le : k ≤ s.text.length
  location_eq : d.location = some (s.locationAt k)
  sourceLine_eq : d.sourceLine = some line
  line_eq : s.lines[((s.locationAt k).line - 1).toNat]? = some line
  char_eq : ∀ c ∈ s.text.toList[k]?,
    isSpace c = false ∧ line.toList[((s.locationAt k).column - 1).toNat]? = some c
  second_eq : (Text.sourceLines d.render)[1]? = some ("    " ++ line)
  third_eq : (Text.sourceLines d.render)[2]? =
    some (String.ofList (List.replicate (4 + ((s.locationAt k).column - 1).toNat) ' ') ++ "^")

theorem Diagnostic.IsAbout.pointsAt {d : Diagnostic} {s : Source} {k : Nat} (h : d.IsAbout s k)
    (hfile : ∀ name ∈ s.file, Unbroken name) : d.PointsAt s k (s.lineOf k) := by
  have hline : d.sourceLine = some (s.lineOf k) := h.sourceLine.trans (s.lineAt?_locationAt k)
  have hrender : Text.sourceLines d.render = d.headline :: d.excerpt ++ d.hintLine := by
    refine sourceLines_render h.details ?_ ?_
    · rw [h.location]
      rintro _ ⟨⟩
      exact hfile
    · rw [hline]
      rintro _ ⟨⟩
      exact s.not_mem_lineOf k
  rw [excerpt_eq h.location hline (s.column_pos k)] at hrender
  refine ⟨h.isPlace.1, h.location, hline, ?_, fun c hc => ?_, by rw [hrender]; rfl,
    by rw [hrender]; rfl⟩
  · have hat := s.lineAt?_locationAt k
    rwa [Text.lineAt?, if_pos (by rw [Source.locationAt]; simp only; omega)] at hat
  · have hblank := h.isPlace.2 c hc
    refine ⟨hblank, Source.getElem?_lineOf hc ?_⟩
    rintro rfl
    cases hblank

/-- Every diagnostic of a compilation points at an offset of its source, if the name of the source
keeps to one line. The location of every token is that of its offset, too. -/
theorem diagnostic_pointsAt :
    (∀ (o : Options) (text : String) (file : Option String) (d : Diagnostic),
      (∀ name ∈ o.fileFor file, '\n' ∉ name.toList) →
      (o.compile (o.source text file)).outcome = .error (.diagnostic d) →
        ∃ k line, d.PointsAt (o.source text file) k line) ∧
    ∀ (s : Source) (tokens : List Token), s.tokens = .ok tokens →
      ∀ t ∈ tokens, ∃ k, k ≤ s.text.length ∧ t.location = s.locationAt k := by
  constructor
  · intro o text file d hfile h
    obtain ⟨k, hk⟩ := Options.exists_isAbout_of_compile h
    exact ⟨k, _, hk.pointsAt hfile⟩
  · intro s tokens h t ht
    obtain ⟨-, k, hk, hl⟩ := Source.exists_place_of_mem h ht
    exact ⟨k, hk.1, hl⟩

/-- An assignment to a number on the second line of a source, a character that no token starts with on
that of another, and the end of a third. -/
theorem diagnostic_pointsAt_second_line :
    let o : Options := {}
    let s := o.source "a = 1;\n  2 = b" (some "f")
    let s₁ := o.source "a;\r\n b $ c" (some "f")
    (∃ d, (o.compile s).outcome = .error (.diagnostic d) ∧
      d.location = some ⟨some "f", 2, 3, 9⟩ ∧ ∃ k line, d.PointsAt s k line) ∧
    (∃ d, (o.compile s₁).outcome = .error (.diagnostic d) ∧
      d.location = some ⟨some "f", 2, 4, 7⟩ ∧ ∃ k line, d.PointsAt s₁ k line) ∧
    ∃ tokens, Source.tokens ⟨none, "\na\n "⟩ = .ok tokens ∧
      ∀ t ∈ tokens, ∃ k, k ≤ 4 ∧ t.location = Source.locationAt ⟨none, "\na\n "⟩ k := by
  intro o s s₁
  have hd : (o.compile s).outcome = .error (.diagnostic
      ⟨.targetNotVariable, some ⟨some "f", 2, 3, 9⟩, some "  2 = b"⟩) :=
    eq_error_of_map (f := fun _ => ()) (by decide +kernel)
  have hd₁ : (o.compile s₁).outcome = .error (.diagnostic
      ⟨.invalidCharacter (some "$"), some ⟨some "f", 2, 4, 7⟩, some " b $ c"⟩) :=
    eq_error_of_map (f := fun _ => ()) (by decide +kernel)
  have hfile : ∀ name ∈ o.fileFor (some "f"), '\n' ∉ name.toList := by
    rintro _ ⟨⟩
    decide
  obtain ⟨tokens, htokens, -⟩ := exists_of_any_toOption (x := Source.tokens ⟨none, "\na\n "⟩)
    (p := fun tokens => tokens.length = 2) (by decide +kernel)
  exact ⟨⟨_, hd, rfl, diagnostic_pointsAt.1 o _ _ _ hfile hd⟩,
    ⟨_, hd₁, rfl, diagnostic_pointsAt.1 o _ _ _ hfile hd₁⟩, tokens, htokens,
    diagnostic_pointsAt.2 _ tokens htokens⟩

end WordLang
