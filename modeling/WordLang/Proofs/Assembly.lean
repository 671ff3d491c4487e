import Mathlib.Data.List.Forall2
import WordLang.Assembly.Code
import WordLang.Assembly.Listing
import WordLang.Proofs.Text

/-! Reading back an assembly text. Every line that is written for an instruction is read as that
instruction, and nothing else in the text counts but its labels. -/
namespace WordLang

/-! ### Operands and instructions as texts -/

/-- Characters that operands are written with. -/
def isOperandChar (c : Char) : Bool :=
  !Text.isBlank c && !Text.isLineEnd c && c != ',' && c != '#' && c != ':'

theorem isOperandChar_of_isDigit {c : Char} (h : c.isDigit) : isOperandChar c := by
  have hc := Text.toNat_of_isDigit h
  obtain ⟨n, rfl⟩ : ∃ n : Fin 10, c = Char.ofNat (48 + n) :=
    ⟨⟨c.toNat - 48, by omega⟩, by
      rw [show 48 + (c.toNat - 48) = c.toNat by omega, Char.ofNat_toNat]⟩
  revert n
  decide

theorem Operand.isOperandChar_render (x : Operand) : ∀ c ∈ x.render.toList, isOperandChar c := by
  cases x with
  | register r => cases r <;> decide
  | indirect r => cases r <;> decide
  | immediate n =>
    intro c hc
    rcases Text.mem_decimal hc with rfl | hd
    · decide
    · exact isOperandChar_of_isDigit hd

theorem Operand.render_ne_nil (x : Operand) : x.render.toList ≠ [] := by
  cases x with
  | register r => cases r <;> decide
  | indirect r => cases r <;> decide
  | immediate n => exact Text.decimal_ne_nil n

/-- Operands with commas between them, in characters. -/
def joined (texts : List (List Char)) : List Char := [',', ' '].intercalate texts

theorem joined_cons_cons (t u : List Char) (texts : List (List Char)) :
    joined (t :: u :: texts) = t ++ ',' :: (' ' :: joined (u :: texts)) := by
  simp [joined, List.intercalate_cons_cons]

/-- A text that an operand can have. -/
def OperandText (t : List Char) : Prop := t ≠ [] ∧ ∀ c ∈ t, isOperandChar c

theorem head?_joined {t : List Char} (ht : t ≠ []) (texts : List (List Char)) :
    (joined (t :: texts)).head? = t.head? := by
  obtain ⟨c, cs, rfl⟩ := List.exists_cons_of_ne_nil ht
  cases texts with
  | nil => simp [joined]
  | cons u texts => simp [joined_cons_cons]

theorem joined_ne_nil {t : List Char} (ht : t ≠ []) (texts : List (List Char)) :
    joined (t :: texts) ≠ [] := by
  intro hj
  have hh := head?_joined ht texts
  rw [hj, List.head?_nil, eq_comm, List.head?_eq_none_iff] at hh
  exact ht hh

theorem operandText_render (x : Operand) : OperandText x.render.toList :=
  ⟨x.render_ne_nil, x.isOperandChar_render⟩

theorem isOperandChar_iff {c : Char} : isOperandChar c = true ↔
    Text.isBlank c = false ∧ Text.isLineEnd c = false ∧ c ≠ ',' ∧ c ≠ '#' ∧ c ≠ ':' := by
  simp [isOperandChar, and_assoc]

/-- Operands stand apart again when they are cut at the commas and trimmed. -/
theorem map_trim_splitBy_joined {texts : List (List Char)} (hn : texts ≠ [])
    (h : ∀ t ∈ texts, OperandText t) (blanks : List Char) (hb : ∀ c ∈ blanks, c = ' ') :
    (Text.splitBy (· == ',') (blanks ++ joined texts)).map Text.trim = texts := by
  have hblank : ∀ c ∈ blanks, Text.isBlank c := fun c hc => by rw [hb c hc]; decide
  induction texts generalizing blanks with
  | nil => exact absurd rfl hn
  | cons t rest ih =>
    have ht : ∀ c ∈ t, isOperandChar c := (h t (by simp)).2
    have hcomma : ∀ c ∈ blanks ++ t, (c == ',') = false := by
      intro c hc
      rcases List.mem_append.1 hc with hc | hc
      · rw [hb c hc]; rfl
      · simpa using (isOperandChar_iff.1 (ht c hc)).2.2.1
    have htrim : Text.trim (blanks ++ t) = t := Text.trimBy_append blanks hblank
      (fun c hc => (isOperandChar_iff.1 (ht c (List.mem_of_mem_head? hc))).1)
      (fun c hc => (isOperandChar_iff.1 (ht c (List.mem_of_mem_getLast? hc))).1)
    cases rest with
    | nil =>
      have hj : joined [t] = t := by simp [joined]
      rw [hj, Text.splitBy_of_forall hcomma, List.map_singleton, htrim]
    | cons u texts =>
      have hu := ih (by simp) (fun v hv => h v (by simp [hv])) [' '] (by simp) (by simp; decide)
      rw [joined_cons_cons, ← List.append_assoc, Text.splitBy_append hcomma (by rfl),
        List.map_cons, htrim]
      exact congrArg _ hu

theorem operandTexts_joined {texts : List (List Char)} (hn : texts ≠ [])
    (h : ∀ t ∈ texts, OperandText t) : operandTexts (joined texts) = texts.map String.ofList := by
  obtain ⟨t, rest, rfl⟩ := List.exists_cons_of_ne_nil hn
  have hs := map_trim_splitBy_joined hn h [] (by simp)
  rw [List.nil_append] at hs
  rw [operandTexts, if_neg (joined_ne_nil (h t (by simp)).1 rest)]
  have hm := congrArg (List.map String.ofList) hs
  rw [List.map_map] at hm
  exact hm

/-- Characters that stand between operands, and in them. -/
theorem mem_joined {texts : List (List Char)} (h : ∀ t ∈ texts, OperandText t) {c : Char}
    (hc : c ∈ joined texts) : c = ',' ∨ c = ' ' ∨ isOperandChar c := by
  induction texts with
  | nil => simp [joined] at hc
  | cons t rest ih =>
    have ht : ∀ c ∈ t, isOperandChar c := (h t (by simp)).2
    cases rest with
    | nil => exact Or.inr (Or.inr (ht c (by simpa [joined] using hc)))
    | cons u texts =>
      have hr := fun hm => ih (fun v hv => h v (by simp [hv])) hm
      rw [joined_cons_cons] at hc
      simp only [List.mem_append, List.mem_cons] at hc
      rcases hc with hc | hc | hc | hc
      · exact Or.inr (Or.inr (ht c hc))
      · exact Or.inl hc
      · exact Or.inr (Or.inl hc)
      · exact hr hc

theorem getLast?_joined {texts : List (List Char)} (h : ∀ t ∈ texts, OperandText t) :
    ∀ c ∈ (joined texts).getLast?, isOperandChar c := by
  induction texts with
  | nil => simp [joined]
  | cons t rest ih =>
    have ht : ∀ c ∈ t, isOperandChar c := (h t (by simp)).2
    cases rest with
    | nil =>
      intro c hc
      exact ht c (List.mem_of_mem_getLast? (by simpa [joined] using hc))
    | cons u texts =>
      have hu := joined_ne_nil (h u (by simp)).1 texts
      intro c hc
      rw [joined_cons_cons, List.getLast?_append, List.getLast?_cons_cons,
        List.getLast?_cons_of_ne_nil hu, List.getLast?_eq_some_getLast hu, Option.some_or,
        ← List.getLast?_eq_some_getLast hu] at hc
      exact ih (fun v hv => h v (by simp [hv])) c hc

/-! ### Lines -/

/-- What a line of assembly is to be read as. -/
def AssemblyLine.content : AssemblyLine → LineContent
  | .directive _ | .comment _ => .nothing
  | .label name => .label name
  | .instruction i => .instruction i.mnemonic.name (i.operands.map Operand.render)

/-- A line that keeps to itself and is read as what it was written for. -/
def AssemblyLine.ReadsBack (line : AssemblyLine) : Prop :=
  (∀ c ∈ line.render.toList, Text.isLineEnd c = false) ∧
    LineContent.ofChars line.render.toList = line.content

theorem Mnemonic.isOperandChar_name (m : Mnemonic) : ∀ c ∈ m.name.toList, isOperandChar c := by
  cases m <;> decide

theorem Mnemonic.lower_name (m : Mnemonic) : Text.lower m.name.toList = m.name.toList := by
  cases m <;> decide

theorem Mnemonic.name_front (m : Mnemonic) :
    m.name.toList ≠ [] ∧ m.name.toList.head? ≠ some '.' ∧ m.name.length < mnemonicWidth := by
  cases m <;> decide

/-- A margin of spaces and a body without comment are read as the body. -/
theorem withoutComment_margin {body : List Char} (hc : ∀ c ∈ body, c ≠ '#')
    (hh : ∀ c ∈ body.head?, Text.isBlank c = false)
    (hl : ∀ c ∈ body.getLast?, Text.isBlank c = false) :
    withoutComment (margin.toList ++ body) = body := by
  have hmargin : ∀ c ∈ margin.toList, (c != '#') = true := by decide
  have hall : ∀ c ∈ margin.toList ++ body, (c != '#') = true := by
    intro c hm
    rcases List.mem_append.1 hm with hm | hm
    · exact hmargin c hm
    · simpa using hc c hm
  rw [withoutComment, List.takeWhile_eq_self_iff.2 hall]
  exact Text.trimBy_append margin.toList (by decide) hh hl

/-- An instruction as characters: a margin, the mnemonic, and operands at a distance if there are
any. -/
theorem Instruction.toList_render (i : Instruction) :
    ∃ blanks, (∀ c ∈ blanks, c = ' ') ∧ i.render.toList =
      margin.toList ++ (i.mnemonic.name.toList ++ if i.operands = [] then [] else
        ' ' :: blanks ++ joined (i.operands.map (·.render.toList))) := by
  obtain ⟨m, os⟩ := i
  have hw := m.name_front.2.2
  refine ⟨List.replicate (mnemonicWidth - m.name.length - 1) ' ', by simp, ?_⟩
  cases os with
  | nil => simp [render]
  | cons x xs =>
    have hp : List.replicate (mnemonicWidth - m.name.length) ' ' =
        ' ' :: List.replicate (mnemonicWidth - m.name.length - 1) ' ' := by
      rw [← List.replicate_succ]
      congr 1
      omega
    have hj : (String.intercalate ", " ((x :: xs).map Operand.render)).toList =
        joined ((x :: xs).map (·.render.toList)) := by
      rw [String.toList_intercalate, List.map_map]
      rfl
    simp only [render, String.toList_append, padRight, String.toList_ofList, hp, hj]
    simp

/-- The parts of an instruction line behind its margin. -/
structure BodyParts (m : Mnemonic) (texts : List (List Char)) (body : List Char) : Prop where
  firstWord : Text.firstWord body = (m.name.toList, joined texts)
  chars : ∀ c ∈ body, c = ',' ∨ c = ' ' ∨ isOperandChar c
  head : body.head? = m.name.toList.head?
  last : ∀ c ∈ body.getLast?, isOperandChar c

theorem Instruction.bodyParts (i : Instruction) :
    ∃ body, i.render.toList = margin.toList ++ body ∧
      BodyParts i.mnemonic (i.operands.map (·.render.toList)) body := by
  obtain ⟨blanks, hb, hr⟩ := i.toList_render
  obtain ⟨m, os⟩ := i
  obtain ⟨hn, -, -⟩ := m.name_front
  have hname := m.isOperandChar_name
  have hword : ∀ c ∈ m.name.toList, Text.isBlank c = false := fun c hc =>
    (isOperandChar_iff.1 (hname c hc)).1
  refine ⟨_, hr, ?_⟩
  cases os with
  | nil =>
    simp only [if_pos, List.append_nil, List.map_nil]
    exact ⟨Text.firstWord_of_forall hword, fun c hc => Or.inr (Or.inr (hname c hc)), rfl,
      fun c hc => hname c (List.mem_of_mem_getLast? hc)⟩
  | cons x xs =>
    have htexts : ∀ t ∈ (x :: xs).map (·.render.toList), OperandText t := by
      intro t ht
      obtain ⟨y, -, rfl⟩ := List.mem_map.1 ht
      exact operandText_render y
    have hne : joined ((x :: xs).map (·.render.toList)) ≠ [] :=
      joined_ne_nil (operandText_render x).1 _
    have hlast := getLast?_joined htexts
    rw [if_neg (by simp)]
    refine ⟨?_, ?_, ?_, ?_⟩
    · refine Text.firstWord_append hword hn ?_ ?_ ?_
      · intro c hc
        have : c = ' ' := (List.mem_cons.1 hc).elim id (hb c)
        rw [this]
        decide
      · intro c hc
        rw [List.map_cons, head?_joined (operandText_render x).1] at hc
        exact (isOperandChar_iff.1 (x.isOperandChar_render c (List.mem_of_mem_head? hc))).1
      · exact fun c hc => (isOperandChar_iff.1 (hlast c hc)).1
    · intro c hc
      simp only [List.mem_append, List.mem_cons] at hc
      rcases hc with hc | (hc | hc) | hc
      · exact Or.inr (Or.inr (hname c hc))
      · exact Or.inr (Or.inl hc)
      · exact Or.inr (Or.inl (hb c hc))
      · exact mem_joined htexts hc
    · rw [List.head?_append, Option.or_of_isSome]
      simpa [List.isSome_head?] using hn
    · intro c hc
      simp only [List.getLast?_append, List.getLast?_eq_some_getLast hne, Option.some_or] at hc
      exact hlast c (by rw [List.getLast?_eq_some_getLast hne]; exact hc)

/-- An instruction is read as it was written. -/
theorem Instruction.readsBack (i : Instruction) : (AssemblyLine.instruction i).ReadsBack := by
  obtain ⟨body, hr, hbody⟩ := i.bodyParts
  obtain ⟨hn, hdot, -⟩ := i.mnemonic.name_front
  have hmargin : ∀ c ∈ margin.toList, Text.isLineEnd c = false := by decide
  have hspace : Text.isLineEnd ',' = false ∧ Text.isLineEnd ' ' = false := by decide
  have hne : body ≠ [] := by
    rintro rfl
    have := hbody.head
    rw [List.head?_nil, eq_comm, List.head?_eq_none_iff] at this
    exact hn this
  rw [AssemblyLine.ReadsBack, AssemblyLine.render, hr]
  refine ⟨?_, ?_⟩
  · intro c hc
    rcases List.mem_append.1 hc with hc | hc
    · exact hmargin c hc
    · rcases hbody.chars c hc with rfl | rfl | hc
      · exact hspace.1
      · exact hspace.2
      · exact (isOperandChar_iff.1 hc).2.1
  · have hbare : withoutComment (margin.toList ++ body) = body := by
      refine withoutComment_margin ?_ ?_ ?_
      · intro c hc
        rcases hbody.chars c hc with rfl | rfl | hc
        · decide
        · decide
        · exact (isOperandChar_iff.1 hc).2.2.2.1
      · intro c hc
        rw [hbody.head] at hc
        exact (isOperandChar_iff.1 (i.mnemonic.isOperandChar_name c (List.mem_of_mem_head? hc))).1
      · exact fun c hc => (isOperandChar_iff.1 (hbody.last c hc)).1
    have hcolon : body.getLast? ≠ some ':' := fun hc =>
      (isOperandChar_iff.1 (hbody.last ':' hc)).2.2.2.2 rfl
    rw [LineContent.ofChars, hbare, if_neg (by simp [hne, hbody.head, hdot]), if_neg hcolon,
      hbody.firstWord]
    simp only [AssemblyLine.content, i.mnemonic.lower_name, String.ofList_toList]
    congr 1
    cases hos : i.operands with
    | nil => rfl
    | cons x xs =>
      have htexts : ∀ t ∈ (x :: xs).map (·.render.toList), OperandText t := by
        intro t ht
        obtain ⟨y, -, rfl⟩ := List.mem_map.1 ht
        exact operandText_render y
      rw [operandTexts_joined (by simp) htexts, List.map_map]
      exact List.map_congr_left fun y _ => String.ofList_toList

/-- A comment says nothing, if it keeps to its line. -/
theorem readsBack_comment {text : String} (h : ∀ c ∈ text.toList, Text.isLineEnd c = false) :
    (AssemblyLine.comment text).ReadsBack := by
  have hfront : ∀ c ∈ (margin ++ "# ").toList, Text.isLineEnd c = false := by decide
  have hbare : withoutComment (margin.toList ++ '#' :: ' ' :: text.toList) = [] := by
    have hmargin : ∀ c ∈ margin.toList, (c != '#') = true := by decide
    rw [withoutComment, List.takeWhile_append_of_pos hmargin, List.takeWhile_cons_of_neg (by simp),
      List.append_nil]
    decide
  refine ⟨?_, ?_⟩
  · intro c hc
    rw [AssemblyLine.render, String.toList_append, List.mem_append] at hc
    exact hc.elim (hfront c) (h c)
  · rw [AssemblyLine.render, String.append_assoc, String.toList_append, String.toList_append,
      show "# ".toList = ['#', ' '] by decide, List.cons_append, List.singleton_append,
      LineContent.ofChars, hbare]
    rfl

theorem readsBack_header : ∀ line ∈ header, line.ReadsBack := by
  simp only [header, List.mem_cons, List.not_mem_nil, or_false, forall_eq_or_imp, forall_eq,
    AssemblyLine.ReadsBack]
  decide

theorem readsBack_header_append {body : List AssemblyLine} (h : ∀ line ∈ body, line.ReadsBack) :
    ∀ line ∈ header ++ body, line.ReadsBack := fun line hm =>
  (List.mem_append.mp hm).elim (readsBack_header line) (h line)

/-! ### Texts -/

/-- Adds what lines numbered from a number on are written for. -/
def Listing.addAll (l : Listing) : Nat → List AssemblyLine → Listing
  | _, [] => l
  | number, line :: lines => addAll (l.add line.content number) (number + 1) lines

theorem Listing.readFrom_map_render (l : Listing) (number : Nat) {lines : List AssemblyLine}
    (h : ∀ line ∈ lines, line.ReadsBack) :
    l.readFrom number (lines.map (·.render.toList)) = l.addAll number lines := by
  induction lines generalizing l number with
  | nil => rfl
  | cons line rest ih =>
    rw [List.map_cons, readFrom, (h line (by simp)).2, addAll,
      ih _ _ fun m hm => h m (by simp [hm])]

theorem toList_renderAssembly {lines : List AssemblyLine} (hn : lines ≠ []) :
    (renderAssembly lines).toList = (lines.map (·.render.toList)).flatMap (· ++ ['\n']) := by
  rw [renderAssembly, String.toList_append, String.toList_intercalate, List.map_map]
  induction lines with
  | nil => exact absurd rfl hn
  | cons line rest ih =>
    cases rest with
    | nil => simp
    | cons next rest =>
      have ht := ih (by simp)
      simp only [List.map_cons, List.intercalate_cons_cons, List.flatMap_cons, List.append_assoc,
        Function.comp] at ht ⊢
      rw [ht]
      simp

/-- A text is read as what its lines were written for. -/
theorem Listing.read_renderAssembly {lines : List AssemblyLine} (hn : lines ≠ [])
    (h : ∀ line ∈ lines, line.ReadsBack) :
    read (renderAssembly lines) = empty.addAll 1 lines := by
  have hlines : Text.listingLines (renderAssembly lines).toList = lines.map (·.render.toList) := by
    rw [toList_renderAssembly hn]
    refine Text.listingLines_flatMap fun line hl => ?_
    obtain ⟨a, ha, rfl⟩ := List.mem_map.1 hl
    exact (h a ha).1
  rw [read, hlines, readFrom_map_render _ _ h]

/-- The instruction of a line. -/
def AssemblyLine.instruction? : AssemblyLine → Option Instruction
  | .instruction i => some i
  | _ => none

/-- The instructions of lines, in order. -/
def instructionsOf (lines : List AssemblyLine) : List Instruction :=
  lines.filterMap AssemblyLine.instruction?

theorem instructionsOf_append (lines more : List AssemblyLine) :
    instructionsOf (lines ++ more) = instructionsOf lines ++ instructionsOf more :=
  List.filterMap_append

@[simp] theorem instructionsOf_map (is : List Instruction) :
    instructionsOf (is.map .instruction) = is := by
  rw [instructionsOf, List.filterMap_map]
  exact List.filterMap_some

/-- An instruction as an entry at a line. -/
def Instruction.entry (i : Instruction) (line : Int) : Entry :=
  ⟨i.mnemonic.name, i.operands.map Operand.render, line⟩

/-- The entries of lines numbered from a number on. -/
def entriesFrom : Nat → List AssemblyLine → List Entry
  | _, [] => []
  | number, line :: lines =>
    (line.instruction?.map (·.entry number)).toList ++ entriesFrom (number + 1) lines

theorem Listing.entries_addAll (l : Listing) (number : Nat) (lines : List AssemblyLine) :
    (l.addAll number lines).entries.toList = l.entries.toList ++ entriesFrom number lines := by
  induction lines generalizing l number with
  | nil => simp [addAll, entriesFrom]
  | cons line rest ih =>
    rw [addAll, ih]
    cases line <;> simp [AssemblyLine.content, add, entriesFrom, AssemblyLine.instruction?,
      Instruction.entry]

/-- Lines without labels leave the labels alone. -/
theorem Listing.labels_addAll (l : Listing) (number : Nat) {lines : List AssemblyLine}
    (h : ∀ name, AssemblyLine.label name ∉ lines) : (l.addAll number lines).labels = l.labels := by
  induction lines generalizing l number with
  | nil => rfl
  | cons line rest ih =>
    rw [addAll, ih _ _ fun name hm => h name (by simp [hm])]
    cases line with
    | label name => exact absurd List.mem_cons_self (h name)
    | _ => rfl

/-- A header with lines behind it that set no label is read as the entries of those lines. -/
theorem Listing.read_header_append {body : List AssemblyLine} (h : ∀ line ∈ body, line.ReadsBack)
    (hl : ∀ name, AssemblyLine.label name ∉ body) :
    read (renderAssembly (header ++ body)) = ⟨(entriesFrom 4 body).toArray, [("main", 0)]⟩ := by
  have hheader : empty.addAll 1 (header ++ body) =
      (⟨#[], [("main", 0)]⟩ : Listing).addAll 4 body := rfl
  have hentries := entries_addAll ⟨#[], [("main", 0)]⟩ 4 body
  have hlabels := labels_addAll ⟨#[], [("main", 0)]⟩ 4 hl
  rw [read_renderAssembly (by simp [header]) (readsBack_header_append h), hheader]
  generalize (⟨#[], [("main", 0)]⟩ : Listing).addAll 4 body = l at hentries hlabels
  obtain ⟨entries, labels⟩ := l
  rw [List.nil_append] at hentries
  rw [← hentries, show labels = [("main", 0)] from hlabels]

/-- An entry spells an instruction, on whatever line it stands. -/
def Entry.Spells (e : Entry) (i : Instruction) : Prop :=
  e.mnemonic = i.mnemonic.name ∧ e.operands = i.operands.map Operand.render

theorem entriesFrom_spells (number : Nat) (lines : List AssemblyLine) :
    List.Forall₂ Entry.Spells (entriesFrom number lines) (instructionsOf lines) := by
  induction lines generalizing number with
  | nil => exact List.Forall₂.nil
  | cons line rest ih =>
    have hrest := ih (number + 1)
    cases line with
    | instruction i => exact List.Forall₂.cons ⟨rfl, rfl⟩ hrest
    | _ => exact hrest

end WordLang
