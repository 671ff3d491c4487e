import Mathlib.Data.List.Induction
import Mathlib.Data.List.TakeWhile
import WordLang.Proofs.Text
import WordLang.Token.Scan

/-! Lines and columns. A running place counts line feeds and the characters behind the last one of
them, so that it can be told from the text before it alone, and the line that it is on is what
stands between two line feeds. -/
namespace WordLang

namespace Text

/-- Where the last line of a text starts. -/
def lineStart (cs : List Char) : Nat := cs.length - (cs.reverse.takeWhile (· != '\n')).length

theorem lineStart_concat (cs : List Char) (c : Char) :
    lineStart (cs ++ [c]) = if c = '\n' then cs.length + 1 else lineStart cs := by
  by_cases hc : c = '\n'
  · simp [lineStart, hc]
  · simp [lineStart, hc]

theorem lineStart_le (cs : List Char) : lineStart cs ≤ cs.length := Nat.sub_le _ _

/-- The last line of a text has no line feed, and one stands right before it, if anything does. -/
theorem exists_lineStart (cs : List Char) : ∃ before line, cs = before ++ line ∧
    before.length = lineStart cs ∧ (∀ c ∈ line, c ≠ '\n') ∧
    (before = [] ∨ ∃ more, before = more ++ ['\n']) := by
  induction cs using List.reverseRecOn with
  | nil => exact ⟨[], [], rfl, rfl, by simp, .inl rfl⟩
  | append_singleton cs c ih =>
    rw [lineStart_concat]
    split
    · rename_i hc
      exact ⟨cs ++ [c], [], by simp, by simp, by simp, .inr ⟨cs, by rw [hc]⟩⟩
    · rename_i hc
      obtain ⟨before, line, rfl, hlen, hline, hbefore⟩ := ih
      refine ⟨before, line ++ [c], by simp, hlen, ?_, hbefore⟩
      simpa [or_imp, forall_and] using ⟨hline, hc⟩

theorem firstLine_eq_takeWhile (cs : List Char) : firstLine cs = cs.takeWhile (· != '\n') := by
  induction cs with
  | nil => rfl
  | cons c cs ih =>
    rw [firstLine] at ih ⊢
    rw [List.findIdx?_cons]
    by_cases hc : c = '\n'
    · simp [hc]
    · rw [List.takeWhile_cons_of_pos (by simpa using hc), ← ih]
      cases cs.findIdx? (· == '\n') <;> simp [hc]

/-! ### Lines by number -/

theorem splitBy_cons (p : Char → Bool) (c : Char) (cs : List Char) :
    splitBy p (c :: cs) = splitStep p c (splitBy p cs) := rfl

theorem head?_splitBy (p : Char → Bool) (cs : List Char) :
    (splitBy p cs).head? = some (cs.takeWhile (!p ·)) := by
  induction cs with
  | nil => rfl
  | cons c cs ih =>
    rw [splitBy_cons, splitStep.eq_def]
    cases hc : p c with
    | true => simp [hc]
    | false =>
      obtain ⟨rest, hrest⟩ := List.head?_eq_some_iff.mp ih
      simp [hrest, hc]

theorem drop_splitBy (p : Char → Bool) {sep : Char} (hs : p sep = true) (before cs : List Char) :
    (splitBy p (before ++ sep :: cs)).drop (before.countP p + 1) = splitBy p cs := by
  induction before with
  | nil => rw [List.nil_append, splitBy_cons, splitStep.eq_def, if_pos hs]; rfl
  | cons c before ih =>
    rw [List.cons_append, splitBy_cons, splitStep.eq_def, List.countP_cons]
    cases hc : p c with
    | true => simpa using ih
    | false =>
      obtain ⟨rest, hrest⟩ := List.head?_eq_some_iff.mp (head?_splitBy p (before ++ sep :: cs))
      simpa [hrest] using ih

/-- The line of a place runs from the last line feed before it to the next one behind it. -/
theorem lineAt?_sourceLines (front rest : List Char) :
    lineAt? (sourceLines (String.ofList (front ++ rest))) (1 + front.count '\n' : Nat) =
      some (String.ofList (((front ++ rest).drop (lineStart front)).takeWhile (· != '\n'))) := by
  obtain ⟨before, line, rfl, hlen, hline, hbefore⟩ := exists_lineStart front
  -- All line feeds of the front stand before its last line, so that many pieces are dropped.
  have hcount : (before ++ line).count '\n' = before.count '\n' := by
    rw [List.count_append, List.count_eq_zero.mpr fun h => hline '\n' h rfl, Nat.add_zero]
  have hget : (splitBy (· == '\n') (before ++ (line ++ rest)))[before.count '\n']? =
      some ((line ++ rest).takeWhile (· != '\n')) := by
    rcases hbefore with rfl | ⟨more, rfl⟩
    · simpa [bne, List.head?_eq_getElem?] using head?_splitBy (· == '\n') (line ++ rest)
    · have hdrop := drop_splitBy (· == '\n') (beq_self_eq_true '\n') more (line ++ rest)
      have hhead := head?_splitBy (· == '\n') (line ++ rest)
      rw [← hdrop, List.head?_drop] at hhead
      simpa [List.count, bne] using hhead
  rw [hcount, lineAt?, if_pos (by omega), ← hlen, List.append_assoc, List.drop_left, sourceLines,
    String.toList_ofList, List.getElem?_map,
    show ((1 + before.count '\n' : Nat) - 1 : Int).toNat = before.count '\n' by omega, hget]
  rfl

/-- A character that is no line feed stands on the line of its place, behind what stands before it
there. -/
theorem getElem?_line (front rest : List Char) {c : Char} (hc : c ≠ '\n') :
    (((front ++ c :: rest).drop (lineStart front)).takeWhile (· != '\n'))[
      front.length - lineStart front]? = some c := by
  obtain ⟨before, line, rfl, hlen, hline, -⟩ := exists_lineStart front
  have hline' : ∀ d ∈ line, (d != '\n') = true := by simpa using hline
  rw [← hlen, List.append_assoc, List.drop_left, List.takeWhile_append_of_pos hline',
    List.takeWhile_cons_of_pos (by simpa using hc), List.length_append, Nat.add_sub_cancel_left,
    List.getElem?_append_right (Nat.le_refl _), Nat.sub_self]
  rfl

end Text

/-! ### Places -/

namespace Position

@[simp]
theorem after_nil (p : Position) : p.after [] = p := rfl

@[simp]
theorem after_cons (p : Position) (c : Char) (cs : List Char) :
    p.after (c :: cs) = (p.next c).after cs := rfl

theorem after_append (p : Position) (cs ds : List Char) :
    p.after (cs ++ ds) = (p.after cs).after ds := List.foldl_append

theorem offset_after (p : Position) (cs : List Char) :
    (p.after cs).offset = p.offset + cs.length := by
  induction cs generalizing p with
  | nil => rfl
  | cons c cs ih =>
    rw [after_cons, ih, next]
    split <;> simp <;> omega

theorem lineStart_after (p : Position) {cs : List Char} (h : '\n' ∉ cs) :
    (p.after cs).lineStart = p.lineStart := by
  induction cs generalizing p with
  | nil => rfl
  | cons c cs ih =>
    obtain ⟨hc, hcs⟩ := List.ne_and_not_mem_of_not_mem_cons h
    rw [after_cons, ih _ hcs, next, if_neg hc.symm]

/-- Behind a text, the line feeds in it and the length of its last line are counted. -/
theorem start_after (cs : List Char) :
    start.after cs =
      ⟨cs.length, 1 + cs.count '\n', cs.length - Text.lineStart cs + 1, Text.lineStart cs⟩ := by
  induction cs using List.reverseRecOn with
  | nil => rfl
  | append_singleton cs c ih =>
    have := Text.lineStart_le cs
    rw [after_append, ih, after_cons, after_nil, next, Text.lineStart_concat]
    split
    · rename_i hc
      simp [hc]
      omega
    · rename_i hc
      simp [hc]
      omega

end Position

/-! ### Offsets of a source -/

namespace Source

/-- The location of an offset in a source: its line is one more than the line feeds before it, its
column is counted from the start of that line. -/
def locationAt (s : Source) (k : Nat) : Location :=
  let front := s.text.toList.take k
  ⟨s.file, 1 + front.count '\n', k - Text.lineStart front + 1, k⟩

theorem locate_after (s : Source) {front rest : List Char} (h : s.text.toList = front ++ rest) :
    (Position.start.after front).locate s.file = s.locationAt front.length := by
  have := Text.lineStart_le front
  rw [Position.start_after, Position.locate, locationAt, h, List.take_left]
  simp only [Location.mk.injEq, true_and, and_true]
  push_cast
  omega

/-- The line of a source that an offset is on. -/
def lineOf (s : Source) (k : Nat) : String :=
  String.ofList ((s.text.toList.drop (Text.lineStart (s.text.toList.take k))).takeWhile
    (· != '\n'))

/-- The line that a scan cuts out is the one of the offset that it has come to. -/
theorem currentLine_after (s : Source) {front rest : List Char}
    (h : s.text.toList = front ++ rest) :
    s.currentLine (Position.start.after front) = s.lineOf front.length := by
  rw [currentLine, lineOf, Position.start_after, h, List.take_left, Text.firstLine_eq_takeWhile]

theorem not_mem_lineOf (s : Source) (k : Nat) : '\n' ∉ (s.lineOf k).toList := by
  rw [lineOf, String.toList_ofList]
  intro h
  have := List.mem_takeWhile_imp h
  simp at this

theorem lineAt?_locationAt (s : Source) (k : Nat) :
    Text.lineAt? s.lines (s.locationAt k).line = some (s.lineOf k) := by
  have hline := Text.lineAt?_sourceLines (s.text.toList.take k) (s.text.toList.drop k)
  rw [List.take_append_drop, String.ofList_toList] at hline
  rw [lineOf, ← hline, lines, locationAt]
  push_cast
  rfl

theorem column_pos (s : Source) (k : Nat) : 0 < (s.locationAt k).column := by
  have hstart := Text.lineStart_le (s.text.toList.take k)
  have hlen := List.length_take_le k s.text.toList
  rw [locationAt]
  simp only
  omega

theorem toNat_column_sub_one (s : Source) (k : Nat) :
    ((s.locationAt k).column - 1).toNat = k - Text.lineStart (s.text.toList.take k) := by
  rw [locationAt]
  simp only
  omega

/-- What stands at an offset stands in the column of its location, on the line there. -/
theorem getElem?_lineOf {s : Source} {k : Nat} {c : Char} (h : s.text.toList[k]? = some c)
    (hc : c ≠ '\n') : (s.lineOf k).toList[((s.locationAt k).column - 1).toNat]? = some c := by
  obtain ⟨hk, heq⟩ := List.getElem?_eq_some_iff.mp h
  have hsplit : s.text.toList.take k ++ c :: s.text.toList.drop (k + 1) = s.text.toList := by
    rw [← heq, ← List.drop_eq_getElem_cons, List.take_append_drop]
  have hline := Text.getElem?_line (s.text.toList.take k) (s.text.toList.drop (k + 1)) hc
  rw [hsplit, List.length_take, Nat.min_eq_left (Nat.le_of_lt hk)] at hline
  rw [toNat_column_sub_one, lineOf, String.toList_ofList, hline]

end Source

end WordLang
