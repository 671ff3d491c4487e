import WordLang.Proofs.Message
import WordLang.Syntax.Outline

/-! An outline tells its tree. Every node has one line, and how far a line is set in tells what its
node is a part of, so that trees can be read back from their lines one after another. -/
namespace WordLang

namespace Node

/-! ### Nodes and their parts -/

/-- The line of a node before it is set in. -/
def label : Node → String
  | .number v _ => "Number " ++ Text.decimal v
  | .var x offset _ => "Variable " ++ x ++ " @" ++ Text.decimal offset
  | .assign .. => "Assign"
  | .binary op .. => "BinaryOp " ++ op.spelling
  | .result .. => "Return"
  | .program .. => "Program"
  | .bareExpression _ | .bareNode _ => ""

/-- The nodes right below a node, in order. -/
def children : Node → List Node
  | .assign t v _ => [t, v]
  | .binary _ x y _ => [x, y]
  | .result v _ => [v]
  | .program ss _ => ss
  | _ => []

/-- A node with a line of its own: it has content, its name does not break the line, and its
operator is one of the language. -/
def HasLine : Node → Prop
  | .var x _ _ => Unbroken x
  | .binary op _ _ _ => op ∈ Operator.known
  | .bareExpression _ | .bareNode _ => False
  | _ => True

/-- A tree all of whose nodes have lines. -/
def Outlined (n : Node) : Prop := ∀ m ∈ n.preorder, m.HasLine

section Induction

variable {motive : List Node → Prop} (nil : motive [])
  (cons : ∀ n ns, motive n.children → motive ns → motive (n :: ns))
include nil cons

mutual

theorem children_induction : (n : Node) → motive n.children
  | .assign t v _ => cons t [v] (children_induction t) (cons v [] (children_induction v) nil)
  | .binary _ x y _ => cons x [y] (children_induction x) (cons y [] (children_induction y) nil)
  | .result v _ => cons v [] (children_induction v) nil
  | .program ss _ => forest_induction ss
  | .number .. | .var .. | .bareExpression _ | .bareNode _ => nil

/-- Trees in a row are taken apart into the parts of the first one and the other trees. -/
theorem forest_induction : (ns : List Node) → motive ns
  | [] => nil
  | n :: ns => cons n ns (children_induction n) (forest_induction ns)

end

end Induction

theorem preorder_eq (n : Node) : n.preorder = n :: preorderList n.children := by
  cases n <;> simp [preorder, preorderList, children]

theorem outlined_iff {n : Node} : n.Outlined ↔ n.HasLine ∧ ∀ m ∈ n.children, m.Outlined := by
  simp only [Outlined, preorder_eq n, List.mem_cons, forall_eq_or_imp, mem_preorderList]
  constructor
  · rintro ⟨hn, h⟩
    exact ⟨hn, fun m hm x hx => h x ⟨m, hm, hx⟩⟩
  · rintro ⟨hn, h⟩
    refine ⟨hn, ?_⟩
    rintro x ⟨m, hm, hx⟩
    exact h m hm x hx

/-! ### Labels -/

section Labels

variable {n m : Node}

/-- A name ends before the last mark of its line, whatever marks it holds itself. -/
theorem label_var_inj {x y : String} {offset offset' : Int} {l l' : Option Location}
    (h : (var x offset l).label = (var y offset' l').label) : x = y ∧ offset = offset' := by
  have hmark (k : Int) : '@' ∉ (Text.decimal k).toList :=
    Text.notMem_decimal (by decide) (by decide) k
  have hlist := congrArg String.toList h
  simp only [label, String.toList_append, List.append_assoc, List.append_cancel_left_eq,
    show " @".toList = [' ', '@'] from rfl, List.cons_append, List.nil_append] at hlist
  rw [List.append_cons x.toList, List.append_cons y.toList] at hlist
  obtain ⟨hx, hoffset⟩ := Text.append_cons_cancel (hmark offset) (hmark offset') hlist
  exact ⟨String.toList_inj.mp (List.append_cancel_right hx),
    Text.decimal_injective (String.toList_inj.mp hoffset)⟩

/-- Nodes with the same label differ in what is below them, or not at all. -/
theorem agrees_of_label (hn : n.HasLine) (hm : m.HasLine) (h : n.label = m.label) :
    n.agrees m = agreesList n.children m.children := by
  -- the first letter of a label tells the form of its node
  cases n with
  | number v =>
    cases m with
    | number w =>
      have hv : v = w := Text.decimal_injective ((String.append_right_inj _).mp h)
      simp [agrees, agreesList, children, hv]
    | _ => exact absurd h (Text.ne_of_head? (by simp [label]))
  | var x offset =>
    cases m with
    | var y offset' =>
      obtain ⟨hx, hoffset⟩ := label_var_inj h
      simp [agrees, agreesList, children, hx, hoffset]
    | _ => exact absurd h (Text.ne_of_head? (by simp [label]))
  | assign =>
    cases m with
    | assign => simp [agrees, agreesList, children]
    | _ => exact absurd h (Text.ne_of_head? (by simp [label]))
  | binary op =>
    cases m with
    | binary op' =>
      have hspelling : op.spelling = op'.spelling := (String.append_right_inj _).mp h
      have hop : op = op' := by
        rw [← Operator.ofSpelling_spelling hn, hspelling, Operator.ofSpelling_spelling hm]
      simp [agrees, agreesList, children, hop]
    | _ => exact absurd h (Text.ne_of_head? (by simp [label]))
  | result =>
    cases m with
    | result => simp [agrees, agreesList, children]
    | _ => exact absurd h (Text.ne_of_head? (by simp [label]))
  | program =>
    cases m with
    | program => rfl
    | _ => exact absurd h (Text.ne_of_head? (by simp [label]))
  | bareExpression | bareNode => cases hn

theorem label_of_agrees (h : n.agrees m = true) :
    n.label = m.label ∧ agreesList n.children m.children = true := by
  cases n <;> cases m <;> simp_all [agrees, agreesList, label, children]

theorem unbroken_label (h : n.HasLine) : Unbroken n.label := by
  cases n with
  | number v => exact .append (by decide) (unbroken_decimal v)
  | var x offset => exact .append (.append (.append (by decide) h) (by decide)) (unbroken_decimal _)
  | binary op =>
    have hops : ∀ op ∈ Operator.known, Unbroken op.spelling := by decide
    exact .append (by decide) (hops op h)
  | _ => simp [Unbroken, label]

end Labels

/-! ### Reading outlines back -/

/-- How far a line is set in. -/
def lineDepth (line : String) : Nat := (line.toList.takeWhile (· == ' ')).length / 2

/-- Lines the first of which, if there is one, stands above a depth. -/
def EndsAbove (depth : Nat) (lines : List String) : Prop :=
  ∀ line ∈ lines.head?, lineDepth line < depth

section Forests

variable {n : Node} {ns ms : List Node} {depth : Nat} {rest rest' : List String}

theorem lineDepth_outlineLine (h : n.HasLine) (depth : Nat) :
    lineDepth (outlineLine depth n.label) = depth := by
  have hlabel : n.label.toList.takeWhile (· == ' ') = [] := by
    cases n with
    | bareExpression | bareNode => cases h
    | _ => simp [label]
  simp [lineDepth, outlineLine, List.takeWhile_append_of_pos, hlabel]

theorem outlineLinesList_cons (h : n.HasLine) (ns : List Node) (depth : Nat) :
    outlineLinesList depth (n :: ns) = outlineLine depth n.label ::
      (outlineLinesList (depth + 1) n.children ++ outlineLinesList depth ns) := by
  cases n with
  | bareExpression | bareNode => cases h
  | _ => simp [outlineLines, outlineLinesList, label, children]

/-- The lines of trees begin at their depth, or what follows them does above it. -/
theorem endsAbove_append (hns : ∀ n ∈ ns, n.Outlined) (hrest : EndsAbove depth rest) :
    EndsAbove (depth + 1) (outlineLinesList depth ns ++ rest) := by
  intro line hline
  cases ns with
  | nil => exact Nat.lt_succ_of_lt (hrest line hline)
  | cons n ns =>
    have hn := (outlined_iff.mp (hns n List.mem_cons_self)).1
    rw [outlineLinesList_cons hn, List.cons_append, List.head?_cons, Option.mem_some_iff] at hline
    rw [← hline, lineDepth_outlineLine hn]
    exact Nat.lt_succ_self depth

theorem not_endsAbove (h : n.HasLine) :
    ¬EndsAbove depth (outlineLinesList depth (n :: ns) ++ rest) := by
  intro hends
  rw [outlineLinesList_cons h] at hends
  have hlt := hends _ rfl
  rw [lineDepth_outlineLine h] at hlt
  exact Nat.lt_irrefl depth hlt

/-- Trees are read back from their lines, whatever follows above their depth. The lines right below
the first line belong to the parts of the first tree, up to where the next tree begins. -/
theorem agreesList_of_outlineLinesList (hns : ∀ n ∈ ns, n.Outlined) (hms : ∀ m ∈ ms, m.Outlined)
    (hrest : EndsAbove depth rest) (hrest' : EndsAbove depth rest')
    (h : outlineLinesList depth ns ++ rest = outlineLinesList depth ms ++ rest') :
    agreesList ns ms = true ∧ rest = rest' := by
  induction ns using forest_induction generalizing ms depth rest rest' with
  | nil =>
    cases ms with
    | nil => exact ⟨rfl, h⟩
    | cons m ms =>
      have hm := (outlined_iff.mp (hms m List.mem_cons_self)).1
      have hbegins : rest = outlineLinesList depth (m :: ms) ++ rest' := h
      exact absurd (hbegins ▸ hrest) (not_endsAbove hm)
  | cons n ns ihn ihns =>
    rw [List.forall_mem_cons, outlined_iff] at hns
    obtain ⟨⟨hn, hchildren⟩, hns⟩ := hns
    cases ms with
    | nil =>
      have hbegins : rest' = outlineLinesList depth (n :: ns) ++ rest := h.symm
      exact absurd (hbegins ▸ hrest') (not_endsAbove hn)
    | cons m ms =>
      rw [List.forall_mem_cons, outlined_iff] at hms
      obtain ⟨⟨hm, hchildren'⟩, hms⟩ := hms
      rw [outlineLinesList_cons hn, outlineLinesList_cons hm] at h
      obtain ⟨hline, htail⟩ := List.cons.inj h
      have hlabel : n.label = m.label := (String.append_right_inj _).mp hline
      rw [List.append_eq, List.append_eq, List.append_assoc, List.append_assoc] at htail
      obtain ⟨hparts, hothers⟩ := ihn hchildren hchildren' (endsAbove_append hns hrest)
        (endsAbove_append hms hrest') htail
      obtain ⟨hagrees, hends⟩ := ihns hns hms hrest hrest' hothers
      rw [agreesList, agrees_of_label hn hm hlabel, hparts, hagrees]
      exact ⟨rfl, hends⟩

theorem outlineLinesList_of_agreesList (hns : ∀ n ∈ ns, n.Outlined) (hms : ∀ m ∈ ms, m.Outlined)
    (h : agreesList ns ms = true) (depth : Nat) :
    outlineLinesList depth ns = outlineLinesList depth ms := by
  induction ns using forest_induction generalizing ms depth with
  | nil =>
    cases ms with
    | nil => rfl
    | cons m ms => simp [agreesList] at h
  | cons n ns ihn ihns =>
    cases ms with
    | nil => simp [agreesList] at h
    | cons m ms =>
      rw [List.forall_mem_cons, outlined_iff] at hns hms
      rw [agreesList, Bool.and_eq_true] at h
      obtain ⟨hlabel, hparts⟩ := label_of_agrees h.1
      rw [outlineLinesList_cons hns.1.1, outlineLinesList_cons hms.1.1, hlabel,
        ihn hns.1.2 hms.1.2 hparts, ihns hns.2 hms.2 h.2]

theorem unbroken_outlineLinesList (hns : ∀ n ∈ ns, n.Outlined) (depth : Nat) :
    ∀ line ∈ outlineLinesList depth ns, Unbroken line := by
  induction ns using forest_induction generalizing depth with
  | nil => simp [outlineLinesList]
  | cons n ns ihn ihns =>
    rw [List.forall_mem_cons, outlined_iff] at hns
    obtain ⟨⟨hn, hchildren⟩, hns⟩ := hns
    rw [outlineLinesList_cons hn, List.forall_mem_cons, List.forall_mem_append]
    exact ⟨(unbroken_spaces _).append (unbroken_label hn), ihn hchildren _, ihns hns _⟩

end Forests

/-- The lines of an outline are found again in its text. -/
theorem sourceLines_outline {n : Node} (h : n.Outlined) :
    Text.sourceLines n.outline = outlineLinesList 0 [n] := by
  have hlines : n.outlineLines 0 = outlineLinesList 0 [n] := by
    rw [outlineLinesList, outlineLinesList, List.append_nil]
  have hunbroken := unbroken_outlineLinesList (List.forall_mem_singleton.mpr h) 0
  rw [outline, hlines]
  refine Text.sourceLines_intercalate ?_ hunbroken
  rw [outlineLinesList_cons (outlined_iff.mp h).1]
  exact List.cons_ne_nil _ _

end Node

/-- Outlines are faithful: two trees all of whose nodes have lines have the same outline just when
they differ in places only. -/
theorem outline_eq_iff_agrees {n m : Node} (hn : n.Outlined) (hm : m.Outlined) :
    n.outline = m.outline ↔ n.agrees m = true := by
  have hns := List.forall_mem_singleton.mpr hn
  have hms := List.forall_mem_singleton.mpr hm
  rw [show n.agrees m = Node.agreesList [n] [m] by simp [Node.agreesList]]
  constructor
  · intro h
    have hlines := congrArg Text.sourceLines h
    rw [Node.sourceLines_outline hn, Node.sourceLines_outline hm] at hlines
    have hends : Node.EndsAbove 0 [] := by simp [Node.EndsAbove]
    exact (Node.agreesList_of_outlineLinesList hns hms hends hends (by rw [hlines])).1
  · intro h
    have hlines := Node.outlineLinesList_of_agreesList hns hms h 0
    simp only [Node.outlineLinesList, List.append_nil] at hlines
    rw [Node.outline, Node.outline, hlines]

/-- A name that looks like a line's end, in trees that differ in places or in nesting. -/
theorem outline_eq_iff_agrees_nested :
    let x : Node := .var "a @8" 16 none
    let n : Node := .program [.program [.result x none] none, .number (-1) none] none
    let moved : Node := .program [.program [.result x (some ⟨none, 1, 2, 1⟩)] none,
      .number (-1) (some ⟨none, 3, 1, 9⟩)] none
    let nested : Node := .program [.program [.result x none, .number (-1) none] none] none
    n.Outlined ∧ moved.Outlined ∧ nested.Outlined ∧ n.outline = moved.outline ∧
      n.outline ≠ nested.outline := by
  intro x n moved nested
  have hx : Unbroken "a @8" := by decide
  have hn : n.Outlined := by
    simp [Node.Outlined, Node.preorder, Node.preorderList, Node.HasLine, n, x, hx]
  have hmoved : moved.Outlined := by
    simp [Node.Outlined, Node.preorder, Node.preorderList, Node.HasLine, moved, x, hx]
  have hnested : nested.Outlined := by
    simp [Node.Outlined, Node.preorder, Node.preorderList, Node.HasLine, nested, x, hx]
  refine ⟨hn, hmoved, hnested, (outline_eq_iff_agrees hn hmoved).mpr ?_, fun h => ?_⟩
  · simp [n, moved, x, Node.agrees, Node.agreesList]
  · have hagrees := (outline_eq_iff_agrees hn hnested).mp h
    simp [n, nested, x, Node.agrees, Node.agreesList] at hagrees

end WordLang
