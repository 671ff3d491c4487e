import WordLang.Proofs.Compilation
import WordLang.Proofs.Legible
import WordLang.Proofs.Listing

/-! The integers in the code of a compiled source. Each of them fits the field that its instruction
has for it, and the literals of the source are pushed with their values. -/
namespace WordLang

open Instruction (push pop)

/-! ### Ranges -/

/-- The bits that an instruction has for an immediate operand. Only a load has a whole word. -/
def Mnemonic.fieldWidth : Mnemonic → Nat
  | .mov => 64
  | _ => 32

/-- Instructions in the code of statements. Those with an immediate operand are of three forms, each
with a range of its own. -/
inductive Instruction.Ranged : Instruction → Prop
  | plain {i : Instruction} (h : ∀ n, Operand.immediate n ∉ i.operands) : Ranged i
  | push {n : Int} (hmin : 0 ≤ n) (hmax : n < 2 ^ 31) : Ranged ⟨.push, [.immediate n]⟩
  | load {n : Int} (h : n = 0 ∨ 2 ^ 31 ≤ n ∧ n < 2 ^ 63) :
      Ranged ⟨.mov, [.register .rax, .immediate n]⟩
  | address {n : Int} (hdvd : 8 ∣ n) (hmin : 8 ≤ n) (hmax : n ≤ 208) :
      Ranged ⟨.sub, [.register .rax, .immediate n]⟩

/-- An instruction can have an integer for an operand: in the field for it, and in the word that it
stands for, the integer keeps its value. -/
structure Mnemonic.Holds (m : Mnemonic) (n : Int) : Prop where
  field : (BitVec.ofInt m.fieldWidth n).toInt = n
  word : IsSigned n

namespace Mnemonic.Holds

variable {m : Mnemonic} {n : Int}

theorem of_half (hmin : 0 ≤ n) (hmax : n < 2 ^ 31) : m.Holds n := by
  refine ⟨BitVec.toInt_ofInt_eq_self ?_ ?_ ?_, isSigned_iff.mpr (by omega)⟩
  · cases m <;> decide
  · cases m <;> simp [fieldWidth] <;> omega
  · cases m <;> simp [fieldWidth] <;> omega

theorem mov (hmin : 0 ≤ n) (hmax : n < 2 ^ 63) : Mnemonic.mov.Holds n := by
  refine ⟨BitVec.toInt_ofInt_eq_self (by decide) ?_ hmax, isSigned_iff.mpr (by omega)⟩
  simp [fieldWidth]
  omega

theorem exists_readOperand (h : m.Holds n) (e : Entry) (s : State) :
    ∃ w : Word, Action.readOperand e (Operand.immediate n).render s = .ok w s ∧ w.toInt = n := by
  have hbounds := isSigned_iff.mp h.word
  have hread : Text.Readable n := Text.readable_of_natAbs_lt (by omega)
  exact ⟨_, Action.readOperand_immediate e hread s, h.word.toInt_ofInt⟩

end Mnemonic.Holds

namespace Instruction.Ranged

variable {i : Instruction} {n : Int}

theorem push_bounds (h : Ranged ⟨.push, [.immediate n]⟩) : 0 ≤ n ∧ n < 2 ^ 31 := by
  cases h with
  | plain h => simp at h
  | push hmin hmax => exact ⟨hmin, hmax⟩

theorem load_bounds (h : Ranged ⟨.mov, [.register .rax, .immediate n]⟩) :
    n = 0 ∨ 2 ^ 31 ≤ n ∧ n < 2 ^ 63 := by
  cases h with
  | plain h => simp at h
  | load h => exact h

theorem address_bounds (h : Ranged ⟨.sub, [.register .rax, .immediate n]⟩) :
    8 ∣ n ∧ 8 ≤ n ∧ n ≤ 208 := by
  cases h with
  | plain h => simp at h
  | address hdvd hmin hmax => exact ⟨hdvd, hmin, hmax⟩

/-- Statements leave the stack pointer to the frame. -/
theorem not_frame : ¬ Ranged ⟨.sub, [.register .rsp, .immediate n]⟩ := by
  intro h
  cases h with
  | plain h => simp at h

theorem holds (h : i.Ranged) (hn : Operand.immediate n ∈ i.operands) : i.mnemonic.Holds n := by
  cases h with
  | plain h => exact absurd hn (h n)
  | push hmin hmax =>
    obtain rfl : n = _ := by simpa using hn
    exact .of_half hmin hmax
  | load h =>
    obtain rfl : n = _ := by simpa using hn
    exact .mov (by omega) (by omega)
  | address _ hmin hmax =>
    obtain rfl : n = _ := by simpa using hn
    exact .of_half (by omega) (by omega)

end Instruction.Ranged

/-- Offsets of slots that an address in the code of statements can have. -/
def SlotTable.Near (table : SlotTable) : Prop :=
  ∀ x ∈ table.names, 8 ∣ table.offsetOf x ∧ 8 ≤ table.offsetOf x ∧ table.offsetOf x ≤ 208

section Ranged

variable {code more : List Instruction} {table : SlotTable} {n : Node}

/-- All instructions of some code are in range. -/
def Ranged (code : List Instruction) : Prop := ∀ i ∈ code, i.Ranged

theorem ranged_append : Ranged (code ++ more) ↔ Ranged code ∧ Ranged more := List.forall_mem_append

/-- Code without immediate operands. -/
theorem Immediates.ranged (h : Immediates (fun _ => False) code) : Ranged code :=
  fun i hi => .plain fun n hn => h i hi n hn

theorem ranged_pushNumber {v : Int} (hmin : 0 ≤ v) (hmax : v ≤ maxLiteral) :
    Ranged (pushNumber v) := by
  have hpush : Ranged [push .rax] := Immediates.ranged (by simp [Immediates, push])
  unfold maxLiteral at hmax
  rw [pushNumber]
  split
  next hfits =>
    simp only [fitsHalfWord, Bool.and_eq_true, decide_eq_true_eq] at hfits
    simpa [Ranged] using .push hmin (by omega)
  next hfits =>
    simp only [fitsHalfWord, Bool.and_eq_true, decide_eq_true_eq] at hfits
    have hload : Ranged [⟨.mov, [.register .rax, .immediate v]⟩] := by
      simpa [Ranged] using .load (by omega)
    exact ranged_append.mpr ⟨hload, hpush⟩

theorem ranged_pushAddress {offset : Int} (hdvd : 8 ∣ offset) (hmin : 8 ≤ offset)
    (hmax : offset ≤ 208) : Ranged (pushAddress offset) := by
  have hmove : Ranged [Instruction.move .rax .rbp] :=
    Immediates.ranged (by simp [Immediates, Instruction.move])
  have hsub : Ranged [⟨.sub, [.register .rax, .immediate offset]⟩] := by
    simpa [Ranged] using .address hdvd hmin hmax
  have hpush : Ranged [push .rax] := Immediates.ranged (by simp [Immediates, push])
  exact ranged_append.mpr ⟨hmove, ranged_append.mpr ⟨hsub, hpush⟩⟩

theorem SlotTable.Regular.near (h : table.Regular) (hw : table.wordSize = 8)
    (hc : table.capacity = 26) : table.Near := by
  intro x hx
  obtain ⟨slot, hs, rfl⟩ := List.mem_map.mp hx
  obtain ⟨i, hi, ho⟩ := h.exists_index hs
  have hlt : i < table.names.length := (List.getElem?_eq_some_iff.mp hi).1
  have hsize : table.names.length = table.size := List.length_map _
  have hle := h.size_le
  have hoff : table.offsetOf slot.name = (i + 1) * 8 := by
    rw [← hw, ← ho]
    exact h.agrees slot hs
  omega

theorem Node.Legible.ranged (h : n.Legible table) (ht : table.Near) (hc : n.code = .ok code) :
    Ranged code := by
  induction h generalizing code with
  | number hv hmax =>
    cases hc
    exact ranged_pushNumber hv hmax
  | @var x l _ hknown =>
    cases hc
    have := ht x hknown
    exact ranged_append.mpr ⟨ranged_pushAddress (by omega) (by omega) (by omega),
      immediates_loadWord.ranged⟩
  | assign hx _ _ ih =>
    obtain ⟨name, offset, l, c, htarget, hv, rfl⟩ := exists_of_code_assign hc
    cases htarget
    -- The target has no code of its own, but it is legible, so that its offset is that of a slot.
    cases hx with
    | var _ hknown =>
      have := ht _ hknown
      refine ranged_append.mpr ⟨ranged_append.mpr ⟨ranged_pushAddress ?_ ?_ ?_, ih hv⟩,
        immediates_storeWord.ranged⟩ <;> omega
  | binary _ _ _ ihx ihy =>
    obtain ⟨c, c', compute, hx, hy, hop, rfl⟩ := exists_of_code_binary hc
    simp only [ranged_append]
    exact ⟨⟨⟨⟨ihx hx, ihy hy⟩, Immediates.ranged (by simp [Immediates, pop])⟩,
      (Operator.immediates_code hop).ranged⟩, Immediates.ranged (by simp [Immediates, push])⟩

theorem Node.LegibleStatement.ranged (h : n.LegibleStatement table) (ht : table.Near)
    (hc : n.statementCode = .ok code) : Ranged code := by
  obtain ⟨c, hcode, rfl⟩ := exists_of_statementCode hc
  have hn : Ranged c := by
    cases h with
    | expression h => exact h.ranged ht hcode
    | result h =>
      obtain ⟨c', hv, rfl⟩ := exists_of_code_result hcode
      exact ranged_append.mpr ⟨ranged_append.mpr ⟨h.ranged ht hv, (immediates_pop _).ranged⟩,
        immediates_epilogue.ranged⟩
  split
  · exact hn
  · exact ranged_append.mpr ⟨hn, (immediates_pop _).ranged⟩

theorem ranged_statementLines {comments : Bool} {k : Nat} {ns : List Node}
    {lines : List AssemblyLine} (hns : ∀ n ∈ ns, n.LegibleStatement table) (ht : table.Near)
    (h : statementLines comments k ns = .ok lines) : Ranged (instructionsOf lines) := by
  induction ns generalizing k lines with
  | nil =>
    cases h
    exact List.forall_mem_nil _
  | cons n ns ih =>
    obtain ⟨code, more, hcode, hmore, hlines⟩ := statementLines_cons h
    rw [hlines]
    exact ranged_append.mpr ⟨(hns n (by simp)).ranged ht hcode,
      ih (fun m hm => hns m (by simp [hm])) hmore⟩

/-- Behind the lines that set up the frame, everything is in range. -/
theorem Program.ranged_assembly {p : Program} {size : Int} {comments : Bool}
    {lines : List AssemblyLine} (hp : ∀ n ∈ p.statements, n.LegibleStatement table)
    (ht : table.Near) (h : p.assembly size comments = .ok lines) :
    ∃ code, instructionsOf lines = prologue size ++ code ∧ Ranged code := by
  obtain ⟨body, hbody, hlines⟩ := instructionsOf_assembly h
  have hzero : Ranged (if p.statements.isEmpty then
      [⟨.mov, [.register .rax, .immediate 0]⟩] else []) := by
    split
    · simpa [Ranged] using .load (.inl rfl)
    · exact List.forall_mem_nil _
  refine ⟨_, hlines.trans (congrArg _ (List.append_assoc ..)), ?_⟩
  exact ranged_append.mpr ⟨ranged_statementLines hp ht hbody,
    ranged_append.mpr ⟨hzero, immediates_epilogue.ranged⟩⟩

end Ranged

/-! ### Constants -/

/-- The integer that an instruction has pushed when the next one has run. -/
def Instruction.constant? (next : Option Instruction) : Instruction → Option Int
  | ⟨.push, [.immediate n]⟩ => some n
  | ⟨.mov, [.register .rax, .immediate n]⟩ => if next = some (push .rax) then some n else none
  | _ => none

/-- The integers that some code pushes as they stand, at once or through a register. -/
def constants : List Instruction → List Int
  | [] => []
  | i :: code => (i.constant? code.head?).toList ++ constants code

/-- The numbers in a tree, in the order of its code. -/
def Node.literals : Node → List Int
  | .number v _ => [v]
  | .assign _ value _ | .result value _ => value.literals
  | .binary _ left right _ => left.literals ++ right.literals
  | _ => []

/-- Some code pushes certain integers, whatever code follows. -/
def Pushes (code : List Instruction) (vs : List Int) : Prop :=
  ∀ rest, constants (code ++ rest) = vs ++ constants rest

section Constants

variable {code more : List Instruction} {vs ws : List Int}

theorem Pushes.append (h : Pushes code vs) (h' : Pushes more ws) :
    Pushes (code ++ more) (vs ++ ws) := by
  intro rest
  rw [List.append_assoc, h, h', List.append_assoc]

theorem pushes_pushNumber (v : Int) : Pushes (pushNumber v) [v] := by
  intro rest
  rw [pushNumber]
  split <;> rfl

theorem Operator.pushes_code {op : Operator} (h : op.code? = some code) : Pushes code [] := by
  intro rest
  cases op <;> cases h <;> rfl

theorem Node.pushes_code : (n : Node) → {code : List Instruction} → n.code = .ok code →
    Pushes code n.literals
  | .number v _, _, h => by
    cases h
    exact pushes_pushNumber v
  | .var .., _, h => by
    cases h
    exact fun _ => rfl
  | .assign t v _, _, h => by
    obtain ⟨x, offset, l, c, rfl, hc, rfl⟩ := exists_of_code_assign h
    have haddress : Pushes (pushAddress offset) [] := fun _ => rfl
    have hstore : Pushes storeWord [] := fun _ => rfl
    simpa [literals] using (haddress.append (v.pushes_code hc)).append hstore
  | .binary op x y _, _, h => by
    obtain ⟨c, c', compute, hx, hy, ho, rfl⟩ := exists_of_code_binary h
    have hpop : Pushes [pop .rdi, pop .rax] [] := fun _ => rfl
    have hpush : Pushes [push .rax] [] := fun _ => rfl
    simpa [literals] using ((((x.pushes_code hx).append (y.pushes_code hy)).append hpop).append
      (Operator.pushes_code ho)).append hpush
  | .result v _, _, h => by
    obtain ⟨c, hc, rfl⟩ := exists_of_code_result h
    have hend : Pushes ([pop .rax] ++ epilogue) [] := fun _ => rfl
    simpa [literals] using (v.pushes_code hc).append hend
  | .program .., _, h | .bareExpression .., _, h | .bareNode .., _, h => by cases h

theorem Node.pushes_statementCode {n : Node} (h : n.statementCode = .ok code) :
    Pushes code n.literals := by
  obtain ⟨c, hc, rfl⟩ := exists_of_statementCode h
  have hpop : Pushes [pop .rax] [] := fun _ => rfl
  split
  · exact n.pushes_code hc
  · simpa using (n.pushes_code hc).append hpop

theorem pushes_statementLines {comments : Bool} {k : Nat} {ns : List Node}
    {lines : List AssemblyLine} (h : statementLines comments k ns = .ok lines) :
    Pushes (instructionsOf lines) (ns.flatMap Node.literals) := by
  induction ns generalizing k lines with
  | nil =>
    cases h
    exact fun _ => rfl
  | cons n ns ih =>
    obtain ⟨code, more, hcode, hmore, hlines⟩ := statementLines_cons h
    rw [hlines, List.flatMap_cons]
    exact (Node.pushes_statementCode hcode).append (ih hmore)

/-- The code of a program pushes the numbers of its statements, one after the other. -/
theorem Program.constants_assembly {p : Program} {size : Int} {comments : Bool}
    {lines : List AssemblyLine} (h : p.assembly size comments = .ok lines) :
    constants (instructionsOf lines) = p.statements.flatMap Node.literals := by
  obtain ⟨body, hbody, hlines⟩ := instructionsOf_assembly h
  have hstart : Pushes (prologue size) [] := fun _ => rfl
  -- The zero of a program without statements is loaded, but not pushed.
  have hend : constants ((if p.statements.isEmpty then
      [⟨.mov, [.register .rax, .immediate 0]⟩] else []) ++ epilogue) = [] := by
    split <;> rfl
  calc constants (instructionsOf lines)
      = constants (prologue size ++ instructionsOf body ++ ((if p.statements.isEmpty then
          [⟨.mov, [.register .rax, .immediate 0]⟩] else []) ++ epilogue)) := by rw [hlines]; rfl
    _ = p.statements.flatMap Node.literals := by
        rw [hstart.append (pushes_statementLines hbody), hend, List.nil_append, List.append_nil]

end Constants

/-! ### Literals -/

/-- The integer of a number token. -/
def Token.number? (t : Token) : Option Int :=
  match t.lexeme with
  | .number v => some v
  | _ => none

/-- The integers of the number tokens in a list. -/
def numbers (ts : List Token) : List Int := ts.filterMap Token.number?

/-- Some integers in any order, with any number of zeros among them. -/
def WithZeros (vs ws : List Int) : Prop := ∃ zeros : Nat, vs.Perm (List.replicate zeros 0 ++ ws)

section Literals

variable {vs vs' ws ws' : List Int} {t : Token} {m : Mark} {ts us : List Token} {e : Node}
  {σ : String → Nat}

theorem withZeros_refl (vs : List Int) : WithZeros vs vs := ⟨0, .refl vs⟩

theorem WithZeros.append (h : WithZeros vs ws) (h' : WithZeros vs' ws') :
    WithZeros (vs ++ vs') (ws ++ ws') := by
  obtain ⟨k, h⟩ := h
  obtain ⟨k', h'⟩ := h'
  refine ⟨k + k', (h.append h').trans (List.perm_iff_count.mpr fun v => ?_)⟩
  simp only [List.count_append, List.count_replicate]
  split <;> omega

theorem WithZeros.comm (h : WithZeros (vs ++ vs') ws) : WithZeros (vs' ++ vs) ws := by
  obtain ⟨k, h⟩ := h
  exact ⟨k, List.perm_append_comm.trans h⟩

theorem Token.number?_of_mark (h : t.kind = .mark m) : t.number? = none := by
  obtain ⟨text, hl⟩ := exists_lexeme_of_mark h
  rw [number?, hl]

theorem numbers_cons_of_mark (h : t.kind = .mark m) : numbers (t :: ts) = numbers ts :=
  List.filterMap_cons_none (Token.number?_of_mark h)

theorem numbers_append (ts us : List Token) : numbers (ts ++ us) = numbers ts ++ numbers us :=
  List.filterMap_append

theorem Joins.withZeros_literals {level : Nonterminal} {f : Node → Node → Node} {x y : Node}
    (h : Joins level m f) (hx : WithZeros x.literals vs) (hy : WithZeros y.literals ws) :
    WithZeros (f x y).literals (vs ++ ws) := by
  cases h with
  | greater | greaterEqual => exact (hx.append hy).comm
  | _ => exact hx.append hy

/-- The numbers in a tree are those of its tokens; a minus sign adds a zero to them. -/
theorem Derives.withZeros_literals {n : Nonterminal} (h : Derives σ n ts e) :
    WithZeros e.literals (numbers ts) := by
  induction h with
  | number h | name h =>
    simp only [numbers, List.filterMap, Token.number?, h]
    exact withZeros_refl _
  | parens ht _ hu ih =>
    have hnil : numbers [] = [] := rfl
    rwa [numbers_cons_of_mark ht, numbers_append, numbers_cons_of_mark hu, hnil, List.append_nil]
  | unsigned _ ih | operand _ _ ih | bare _ ih | expression _ ih | statement _ ih => exact ih
  | plus ht _ ih | result ht _ ih => rwa [numbers_cons_of_mark ht]
  | minus ht _ ih =>
    rw [numbers_cons_of_mark ht]
    have hzero : WithZeros [0] [] := ⟨1, .refl _⟩
    exact hzero.append ih
  | join _ hj _ ht _ ih ih' =>
    rw [numbers_append, numbers_cons_of_mark ht]
    exact hj.withZeros_literals ih ih'
  | assign _ ht _ ih ih' =>
    rw [numbers_append, numbers_cons_of_mark ht]
    -- The target is a variable, which has no literals; nor have its tokens numbers.
    exact ih.append ih'

theorem DerivesAll.withZeros_literals {ns : List Node} (h : DerivesAll σ ts ns) :
    WithZeros (ns.flatMap Node.literals) (numbers ts) := by
  induction h with
  | nil => exact withZeros_refl _
  | skip ht _ ih => rwa [numbers_cons_of_mark ht]
  | last hn => simpa using hn.withZeros_literals
  | cons hn ht _ ih =>
    rw [numbers_append, numbers_cons_of_mark ht, List.flatMap_cons]
    exact hn.withZeros_literals.append ih

end Literals

/-! ### Compiled sources -/

section Compiled

variable {o : Options} {s : Source} {c : Compilation}

/-- A compilation is a parse of the source. -/
theorem Options.compile_parse (h : (o.compile s).outcome = .ok c) :
    ∃ table, SlotTable.create o.wordSize o.maxVariables = .ok table ∧
      (s.parse table o.maxStatements).outcome = .ok c.program ∧
      (s.parse table o.maxStatements).slots = c.slots := by
  obtain ⟨htokens, -, table, hcreate, hp, hslots⟩ := compile_ok h
  refine ⟨table, hcreate, ?_⟩
  rw [Source.parse, htokens]
  exact ⟨hp, hslots⟩

theorem Options.compile_legibleStatement (h : (o.compile s).outcome = .ok c) :
    ∀ n ∈ c.program.statements, n.LegibleStatement c.slots := by
  intro n hn
  obtain ⟨table, hcreate, hp, hslots⟩ := compile_parse h
  obtain ⟨-, -, rfl⟩ := SlotTable.create_eq_ok hcreate
  rw [← hslots]
  exact (Source.legibleStatement_of_parse (SlotTable.regular_empty _ _) hp hn).2

theorem Options.compile_withZeros (h : (o.compile s).outcome = .ok c) :
    WithZeros (c.program.statements.flatMap Node.literals) (numbers c.tokens) := by
  obtain ⟨htokens, -, table, hcreate, hp, hslots⟩ := compile_ok h
  obtain ⟨-, -, rfl⟩ := SlotTable.create_eq_ok hcreate
  obtain ⟨ts, p, hpasses, heq⟩ := Source.scan_eq_ok_iff.mp htokens
  rw [heq] at hp ⊢
  obtain ⟨-, -, -, hd⟩ :=
    derivesAll_of_parseTokens (SlotTable.regular_empty _ _) hpasses.isEnd_eq rfl hp
  have hend : numbers [s.endToken p] = [] := rfl
  rw [numbers_append, hend, List.append_nil]
  exact (hd _ ((SlotTable.regular_empty _ _).enter ts).agrees).withZeros_literals

/-- With slots of eight bytes and room for 26 of them, all is in range but the frame. -/
theorem Options.compile_ranged (h : (o.compile s).outcome = .ok c)
    (hw : o.wordSize = SlotTable.defaultWordSize)
    (hv : o.maxVariables = SlotTable.defaultCapacity) :
    ∃ code, instructionsOf c.lines = prologue 208 ++ code ∧ Ranged code := by
  obtain ⟨-, body, -, -, hslots, -⟩ := compile_enters h
  have hsize : c.slots.wordSize = 8 := by rw [hslots, SlotTable.wordSize_enter, hw]; rfl
  have hcapacity : c.slots.capacity = 26 := by rw [hslots, SlotTable.capacity_enter, hv]; rfl
  have hframe : (c.slots.frameSize : Int) = 208 := by
    rw [SlotTable.frameSize, hsize, hcapacity]
    rfl
  have hlines := (compile_ok h).2.1
  rw [hframe] at hlines
  exact Program.ranged_assembly (compile_legibleStatement h)
    ((compile_regular h).near hsize hcapacity) hlines

theorem Ranged.mem_cases {code : List Instruction} (h : Ranged code) {i : Instruction}
    (hi : i ∈ prologue 208 ++ code) :
    i.Ranged ∨ i = ⟨.sub, [.register .rsp, .immediate 208]⟩ := by
  rw [List.mem_append] at hi
  rcases hi with hi | hi
  · simp only [prologue, List.mem_cons, List.not_mem_nil, or_false] at hi
    rcases hi with rfl | rfl | rfl
    · exact .inl (.plain (by simp [push]))
    · exact .inl (.plain (by simp [Instruction.move]))
    · exact .inr rfl
  · exact .inl (h i hi)

end Compiled

/-- The text of a source that is compiled with slots of the usual size and number is read as
instructions of the following kind. What is pushed at once fits a half word, what is loaded does
not, what is taken from the frame pointer is the offset of a slot, and room for the slots is made
once. So each integer has the same value in the field for it and to the machine. The integers that
are pushed are the literals of the tree in order. Those are the numbers of the source, with zeros
among them that minus signs are subtracted from. -/
theorem immediates_encodable {o : Options} {s : Source} {c : Compilation}
    (h : (o.compile s).outcome = .ok c) (hw : o.wordSize = SlotTable.defaultWordSize)
    (hv : o.maxVariables = SlotTable.defaultCapacity) :
    let code := instructionsOf c.lines
    (∃ entries : List Entry, Listing.read c.assembly = ⟨entries.toArray, [("main", 0)]⟩ ∧
      List.Forall₂ Entry.Spells entries code) ∧
    (∀ n, ⟨.push, [.immediate n]⟩ ∈ code → 0 ≤ n ∧ n ≤ 2 ^ 31 - 1) ∧
    (∀ n, ⟨.mov, [.register .rax, .immediate n]⟩ ∈ code →
      n = 0 ∨ 2 ^ 31 ≤ n ∧ n ≤ 2 ^ 63 - 1) ∧
    (∀ n, ⟨.sub, [.register .rax, .immediate n]⟩ ∈ code → 8 ∣ n ∧ 8 ≤ n ∧ n ≤ 208) ∧
    ((∀ n, ⟨.sub, [.register .rsp, .immediate n]⟩ ∈ code → n = 208) ∧
      code.count ⟨.sub, [.register .rsp, .immediate 208]⟩ = 1) ∧
    (∀ i ∈ code, ∀ n, .immediate n ∈ i.operands →
      (BitVec.ofInt i.mnemonic.fieldWidth n).toInt = n ∧
      ∀ (e : Entry) (state : State), ∃ w : Word,
        Action.readOperand e (Operand.immediate n).render state = .ok w state ∧ w.toInt = n) ∧
    constants code = c.program.statements.flatMap Node.literals ∧
    WithZeros (constants code) (numbers c.tokens) := by
  intro code
  obtain ⟨body, hcode, hbody⟩ := Options.compile_ranged h hw hv
  have hmem {i : Instruction} (hi : i ∈ code) :
      i.Ranged ∨ i = ⟨.sub, [.register .rsp, .immediate 208]⟩ := hbody.mem_cases (hcode ▸ hi)
  have hconstants := Program.constants_assembly (Options.compile_ok h).2.1
  refine ⟨(Options.compile_coherent h).exists_entries, fun n hn => ?_, fun n hn => ?_,
    fun n hn => ?_, ⟨fun n hn => ?_, ?_⟩, fun i hi n hn => ?_, hconstants, ?_⟩
  · have := ((hmem hn).resolve_right (by simp)).push_bounds
    omega
  · have := ((hmem hn).resolve_right (by simp)).load_bounds
    omega
  · exact ((hmem hn).resolve_right (by simp)).address_bounds
  · simpa using (hmem hn).resolve_left Instruction.Ranged.not_frame
  · have hzero : body.count ⟨.sub, [.register .rsp, .immediate 208]⟩ = 0 :=
      List.count_eq_zero.mpr fun hn => (hbody _ hn).not_frame
    calc code.count ⟨.sub, [.register .rsp, .immediate 208]⟩
        = (prologue 208).count ⟨.sub, [.register .rsp, .immediate 208]⟩ + 0 := by
          rw [← hzero, ← List.count_append, ← hcode]
      _ = 1 := by decide
  · have hholds : i.mnemonic.Holds n := by
      rcases hmem hi with hr | rfl
      · exact hr.holds hn
      · obtain rfl : n = 208 := by simpa using hn
        exact .of_half (by decide) (by decide)
    exact ⟨hholds.field, hholds.exists_readOperand⟩
  · rw [hconstants]
    exact Options.compile_withZeros h

/-- The integers at the borders of the ranges, under a sign and in an exchanged comparison. -/
theorem immediates_encodable_limits :
    let s : Source := ⟨none, "a = 2147483647 > -2147483648; return a / 9223372036854775807"⟩
    ∃ c, (Options.compile {} s).outcome = .ok c ∧
      constants (instructionsOf c.lines) = [0, 2147483648, 2147483647, 9223372036854775807] ∧
      ⟨.push, [.immediate 2147483647]⟩ ∈ instructionsOf c.lines ∧
      ⟨.mov, [.register .rax, .immediate 2147483648]⟩ ∈ instructionsOf c.lines ∧
      (instructionsOf c.lines).count ⟨.sub, [.register .rsp, .immediate 208]⟩ = 1 := by
  intro s
  obtain ⟨c, hc, hp⟩ := exists_of_any_toOption (x := (Options.compile {} s).outcome)
    (p := fun c => decide (c.program.statements.flatMap Node.literals =
      [0, 2147483648, 2147483647, 9223372036854775807] ∧
      ⟨.push, [.immediate 2147483647]⟩ ∈ instructionsOf c.lines ∧
      ⟨.mov, [.register .rax, .immediate 2147483648]⟩ ∈ instructionsOf c.lines))
    (by decide +kernel)
  obtain ⟨hliterals, hpush, hload⟩ := of_decide_eq_true hp
  obtain ⟨-, -, -, -, ⟨-, hcount⟩, -, hconstants, -⟩ := immediates_encodable hc rfl rfl
  exact ⟨c, hc, hconstants.trans hliterals, hpush, hload, hcount⟩

end WordLang
