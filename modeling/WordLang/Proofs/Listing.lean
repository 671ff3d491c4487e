import WordLang.Proofs.Generation
import WordLang.Proofs.Machine.Instruction

/-! The text of a program and its reader agree. The text is read as the instructions that were
written, each on a line of its own, and every immediate operand as the integer it was written for.
-/
namespace WordLang

open Instruction (push pop move binary)

/-! ### Immediate operands -/

/-- A condition holds of every immediate operand in some code. -/
def Immediates (P : Int → Prop) (code : List Instruction) : Prop :=
  ∀ i ∈ code, ∀ v, Operand.immediate v ∈ i.operands → P v

/-- The integer that a node holds: the value of a literal, or the offset of a variable. -/
def Node.integer? : Node → Option Int
  | .number v _ => some v
  | .var _ offset _ => some offset
  | _ => none

section Immediates

variable {P : Int → Prop} {v : Int} {code more : List Instruction}

@[simp] theorem immediates_append :
    Immediates P (code ++ more) ↔ Immediates P code ∧ Immediates P more := by
  simp [Immediates, or_imp, forall_and]

theorem immediates_pushNumber (h : P v) : Immediates P (pushNumber v) := by
  unfold pushNumber
  split <;> simp [Immediates, push, h]

theorem immediates_pushAddress (h : P v) : Immediates P (pushAddress v) := by
  simp [Immediates, pushAddress, move, push, h]

theorem immediates_loadWord : Immediates P loadWord := by
  simp [Immediates, loadWord, pop, push]

theorem immediates_storeWord : Immediates P storeWord := by
  simp [Immediates, storeWord, pop, push]

theorem immediates_pop (r : Register) : Immediates P [pop r] := by
  simp [Immediates, pop]

theorem immediates_epilogue : Immediates P epilogue := by
  simp [Immediates, epilogue, move, pop]

theorem immediates_prologue (h : P v) : Immediates P (prologue v) := by
  simp [Immediates, prologue, move, push, h]

theorem Operator.immediates_code {op : Operator} (h : op.code? = some code) :
    Immediates P code := by
  cases op <;> cases h <;> simp [Immediates, compareBy, binary]

/-- The code of a tree has the integers of the tree for immediate operands, and no others. -/
theorem Node.immediates_code : (n : Node) → {code : List Instruction} → n.code = .ok code →
    (∀ m ∈ n.preorder, ∀ v ∈ m.integer?, P v) → Immediates P code
  | .number v l, _, h, hn => by
    cases h
    exact immediates_pushNumber (hn _ List.mem_cons_self v rfl)
  | .var x offset l, _, h, hn => by
    cases h
    have ho : P offset := hn _ List.mem_cons_self offset rfl
    simp [immediates_pushAddress ho, immediates_loadWord]
  | .assign t v l, _, h, hn => by
    obtain ⟨x, offset, l', c, rfl, hc, rfl⟩ := exists_of_code_assign h
    simp only [preorder, List.mem_cons, List.mem_append] at hn
    have ho : P offset := hn (.var x offset l') (by simp) offset rfl
    have hv := v.immediates_code hc fun m hm => hn m (by simp [hm])
    simp [immediates_pushAddress ho, immediates_storeWord, hv]
  | .binary op x y l, _, h, hn => by
    obtain ⟨c, c', compute, hc, hc', ho, rfl⟩ := exists_of_code_binary h
    simp only [preorder, List.mem_cons, List.mem_append] at hn
    have hx := x.immediates_code hc fun m hm => hn m (by simp [hm])
    have hy := y.immediates_code hc' fun m hm => hn m (by simp [hm])
    simp only [immediates_append]
    exact ⟨⟨⟨⟨hx, hy⟩, by simp [Immediates, pop]⟩, Operator.immediates_code ho⟩,
      by simp [Immediates, push]⟩
  | .result v l, _, h, hn => by
    obtain ⟨c, hc, rfl⟩ := exists_of_code_result h
    simp only [preorder, List.mem_cons] at hn
    have hv := v.immediates_code hc fun m hm => hn m (.inr hm)
    simp only [immediates_append]
    exact ⟨⟨hv, immediates_pop _⟩, immediates_epilogue⟩
  | .program .., _, h, _ | .bareExpression .., _, h, _ | .bareNode .., _, h, _ => by cases h

theorem Node.immediates_statementCode {n : Node} (h : n.statementCode = .ok code)
    (hn : ∀ m ∈ n.preorder, ∀ v ∈ m.integer?, P v) : Immediates P code := by
  obtain ⟨c, hc, rfl⟩ := exists_of_statementCode h
  have hcode := n.immediates_code hc hn
  split
  · exact hcode
  · exact immediates_append.mpr ⟨hcode, immediates_pop _⟩

/-! ### Programs without comments -/

theorem exists_statementLines_eq {k : Nat} {ns : List Node} {lines : List AssemblyLine}
    (h : statementLines false k ns = .ok lines)
    (hns : ∀ n ∈ ns, ∀ m ∈ n.preorder, ∀ v ∈ m.integer?, P v) :
    ∃ code, lines = code.map .instruction ∧ Immediates P code := by
  induction ns generalizing k lines with
  | nil =>
    cases h
    exact ⟨[], rfl, by simp [Immediates]⟩
  | cons n ns ih =>
    rw [statementLines] at h
    split at h
    · cases h
    rename_i code hcode
    split at h
    · cases h
    rename_i rest hrest
    cases h
    obtain ⟨more, rfl, hmore⟩ := ih hrest fun m hm => hns m (by simp [hm])
    have hfirst := Node.immediates_statementCode hcode (hns n (by simp))
    exact ⟨code ++ more, by simp, immediates_append.mpr ⟨hfirst, hmore⟩⟩

/-- Without comments a program is a header and instructions. -/
theorem Program.exists_code {p : Program} {frameSize : Int} {lines : List AssemblyLine}
    (h : p.assembly frameSize false = .ok lines) (hzero : P 0) (hf : P frameSize)
    (hp : ∀ n ∈ p.statements, ∀ m ∈ n.preorder, ∀ v ∈ m.integer?, P v) :
    ∃ code, lines = header ++ code.map .instruction ∧ Immediates P code := by
  rw [assembly] at h
  split at h
  · cases h
  rename_i body hbody
  cases h
  obtain ⟨code, rfl, hcode⟩ := exists_statementLines_eq hbody hp
  let empty : List Instruction :=
    if p.statements.isEmpty then [⟨.mov, [.register .rax, .immediate 0]⟩] else []
  have hempty : Immediates P empty := by
    unfold empty
    split <;> simp [Immediates, hzero]
  refine ⟨prologue frameSize ++ code ++ empty ++ epilogue, ?_, ?_⟩
  · unfold empty
    split <;> simp
  · simp only [immediates_append]
    exact ⟨⟨⟨immediates_prologue hf, hcode⟩, hempty⟩, immediates_epilogue⟩

end Immediates

/-- Instructions that stand on lines of their own are numbered one after the other. -/
theorem entriesFrom_map_instruction (number : Nat) (code : List Instruction) :
    entriesFrom number (code.map .instruction) =
      code.mapIdx fun i x => x.entry ((number + i : Nat) : Int) := by
  induction code generalizing number with
  | nil => rfl
  | cons x code ih =>
    rw [List.map_cons, entriesFrom, ih, List.mapIdx_cons]
    simp [AssemblyLine.instruction?, Nat.add_assoc, Nat.add_comm 1]

/-- The text of a program and its reader agree. Without comments a program is a header and
instructions; its text is read as those instructions, in order, from the fourth line on, with the
one label before the first of them. If the numerals of the program are not too long, then each
immediate operand is read as its integer, wrapped to a word. -/
theorem read_assembly {p : Program} {frameSize : Int} {lines : List AssemblyLine}
    (h : p.assembly frameSize false = .ok lines) (hf : Text.Readable frameSize)
    (hp : ∀ n ∈ p.statements, ∀ m ∈ n.preorder, ∀ v ∈ m.integer?, Text.Readable v) :
    ∃ code : List Instruction, lines = header ++ code.map .instruction ∧
      Listing.read (renderAssembly lines) =
        ⟨(code.mapIdx fun i x => x.entry (i + 4)).toArray, [("main", 0)]⟩ ∧
      ∀ x ∈ code, ∀ n, Operand.immediate n ∈ x.operands → ∀ (e : Entry) (s : State),
        ∃ w, Action.readOperand e (Operand.immediate n).render s = .ok w s ∧
          (w.toNat : Int) = n % 2 ^ 64 := by
  have hzero : Text.Readable 0 := Text.readable_of_natAbs_lt (by decide)
  obtain ⟨code, rfl, hcode⟩ := Program.exists_code h hzero hf hp
  refine ⟨code, rfl, ?_, fun x hx n hn e s => ?_⟩
  · have hreads : ∀ line ∈ code.map AssemblyLine.instruction, line.ReadsBack := by
      simp only [List.forall_mem_map]
      exact fun x _ => x.readsBack
    rw [Listing.read_header_append hreads (by simp), entriesFrom_map_instruction]
    simp [Int.add_comm]
  · exact ⟨Word.ofInt n, Action.readOperand_immediate e (hcode x hx n hn) s, Word.toNat_ofInt n⟩

/-- A literal beyond a word, a variable above the frame, and a frame of negative size. -/
theorem read_assembly_negative :
    let p : Program := ⟨[.result (.binary .sub (.number (-18446744073709551617) none)
      (.var "x" (-8) none) none) none], none⟩
    ∃ (lines : List AssemblyLine) (code : List Instruction),
      p.assembly (-5) false = .ok lines ∧ lines = header ++ code.map .instruction ∧
      Listing.read (renderAssembly lines) =
        ⟨(code.mapIdx fun i x => x.entry (i + 4)).toArray, [("main", 0)]⟩ ∧
      ∀ (e : Entry) (s : State), ∃ w, Action.readOperand e "-18446744073709551617" s = .ok w s ∧
        (w.toNat : Int) = 18446744073709551615 := by
  intro p
  have hp : ∀ n ∈ p.statements, ∀ m ∈ n.preorder, ∀ v ∈ m.integer?, Text.Readable v := by
    simp [p, Node.preorder, Node.integer?]
    exact ⟨Text.readable_of_natAbs_lt (by decide), Text.readable_of_natAbs_lt (by decide)⟩
  obtain ⟨lines, hlines⟩ : ∃ lines, p.assembly (-5) false = .ok lines := ⟨_, rfl⟩
  let literal : Instruction := ⟨.mov, [.register .rax, .immediate (-18446744073709551617)]⟩
  have hliteral : .instruction literal ∈ lines := by
    cases hlines
    decide
  obtain ⟨code, rfl, hread, hwords⟩ :=
    read_assembly hlines (Text.readable_of_natAbs_lt (by decide)) hp
  have hmem : literal ∈ code := by simpa [header] using hliteral
  have hword := hwords literal hmem (-18446744073709551617) (by simp [literal])
  rw [show (Operand.immediate (-18446744073709551617)).render = "-18446744073709551617" by
    decide +kernel] at hword
  exact ⟨_, code, hlines, rfl, hread, hword⟩

end WordLang
