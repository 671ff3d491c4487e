import WordLang.Assembly.Code

/-! Trees that have code: only variables are assigned to, only operators of the language join
operands, and only whole statements are results. The code of a tree is taken apart into that of the
trees below it. -/
namespace WordLang

/-- Trees that stand for a value. -/
inductive Node.IsExpression : Node → Prop
  | number {v : Int} {l : Option Location} : IsExpression (.number v l)
  | var {x : String} {offset : Int} {l : Option Location} : IsExpression (.var x offset l)
  | assign {x : String} {offset : Int} {value : Node} {l l' : Option Location}
      (hv : IsExpression value) : IsExpression (.assign (.var x offset l) value l')
  | binary {op : Operator} {left right : Node} {l : Option Location} (ho : op ∈ Operator.known)
      (hl : IsExpression left) (hr : IsExpression right) : IsExpression (.binary op left right l)

/-- Trees that stand for a statement. -/
inductive Node.IsStatement : Node → Prop
  | expression {n : Node} (h : n.IsExpression) : IsStatement n
  | result {value : Node} {l : Option Location} (h : value.IsExpression) :
      IsStatement (.result value l)

theorem Operator.exists_code {op : Operator} (h : op ∈ known) : ∃ code, op.code? = some code := by
  cases op with
  | other s => exact absurd h (by simp [known])
  | _ => exact ⟨_, rfl⟩

variable {n : Node}

theorem Node.IsExpression.exists_code (h : n.IsExpression) : ∃ code, n.code = .ok code := by
  induction h with
  | number | var => exact ⟨_, rfl⟩
  | assign _ ih =>
    obtain ⟨c, hc⟩ := ih
    exact ⟨_, by rw [Node.code, hc]⟩
  | binary ho _ _ ihl ihr =>
    obtain ⟨c, hc⟩ := ihl
    obtain ⟨c', hc'⟩ := ihr
    obtain ⟨compute, ho⟩ := Operator.exists_code ho
    exact ⟨_, by rw [Node.code, hc, hc', ho]⟩

theorem Node.IsStatement.exists_code (h : n.IsStatement) : ∃ code, n.code = .ok code := by
  cases h with
  | expression h => exact h.exists_code
  | result h =>
    obtain ⟨c, hc⟩ := h.exists_code
    exact ⟨_, by rw [Node.code, hc]⟩

/-! ### Code, taken apart -/

namespace Node

open Instruction (pop push)

variable {x y t v : Node} {l : Option Location} {code : List Instruction}

theorem exists_of_code_assign (h : (assign t v l).code = .ok code) :
    ∃ name offset l' c, t = .var name offset l' ∧ v.code = .ok c ∧
      code = pushAddress offset ++ c ++ storeWord := by
  cases t with
  | var name offset l' =>
    cases hc : v.code with
    | error d =>
      rw [Node.code, hc] at h
      cases h
    | ok c =>
      rw [Node.code, hc] at h
      cases h
      exact ⟨name, offset, l', c, rfl, rfl, rfl⟩
  | _ => cases h

theorem exists_of_code_binary {op : Operator} (h : (binary op x y l).code = .ok code) :
    ∃ c c' compute, x.code = .ok c ∧ y.code = .ok c' ∧ op.code? = some compute ∧
      code = c ++ c' ++ [pop .rdi, pop .rax] ++ compute ++ [push .rax] := by
  rw [Node.code] at h
  cases hx : x.code with
  | error d =>
    rw [hx] at h
    cases h
  | ok c =>
    cases hy : y.code with
    | error d =>
      rw [hx, hy] at h
      cases h
    | ok c' =>
      cases ho : op.code? with
      | none =>
        rw [hx, hy, ho] at h
        cases h
      | some compute =>
        rw [hx, hy, ho] at h
        cases h
        exact ⟨c, c', compute, rfl, rfl, rfl, rfl⟩

theorem exists_of_code_result (h : (result v l).code = .ok code) :
    ∃ c, v.code = .ok c ∧ code = c ++ [pop .rax] ++ epilogue := by
  cases hc : v.code with
  | error d =>
    rw [Node.code, hc] at h
    cases h
  | ok c =>
    rw [Node.code, hc] at h
    cases h
    exact ⟨c, rfl, rfl⟩

theorem exists_of_statementCode (h : n.statementCode = .ok code) :
    ∃ c, n.code = .ok c ∧ code = if n.isResult then c else c ++ [pop .rax] := by
  cases hc : n.code with
  | error d =>
    rw [statementCode, hc] at h
    cases h
  | ok c =>
    rw [statementCode, hc] at h
    exact ⟨c, rfl, (Except.ok.inj h).symm⟩

end Node

/-! ### Programs -/

theorem exists_statementLines (comments : Bool) (number : Nat) {ns : List Node}
    (h : ∀ n ∈ ns, n.IsStatement) : ∃ lines, statementLines comments number ns = .ok lines := by
  induction ns generalizing number with
  | nil => exact ⟨[], rfl⟩
  | cons n ns ih =>
    obtain ⟨c, hc⟩ := (h n (by simp)).exists_code
    obtain ⟨more, hmore⟩ := ih (number + 1) fun m hm => h m (by simp [hm])
    exact ⟨_, by rw [statementLines, Node.statementCode, hc, hmore]⟩

/-- A program of statements has an assembly, whatever the frame. -/
theorem Program.exists_assembly {p : Program} (h : ∀ n ∈ p.statements, n.IsStatement)
    (frameSize : Int) (comments : Bool) : ∃ lines, p.assembly frameSize comments = .ok lines := by
  obtain ⟨body, hbody⟩ := exists_statementLines comments 1 h
  exact ⟨_, by rw [assembly, hbody]⟩

end WordLang
