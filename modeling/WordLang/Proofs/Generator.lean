import WordLang.Assembly.Generator
import WordLang.Proofs.Computation

/-! What stops a generator. The nodes of a program are judged in a fixed order, and the first of
them that has a flaw ends the work. What a generator has written before makes no difference. -/
namespace WordLang

/-! ### Flaws -/

namespace Node

/-- The nodes that code is made for, in the order in which they are judged: an assignment before
its value, an operator after both operands. The target of an assignment has no code of its own. -/
def judged : Node → List Node
  | .assign target value l => .assign target value l :: value.judged
  | .binary op left right l => left.judged ++ right.judged ++ [.binary op left right l]
  | .result value l => .result value l :: value.judged
  | n => [n]

variable {n : Node} {d : Diagnostic}

end Node

/-- The nodes of a program in the order in which they are judged, statement after statement. -/
def Program.judged (p : Program) : List Node := p.statements.flatMap Node.judged

namespace Generator

open Instruction (push pop)

/-- Work that writes certain lines behind those that are there, or stops with a certain diagnostic.
-/
def Emits (m : Emission Unit) : Except Diagnostic (List AssemblyLine) → Prop
  | .ok lines => ∀ g, m g = .ok () ⟨g.output ++ lines⟩
  | .error d => ∀ g, ∃ g', m g = .error d g'

variable {m m' : Emission Unit} {r r' : Except Diagnostic (List AssemblyLine)}

theorem Emits.bind (h : Emits m r) (h' : Emits m' r') :
    Emits (m >>= fun _ => m') (r.bind fun lines => r'.map (lines ++ ·)) := by
  cases r with
  | error d =>
    intro g
    obtain ⟨g', hg⟩ := h g
    exact ⟨g', bind_of_error hg _⟩
  | ok lines =>
    cases r' with
    | error d =>
      intro g
      obtain ⟨g', hg⟩ := h' ⟨g.output ++ lines⟩
      exact ⟨g', (bind_of_ok (h g) _).trans hg⟩
    | ok lines' =>
      intro g
      have hout : g.output ++ lines ++ lines' = g.output ++ (lines ++ lines') :=
        Array.ext' (by simp)
      rw [bind_of_ok (h g), h', hout]

variable {p : Program} {frameSize : Int} {comments : Bool} {g : Generator} {d : Diagnostic}

end Generator

end WordLang
