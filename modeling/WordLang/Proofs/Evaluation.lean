import Mathlib.Algebra.Order.Ring.Int
import Mathlib.Logic.Function.Basic
import WordLang.Machine.Step
import WordLang.Proofs.Computation
import WordLang.Syntax.Node

/-! The meaning of programs, told on their trees. Values are integers that fit a signed word, and
the machine's arithmetic on words is the arithmetic here. -/
namespace WordLang

/-- The signed value of the lowest 64 bits of an integer. -/
def wrap (n : Int) : Int := n.bmod (2 ^ 64)

/-- What stops an evaluation. -/
inductive Trap where
  | divisionByZero
  | divisionOverflow
  /-- The tree has no meaning. -/
  | meaningless
deriving DecidableEq

/-- The fault in which a machine ends for a trap. -/
def Trap.cause? : Trap → Option FaultCause
  | .divisionByZero => some .divisionByZero
  | .divisionOverflow => some .divisionOverflow
  | .meaningless => none

/-- One for a test that holds, zero otherwise. -/
def truth (b : Bool) : Int := if b then 1 else 0

/-- The value of an operator. Division is rounded toward zero, and its one overflow is a trap. -/
def Operator.apply : Operator → Int → Int → Except Trap Int
  | .add, x, y => .ok (wrap (x + y))
  | .sub, x, y => .ok (wrap (x - y))
  | .mul, x, y => .ok (wrap (x * y))
  | .div, x, y =>
    if y = 0 then .error .divisionByZero
    else if x = -(2 ^ 63) ∧ y = -1 then .error .divisionOverflow
    else .ok (x.tdiv y)
  | .equal, x, y => .ok (truth (x == y))
  | .notEqual, x, y => .ok (truth (x != y))
  | .less, x, y => .ok (truth (x < y))
  | .lessEqual, x, y => .ok (truth (x ≤ y))
  | .other _, _, _ => .error .meaningless

/-- The values of all variables. -/
abbrev Env := String → Int

/-- The value of an expression and the variables after it. The left operand comes first; an
assignment has the value that it stores. -/
def Node.eval : Node → Env → Except Trap (Int × Env)
  | .number v _, env => .ok (wrap v, env)
  | .var name _ _, env => .ok (env name, env)
  | .assign (.var name _ _) value _, env => do
    let (v, env) ← value.eval env
    return (v, Function.update env name v)
  | .binary op left right _, env => do
    let (x, env) ← left.eval env
    let (y, env) ← right.eval env
    return (← op.apply x y, env)
  | _, _ => .error .meaningless

/-- The value of statements that follow one with a given value: that of the first result statement,
or else of the last statement. -/
def evalStatements : List Node → Int → Env → Except Trap (Int × Env)
  | [], last, env => .ok (last, env)
  | .result value _ :: _, _, env => value.eval env
  | n :: rest, _, env => do
    let (v, env) ← n.eval env
    evalStatements rest v env

/-- The value of a program and its variables at the end. All variables start at zero. -/
def Program.evaluate (p : Program) : Except Trap (Int × Env) :=
  evalStatements p.statements 0 fun _ => 0

/-- The most words that the value of a node and what it is computed from take at once: an address
waits for the value to store there, a left operand for the right one. -/
def Node.depth : Node → Nat
  | .assign _ value _ => value.depth + 1
  | .binary _ left right _ => max left.depth (right.depth + 1)
  | .result value _ => value.depth
  | _ => 1

/-- The most words that a statement takes at once. -/
def Program.depth (p : Program) : Nat := (p.statements.map Node.depth).foldr max 0

theorem Program.depth_le {p : Program} {n : Node} (h : n ∈ p.statements) : n.depth ≤ p.depth := by
  obtain ⟨ns, l⟩ := p
  change n ∈ ns at h
  change n.depth ≤ (ns.map Node.depth).foldr max 0
  induction h with
  | head ms => exact Nat.le_max_left _ _
  | tail m _ ih => exact Nat.le_trans ih (Nat.le_max_right _ _)

/-! ### Signed values -/

/-- An integer that is the signed value of a word. -/
def IsSigned (n : Int) : Prop := wrap n = n

theorem toInt_ofInt (n : Int) : (Word.ofInt n).toInt = wrap n := BitVec.toInt_ofInt n

theorem isSigned_wrap (n : Int) : IsSigned (wrap n) := Int.bmod_bmod

theorem IsSigned.toInt_ofInt {n : Int} (h : IsSigned n) : (Word.ofInt n).toInt = n :=
  (WordLang.toInt_ofInt n).trans h

theorem ofInt_wrap (n : Int) : Word.ofInt (wrap n) = Word.ofInt n := by
  apply BitVec.eq_of_toInt_eq
  rw [toInt_ofInt, toInt_ofInt]
  exact isSigned_wrap n

theorem isSigned_iff {n : Int} : IsSigned n ↔ -(2 ^ 63) ≤ n ∧ n < 2 ^ 63 := by
  constructor
  · intro h
    have hl : -(2 ^ 63) ≤ n.bmod (2 ^ 64) := Int.le_bmod (by decide)
    have hu : n.bmod (2 ^ 64) < 2 ^ 63 := Int.bmod_lt (by decide)
    have hn : n.bmod (2 ^ 64) = n := h
    omega
  · rintro ⟨hl, hu⟩
    exact Int.bmod_eq_of_le (by omega) (by omega)

theorem isSigned_truth (b : Bool) : IsSigned (truth b) := by
  cases b <;> exact isSigned_iff.mpr (by decide)

theorem ofInt_truth (b : Bool) : Word.ofInt (truth b) = if b then 1 else 0 := by
  cases b <;> rfl

/-- Only the least value divided by minus one leaves the signed values. -/
theorem isSigned_tdiv_iff {x y : Int} (hx : IsSigned x) (hy : y ≠ 0) :
    IsSigned (x.tdiv y) ↔ ¬(x = -(2 ^ 63) ∧ y = -1) := by
  rw [isSigned_iff] at hx ⊢
  constructor
  · rintro ⟨_, h⟩ ⟨rfl, rfl⟩
    exact absurd h (by decide)
  · intro h
    by_cases hone : y.natAbs = 1
    · rcases (show y = 1 ∨ y = -1 by omega) with rfl | rfl
      · rw [Int.tdiv_one]
        exact hx
      · rw [Int.tdiv_neg, Int.tdiv_one]
        omega
    · have hq : (x.tdiv y).natAbs = x.natAbs / y.natAbs := Int.natAbs_tdiv x y
      have hhalf : x.natAbs / y.natAbs ≤ x.natAbs / 2 := Nat.div_le_div_left (by omega) (by decide)
      omega

theorem Operator.isSigned_apply {op : Operator} {x y v : Int} (hx : IsSigned x)
    (h : op.apply x y = .ok v) : IsSigned v := by
  cases op with
  | add | sub | mul =>
    cases h
    exact isSigned_wrap _
  | equal | notEqual | less | lessEqual =>
    cases h
    exact isSigned_truth _
  | div =>
    rw [Operator.apply] at h
    split at h
    · cases h
    split at h
    · cases h
    · cases h
      exact (isSigned_tdiv_iff hx ‹_›).mpr ‹_›
  | other s => cases h

/-- An evaluation keeps to signed values. -/
theorem Node.eval_isSigned {n : Node} {env env' : Env} {v : Int} (he : ∀ x, IsSigned (env x))
    (h : n.eval env = .ok (v, env')) : IsSigned v ∧ ∀ x, IsSigned (env' x) := by
  fun_induction Node.eval n env generalizing v env' with
  | case1 w l env =>
    cases h
    exact ⟨isSigned_wrap w, he⟩
  | case2 name o l env =>
    cases h
    exact ⟨he name, he⟩
  | case3 name o l value l' env ih =>
    obtain ⟨⟨w, env₁⟩, hv, hw⟩ := bind_eq_ok.mp h
    cases hw
    obtain ⟨hw, h₁⟩ := ih he hv
    refine ⟨hw, fun x => ?_⟩
    by_cases hx : x = name
    · rw [hx, Function.update_self]
      exact hw
    · rw [Function.update_of_ne hx]
      exact h₁ x
  | case4 op left right l env ihl ihr =>
    obtain ⟨⟨x, env₁⟩, hl, h⟩ := bind_eq_ok.mp h
    obtain ⟨⟨y, env₂⟩, hr, h⟩ := bind_eq_ok.mp h
    obtain ⟨w, hw, h⟩ := bind_eq_ok.mp h
    cases h
    obtain ⟨hx, h₁⟩ := ihl he hl
    exact ⟨op.isSigned_apply hx hw, (ihr env₁ h₁ hr).2⟩
  | case5 => cases h

theorem evalStatements_isSigned {ns : List Node} {v : Int} {env : Env} {r : Int × Env}
    (hv : IsSigned v) (henv : ∀ x, IsSigned (env x)) (h : evalStatements ns v env = .ok r) :
    IsSigned r.1 ∧ ∀ x, IsSigned (r.2 x) := by
  induction ns generalizing v env with
  | nil =>
    cases h
    exact ⟨hv, henv⟩
  | cons n ns ih =>
    cases n with
    | result value l => exact Node.eval_isSigned henv h
    | _ =>
      obtain ⟨r₁, h₁, h⟩ := bind_eq_ok.mp h
      obtain ⟨hv₁, henv₁⟩ := Node.eval_isSigned henv h₁
      exact ih hv₁ henv₁ h

end WordLang
