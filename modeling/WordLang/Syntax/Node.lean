import WordLang.Location

/-! Syntax trees. The grammar builds only some of them; trees made by hand may nest any node in any
other, name operators that do not exist, and hold nodes without content. -/
namespace WordLang

inductive Operator where
  | add
  | sub
  | mul
  | div
  | equal
  | notEqual
  | less
  | lessEqual
  /-- An operator outside the language, known by its spelling only. -/
  | other (spelling : String)
deriving DecidableEq

namespace Operator

/-- The operators of the language. -/
def known : List Operator := [.add, .sub, .mul, .div, .equal, .notEqual, .less, .lessEqual]

def spelling : Operator → String
  | .add => "+"
  | .sub => "-"
  | .mul => "*"
  | .div => "/"
  | .equal => "=="
  | .notEqual => "!="
  | .less => "<"
  | .lessEqual => "<="
  | .other s => s

def ofSpelling (s : String) : Operator := (known.find? (·.spelling = s)).getD (.other s)

theorem ofSpelling_spelling {o : Operator} (h : o ∈ known) : ofSpelling o.spelling = o := by
  cases o with
  | other s => exact absurd h (by simp [known])
  | _ => decide

end Operator

/-- A node of a syntax tree, with the place where it starts if that is known. -/
inductive Node where
  | number (value : Int) (location : Option Location)
  | var (name : String) (offset : Int) (location : Option Location)
  | assign (target value : Node) (location : Option Location)
  | binary (operator : Operator) (left right : Node) (location : Option Location)
  | result (value : Node) (location : Option Location)
  | program (statements : List Node) (location : Option Location)
  /-- An expression without content. -/
  | bareExpression (location : Option Location)
  /-- A node without content. -/
  | bareNode (location : Option Location)

/-- A whole program: its statements in order. -/
structure Program where
  statements : List Node
  location : Option Location

def Program.node (p : Program) : Node := .program p.statements p.location

namespace Node

def location : Node → Option Location
  | .number _ l | .var _ _ l | .assign _ _ l | .binary _ _ _ l | .result _ l | .program _ l
  | .bareExpression l | .bareNode l => l

/-- The name of the form of a node. -/
def form : Node → String
  | .number .. => "NumberLiteral"
  | .var .. => "Variable"
  | .assign .. => "Assign"
  | .binary .. => "BinaryOp"
  | .result .. => "Return"
  | .program .. => "Program"
  | .bareExpression .. => "Expression"
  | .bareNode .. => "Node"

/-- A variable can be assigned to. -/
def isVariable : Node → Bool
  | .var .. => true
  | _ => false

/-- A statement that ends the program. -/
def isResult : Node → Bool
  | .result .. => true
  | _ => false

end Node

/-! ### Equality of trees -/

mutual

/-- Two trees agree when they differ in places only. -/
def Node.agrees : Node → Node → Bool
  | .number v _, .number w _ => v == w
  | .var n o _, .var m p _ => n == m && o == p
  | .assign t v _, .assign u w _ => t.agrees u && v.agrees w
  | .binary o l r _, .binary p l' r' _ => o == p && l.agrees l' && r.agrees r'
  | .result v _, .result w _ => v.agrees w
  | .program ss _, .program ss' _ => Node.agreesList ss ss'
  | .bareExpression _, .bareExpression _ => true
  | .bareNode _, .bareNode _ => true
  | _, _ => false

def Node.agreesList : List Node → List Node → Bool
  | [], [] => true
  | n :: ns, m :: ms => n.agrees m && Node.agreesList ns ms
  | _, _ => false

end

mutual

theorem Node.agrees_refl : (n : Node) → n.agrees n = true
  | .number v _ => beq_self_eq_true v
  | .var n o _ => by rw [Node.agrees, beq_self_eq_true, beq_self_eq_true]; rfl
  | .assign t v _ => by rw [Node.agrees, t.agrees_refl, v.agrees_refl]; rfl
  | .binary o l r _ => by rw [Node.agrees, beq_self_eq_true, l.agrees_refl, r.agrees_refl]; rfl
  | .result v _ => by rw [Node.agrees, v.agrees_refl]
  | .program ss _ => by rw [Node.agrees, Node.agreesList_refl ss]
  | .bareExpression _ => rfl
  | .bareNode _ => rfl

theorem Node.agreesList_refl : (ns : List Node) → Node.agreesList ns ns = true
  | [] => rfl
  | n :: ns => by rw [Node.agreesList, n.agrees_refl, Node.agreesList_refl ns]; rfl

end

/-! ### Walks -/

mutual

/-- Numbers and names at the leaves, from left to right. -/
def Node.leaves : Node → List String
  | .number v _ => [Text.decimal v]
  | .var n _ _ => [n]
  | .assign t v _ => t.leaves ++ v.leaves
  | .binary _ l r _ => l.leaves ++ r.leaves
  | .result v _ => v.leaves
  | .program ss _ => Node.leavesList ss
  | .bareExpression _ | .bareNode _ => []

def Node.leavesList : List Node → List String
  | [] => []
  | n :: ns => n.leaves ++ Node.leavesList ns

end

mutual

/-- Every node of a tree, a node before the nodes below it. -/
def Node.preorder : Node → List Node
  | .assign t v l => .assign t v l :: (t.preorder ++ v.preorder)
  | .binary o x y l => .binary o x y l :: (x.preorder ++ y.preorder)
  | .result v l => .result v l :: v.preorder
  | .program ss l => .program ss l :: Node.preorderList ss
  | n => [n]

def Node.preorderList : List Node → List Node
  | [] => []
  | n :: ns => n.preorder ++ Node.preorderList ns

end

theorem Node.mem_preorderList {n : Node} {ns : List Node} :
    n ∈ Node.preorderList ns ↔ ∃ m ∈ ns, n ∈ m.preorder := by
  induction ns with
  | nil => simp [Node.preorderList]
  | cons m ns ih => simp [Node.preorderList, ih]

end WordLang
