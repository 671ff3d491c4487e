import WordLang.Syntax.Node

/-! Two texts for a tree: an outline with one node a line, and a line of source. -/
namespace WordLang

/-- Each level of an outline is set in by two more spaces. -/
def outlineLine (depth : Nat) (text : String) : String :=
  String.ofList (List.replicate (2 * depth) ' ') ++ text

mutual

/-- The lines of an outline that starts at a depth. Nodes without content have no line. -/
def Node.outlineLines (depth : Nat) : Node → List String
  | .number v _ => [outlineLine depth ("Number " ++ Text.decimal v)]
  | .var n o _ => [outlineLine depth ("Variable " ++ n ++ " @" ++ Text.decimal o)]
  | .assign t v _ =>
    outlineLine depth "Assign" :: (t.outlineLines (depth + 1) ++ v.outlineLines (depth + 1))
  | .binary o l r _ =>
    outlineLine depth ("BinaryOp " ++ o.spelling) ::
      (l.outlineLines (depth + 1) ++ r.outlineLines (depth + 1))
  | .result v _ => outlineLine depth "Return" :: v.outlineLines (depth + 1)
  | .program ss _ => outlineLine depth "Program" :: Node.outlineLinesList (depth + 1) ss
  | .bareExpression _ | .bareNode _ => []

def Node.outlineLinesList (depth : Nat) : List Node → List String
  | [] => []
  | n :: ns => n.outlineLines depth ++ Node.outlineLinesList depth ns

end

namespace Node

def outline (n : Node) : String := String.intercalate "\n" (n.outlineLines 0)

/-- A statement as source, with parentheses around every operation. -/
def source : Node → String
  | .number v _ => Text.decimal v
  | .var n _ _ => n
  | .assign t v _ => t.source ++ " = " ++ v.source
  | .binary o l r _ => "(" ++ l.source ++ " " ++ o.spelling ++ " " ++ r.source ++ ")"
  | .result v _ => "return " ++ v.source
  | n => "<" ++ n.form ++ ">"

end Node

end WordLang
