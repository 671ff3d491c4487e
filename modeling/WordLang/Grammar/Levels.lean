import WordLang.Grammar.Rule

/-! The grammar, level by level. Each level is given the rule for what stands inside parentheses;
the knot is tied by recursion on a bound, and the number of tokens that are left is always bound
enough.

    program    ::= ( statement? ';' )* statement?
    statement  ::= 'return' expression | expression
    expression ::= equality ( '=' expression )?
    equality   ::= relational ( ( '==' | '!=' ) relational )*
    relational ::= additive ( ( '<' | '<=' | '>' | '>=' ) additive )*
    additive   ::= term ( ( '+' | '-' ) term )*
    term       ::= unary ( ( '*' | '/' ) unary )*
    unary      ::= ( '+' | '-' )? primary
    primary    ::= '(' expression ')' | NUMBER | IDENTIFIER -/
namespace WordLang

namespace Grammar

open Parse

/-- An operand, given the rule for what stands in parentheses. -/
def primary (o : ParseSettings) (inner : Parse Node) : Parse Node := do
  let t ← current
  match t.lexeme with
  | .mark .openParen _ =>
    advance
    let e ← inner
    expect o .closeParen "')'"
    pure e
  | .number value =>
    advance
    pure (.number value (some t.location))
  | .identifier name =>
    advance
    let offset ← resolve o t name
    pure (.var name offset (some t.location))
  | _ => fail o t (.missingOperand (some t.describe))

/-- An operand under a sign. A minus subtracts from zero; a plus leaves no trace. -/
def signed (operand : Parse Node) : Parse Node := do
  let t ← current
  match t.lexeme with
  | .mark .plus _ =>
    advance
    operand
  | .mark .minus _ =>
    advance
    let e ← operand
    pure (.binary .sub (.number 0 (some t.location)) e (some t.location))
  | _ => operand

def unary (o : ParseSettings) (inner : Parse Node) : Parse Node := signed (primary o inner)

/-- Joins an operand on the right and goes on, if a mark of a level follows. -/
def joinNext (level : Mark → Option Join) (operand : Parse Node) (goOn : Node → Parse Node)
    (left : Node) : Parse Node := do
  let t ← current
  match t.kind.join? level with
  | none => pure left
  | some j =>
    advance
    let right ← operand
    goOn (j.node left right)

/-- Goes on joining operands on the right for as long as the marks of a level follow. -/
def chainFrom (level : Mark → Option Join) (operand : Parse Node) : Nat → Node → Parse Node
  | 0, left => pure left
  | n + 1, left => joinNext level operand (chainFrom level operand n) left

/-- Operands joined from left to right by the marks of a level. -/
def chain (level : Mark → Option Join) (operand : Parse Node) : Parse Node := fun s =>
  (do let e ← operand; chainFrom level operand s.input.length e : Parse Node) s

def term (o : ParseSettings) (inner : Parse Node) : Parse Node :=
  chain Mark.multiplicative? (unary o inner)

def additive (o : ParseSettings) (inner : Parse Node) : Parse Node :=
  chain Mark.additive? (term o inner)

def relational (o : ParseSettings) (inner : Parse Node) : Parse Node :=
  chain Mark.relational? (additive o inner)

def equality (o : ParseSettings) (inner : Parse Node) : Parse Node :=
  chain Mark.equality? (relational o inner)

/-- What follows the left side of an assignment, or what might have been one. Only a variable can be
assigned to. -/
def afterTarget (o : ParseSettings) (inner : Parse Node) (target : Node) : Parse Node := do
  match ← accept .assign with
  | none => pure target
  | some _ =>
    if target.isVariable then
      let value ← inner
      pure (.assign target value target.location)
    else fun s =>
      .error ⟨.targetNotVariable, target.location,
        target.location.bind fun l => Text.lineAt? o.sourceLines l.line⟩ s

def assignment (o : ParseSettings) (inner : Parse Node) : Parse Node := do
  let target ← equality o inner
  afterTarget o inner target

/-- An expression in which parentheses and assignments nest no deeper than a bound. -/
def expressionWithin (o : ParseSettings) : Nat → Parse Node
  | 0 => do fail o (← current) (.missingOperand (some (← current).describe))
  | n + 1 => assignment o (expressionWithin o n)

/-- A rule that takes the rule for expressions within the tokens that are left. -/
def bounded (o : ParseSettings) (rule : Parse Node → Parse Node) : Parse Node := fun s =>
  rule (expressionWithin o s.input.length) s

def expression (o : ParseSettings) : Parse Node := bounded o (assignment o)

/-- An expression whose value is returned, or any expression. -/
def returned (expression : Parse Node) : Parse Node := do
  match ← accept .keywordReturn with
  | some t =>
    let value ← expression
    pure (.result value (some t.location))
  | none => expression

def statement (o : ParseSettings) : Parse Node := returned (expression o)

section Statements

variable {α : Type}

/-- What follows a statement, behind a semicolon unless the input ends. -/
def separated (o : ParseSettings) (rest : Parse α) : Parse α := do
  unless ← atEnd do
    expect o .semicolon "';'"
  rest

/-- What to do where a statement may start: be done, pass a semicolon, or read a statement and go on,
if the number of statements already read is below the limit. -/
def nextStatement (o : ParseSettings) (count : Nat) (statement : Parse Node) (done skipped : Parse α)
    (goOn : Node → Parse α) : Parse α := do
  let t ← current
  if t.isEnd then
    done
  else if t.kind = .mark .semicolon then
    advance
    skipped
  else if o.maxStatements ≤ count then
    fail o t (.tooMany (some "statements") (some o.maxStatements))
  else
    let n ← statement
    separated o (goOn n)

/-- A statement and those that follow. -/
def followedBy (n : Node) (rest : Parse (List Node)) : Parse (List Node) := do
  let more ← rest
  pure (n :: more)

end Statements

/-- The statements that follow a number of statements already read, within a bound. -/
def statementsWithin (o : ParseSettings) : Nat → Nat → Parse (List Node)
  | 0, _ => pure []
  | n + 1, count =>
    nextStatement o count (statement o) (pure []) (statementsWithin o n count) fun s =>
      followedBy s (statementsWithin o n (count + 1))

/-- A whole program, which starts at its first token. -/
def program (o : ParseSettings) : Parse Program := do
  let t ← current
  let statements ← fun s => statementsWithin o s.input.length 0 s
  pure ⟨statements, some t.location⟩

end Grammar

end WordLang
