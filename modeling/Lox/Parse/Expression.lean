import Lox.Parse.Basic

/-!
# Expressions

The binary operators form a table of levels, loosest first; each level is a chain over the next
one and associates to the left.  Above them stands assignment, which associates to the right,
and below them unary operators, calls and property accesses.

An operand that was read before stands in for the first primary of an expression.  It stands to the
left of whatever comes next, so what looks like a unary operator there is a binary one.

A parser for a nested expression is only called after a token was consumed.  So `bound`, a
number that the tokens left do not exceed, bounds the depth of nesting as well, and with no
token left the answer is that an expression is missing, unless an operand was read before.
-/

namespace Lox.Parse

/-- One level of binary operators: their kinds, and the node built from two operands. -/
structure Level where
  operators : List Kind
  node : Expr → Token → Expr → Expr

/-- The levels of binary operators, loosest first. -/
def levels : List Level := [
  ⟨[.orWord], .logical⟩,
  ⟨[.andWord], .logical⟩,
  ⟨[.bangEqual, .equalEqual], .binary⟩,
  ⟨[.greater, .greaterEqual, .less, .lessEqual], .binary⟩,
  ⟨[.minus, .plus], .binary⟩,
  ⟨[.star, .slash], .binary⟩]

/-- Extend a left operand as long as operators of the level follow. -/
def chain (level : Level) (operand : Parser Expr) : Nat → Expr → Parser Expr
  | 0, left => pure left
  | bound + 1, left => do
    match ← accept? level.operators with
    | none => pure left
    | some operator =>
      let right ← operand
      chain level operand bound (level.node left operator.name right)

/-- An expression of the given levels. -/
def climb (operand : Parser Expr) (bound : Nat) : List Level → Parser Expr
  | [] => operand
  | level :: tighter => do
    let left ← climb operand bound tighter
    chain level (climb operand bound tighter) bound left

/-- One argument of a call; those beyond the limit are recorded as faults and read on. -/
def argument (expr : Parser Expr) (count : Nat) : Parser Expr := do
  if maxArguments ≤ count then
    recordAt (← peek) .tooManyArguments
  expr

/-- The rest of a call after its opening parenthesis. -/
def finishCall (expr : Parser Expr) (bound : Nat) (callee : Expr) : Parser Expr := do
  let args ← commaSeparated (argument expr) bound
  let paren ← expect .rightParen .argumentsEnd
  pure (.call callee paren.name args)

/-- Calls and property accesses that follow an expression. -/
def callChain (expr : Parser Expr) : Nat → Expr → Parser Expr
  | 0, callee => pure callee
  | bound + 1, callee => do
    match ← accept? [.leftParen] with
    | some _ =>
      let call ← finishCall expr bound callee
      callChain expr bound call
    | none =>
      match ← accept? [.dot] with
      | some _ =>
        let name ← expect .identifier .propertyName
        callChain expr bound (.get callee name.name)
      | none => pure callee

/-- The kinds of the tokens that are literals by themselves. -/
def literalKinds : List Kind := [.falseWord, .trueWord, .nilWord, .number, .string]

/-- An expression without operators; `print` names the native function of that name. -/
def primaryForms (expr : Parser Expr) : Parser Expr := do
  if let some token ← accept? literalKinds then
    return .literal token.name.value
  if let some keyword ← accept? [.superWord] then
    let _ ← expect .dot .superDot
    let method ← expect .identifier .superMethod
    return .super keyword method.name
  if let some keyword ← accept? [.thisWord] then
    return .this keyword
  if let some name ← accept? [.identifier, .printWord] then
    return .var name
  if let some _ ← accept? [.leftParen] then
    let inner ← expr
    let _ ← expect .rightParen .groupingEnd
    return .grouping inner
  fail (.expected .expression)

/-- The operand that was read before, or else one that is read. -/
def primary (expr : Parser Expr) : Parser Expr := do
  match ← takeSeed with
  | some operand => pure operand
  | none => primaryForms expr

/-- A primary and the calls and property accesses behind it. -/
def call (expr : Parser Expr) (bound : Nat) : Parser Expr := do
  let callee ← primary expr
  callChain expr bound callee

/-- Without a token, an operand that was read before is all that there can be. -/
def seedAlone : Parser Expr := do
  match ← takeSeed with
  | some operand => pure operand
  | none => fail (.expected .expression)

/-- Unary operators before a call chain; an operand that was read before has none. -/
def unary (expr : Parser Expr) : Nat → Parser Expr
  | 0 => seedAlone
  | bound + 1 => do
    if ← isSeeded then call expr (bound + 1)
    else
      match ← accept? [.bang, .minus] with
      | some operator =>
        let operand ← unary expr bound
        pure (.unary operator.name operand)
      | none => call expr (bound + 1)

/-- The value that is assigned to an expression, if an equals sign follows it. -/
def assignmentTo (expr : Parser Expr) (target : Expr) : Parser Expr := do
  match ← accept? [.equal] with
  | none => pure target
  | some equals =>
    let value ← expr
    match target with
    | .var name => pure (.assign name value)
    | .get object name => pure (.set object name value)
    | other =>
      recordAt equals.name .invalidAssignmentTarget
      pure other

/-- An expression of the loosest level, or an assignment to one. -/
def assignment (expr : Parser Expr) (bound : Nat) : Parser Expr := do
  let target ← climb (unary expr bound) bound levels
  assignmentTo expr target

/-- An expression of at most `bound` tokens. -/
def expression : Nat → Parser Expr
  | 0 => seedAlone
  | bound + 1 => assignment (expression bound) (bound + 1)

/-- The rest of an expression whose leftmost operand was read before. -/
def expressionFrom (bound : Nat) (operand : Expr) : Parser Expr := do
  plant operand
  expression bound

end Lox.Parse
