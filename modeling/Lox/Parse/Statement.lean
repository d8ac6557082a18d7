import Lox.Parse.Expression

/-!
# Statements and declarations

A declaration that fails is dropped: its fault is recorded, tokens are skipped up to the next
place where a statement can start, and reading goes on there.  So one text can show several
independent faults.

As with expressions, `bound` is a number that the tokens left do not exceed.
-/

namespace Lox.Parse

/-- The two kinds of function declarations, by which their faults are worded. -/
inductive FunKind where
  | function | method

def FunKind.nameExpected : FunKind → Expected
  | function => .functionName
  | method => .methodName

def FunKind.paramsExpected : FunKind → Expected
  | function => .functionParams
  | method => .methodParams

def FunKind.bodyExpected : FunKind → Expected
  | function => .functionBody
  | method => .methodBody

/-- The words that start a statement, at which recovery stops. -/
def startsStatement : Kind → Bool
  | .classWord | .funWord | .varWord | .forWord | .ifWord | .includeWord | .whileWord
  | .printWord | .returnWord => true
  | _ => false

namespace State

/-- Skip tokens up to a place where a statement can start, but no more than `bound` of them. -/
def skip : Nat → State → State
  | 0, s => s
  | bound + 1, s =>
    if s.peek.kind = .eof then s
    else if s.peek.kind = .semicolon ∨ startsStatement s.advance.peek.kind then s.advance
    else skip bound s.advance

/--
Skip from a fault to the next place where a statement can start: past a semicolon, or before a
word that starts one.  At least one token goes, if there is one.
-/
def skipToStatement (s : State) : State := s.skip s.tokens.length

end State

/-- Record a failure and skip to the next statement. -/
def recovering (statement : Parser Stmt) : Parser (Option Stmt) := fun s =>
  match statement s with
  | .ok stmt after => .ok (some stmt) after
  | .error error after => .ok none (after.record error).skipToStatement

def closesBlock (kind : Kind) : Bool :=
  kind == .rightBrace || kind == .eof

/-- The rest of a block after its opening brace. -/
def blockBody (declaration : Parser (Option Stmt)) (bound : Nat) : Parser (List Stmt) := do
  let body ← manyUntil closesBlock declaration bound
  let _ ← expect .rightBrace .blockEnd
  pure body

/-- One parameter; those beyond the limit are recorded as faults and read on. -/
def parameter (count : Nat) : Parser Token := do
  if maxArguments ≤ count then
    recordAt (← peek) .tooManyParameters
  let name ← expect .identifier .parameterName
  pure name.name

/-- A function or method from its name on. -/
def function (kind : FunKind) (declaration : Parser (Option Stmt)) (bound : Nat) :
    Parser FunDecl := do
  let name ← expect .identifier kind.nameExpected
  let _ ← expect .leftParen kind.paramsExpected
  let params ← commaSeparated parameter bound
  let _ ← expect .rightParen .paramsEnd
  let _ ← expect .leftBrace kind.bodyExpected
  let body ← blockBody declaration bound
  pure ⟨name.name, params, body⟩

/-- A class from its name on. -/
def classDeclaration (declaration : Parser (Option Stmt)) (bound : Nat) : Parser Stmt := do
  let name ← expect .identifier .className
  let superclass ←
    match ← accept? [.less] with
    | some _ => some <$> expect .identifier .superclassName
    | none => pure none
  let _ ← expect .leftBrace .classBodyStart
  let methods ← manyUntil closesBlock (some <$> function .method declaration bound) bound
  let _ ← expect .rightBrace .classBodyEnd
  pure (.classDecl name.name superclass methods)

/-- A variable declaration from its name on. -/
def varDeclaration (bound : Nat) : Parser Stmt := do
  let name ← expect .identifier .variableName
  let init ←
    match ← accept? [.equal] with
    | some _ => some <$> expression bound
    | none => pure none
  let _ ← expect .semicolon .variableEnd
  pure (.varDecl name.name init)

def expressionStatement (bound : Nat) : Parser Stmt := do
  let expr ← expression bound
  let _ ← expect .semicolon .expressionEnd
  pure (.expression expr)

/--
A statement that starts with `print` and a parenthesis, from the parenthesis on.  Before a
semicolon it is a call of the native function.  Otherwise a single argument turns out to be a
grouping, with which the printed expression starts, and anything else is a call that goes on.
-/
def printCall (keyword : Reference) (bound : Nat) : Parser Stmt := do
  let _ ← accept? [.leftParen]
  let args ← commaSeparated (argument (expression bound)) bound
  let paren ← expect .rightParen .argumentsEnd
  match ← accept? [.semicolon] with
  | some _ => pure (.expression (.call (.var keyword) paren.name args))
  | none =>
    match args with
    | [arg] =>
      let value ← expressionFrom bound (.grouping arg)
      let _ ← expect .semicolon .valueEnd
      pure (.print value)
    | args =>
      let expr ← callChain (expression bound) bound (.call (.var keyword) paren.name args)
      let _ ← expect .semicolon .expressionEnd
      pure (.expression expr)

/-- A statement that starts with `print`, from the token after it on. -/
def printStatement (keyword : Reference) (bound : Nat) : Parser Stmt := do
  if ← check .leftParen then printCall keyword bound
  else
    let value ← expression bound
    let _ ← expect .semicolon .valueEnd
    pure (.print value)

def returnStatement (keyword : Token) (bound : Nat) : Parser Stmt := do
  let value ←
    if ← check .semicolon then pure none
    else some <$> expression bound
  let _ ← expect .semicolon .returnEnd
  pure (.ret keyword value)

/-- An inclusion without a path fails at its keyword. -/
def includeStatement (keyword : Token) : Parser Stmt := do
  match ← accept? [.string] with
  | none => failAt keyword (.expected .includePath)
  | some path =>
    let _ ← expect .semicolon .includeEnd
    pure (.inclusion path.name)

def ifStatement (statement : Parser Stmt) (bound : Nat) : Parser Stmt := do
  let _ ← expect .leftParen .ifStart
  let condition ← expression bound
  let _ ← expect .rightParen .ifEnd
  let thenBranch ← statement
  let elseBranch ←
    match ← accept? [.elseWord] with
    | some _ => some <$> statement
    | none => pure none
  pure (.ifElse condition thenBranch elseBranch)

def whileStatement (statement : Parser Stmt) (bound : Nat) : Parser Stmt := do
  let _ ← expect .leftParen .whileStart
  let condition ← expression bound
  let _ ← expect .rightParen .whileEnd
  let body ← statement
  pure (.whileLoop condition body)

/-- The first clause of a `for`, with the semicolon that ends it. -/
def forInitializer (bound : Nat) : Parser (Option Stmt) := do
  if let some _ ← accept? [.semicolon] then
    return none
  if let some _ ← accept? [.varWord] then
    return some (← varDeclaration bound)
  return some (← expressionStatement bound)

/-- An expression that may be left out before a token of the given kind. -/
def optionalExpression (stop : Kind) (bound : Nat) : Parser (Option Expr) := do
  if ← check stop then pure none
  else some <$> expression bound

/-- The loop that a `for` stands for: its clauses become statements around a `while`. -/
def forLoop (init : Option Stmt) (condition increment : Option Expr) (body : Stmt) : Stmt :=
  let iteration :=
    match increment with
    | none => body
    | some increment => .block [body, .expression increment]
  let loop := Stmt.whileLoop (condition.getD (.literal (.bool true))) iteration
  match init with
  | none => loop
  | some init => .block [init, loop]

def forStatement (statement : Parser Stmt) (bound : Nat) : Parser Stmt := do
  let _ ← expect .leftParen .forStart
  let init ← forInitializer bound
  let condition ← optionalExpression .semicolon bound
  let _ ← expect .semicolon .forConditionEnd
  let increment ← optionalExpression .rightParen bound
  let _ ← expect .rightParen .forEnd
  let body ← statement
  pure (forLoop init condition increment body)

/-- The forms of a statement, given parsers for the statements and declarations inside. -/
def statementForms (statement : Parser Stmt) (declaration : Parser (Option Stmt)) (bound : Nat) :
    Parser Stmt := do
  if let some _ ← accept? [.forWord] then
    return ← forStatement statement bound
  if let some _ ← accept? [.ifWord] then
    return ← ifStatement statement bound
  if let some keyword ← accept? [.includeWord] then
    return ← includeStatement keyword.name
  if let some keyword ← accept? [.printWord] then
    return ← printStatement keyword bound
  if let some keyword ← accept? [.returnWord] then
    return ← returnStatement keyword.name bound
  if let some _ ← accept? [.whileWord] then
    return ← whileStatement statement bound
  if let some _ ← accept? [.leftBrace] then
    return .block (← blockBody declaration bound)
  expressionStatement bound

/-- The forms of a declaration, which are those of a statement and three more. -/
def declarationForms (statement : Parser Stmt) (declaration : Parser (Option Stmt)) (bound : Nat) :
    Parser Stmt := do
  if let some _ ← accept? [.classWord] then
    return ← classDeclaration declaration bound
  if let some _ ← accept? [.funWord] then
    return .funDecl (← function .function declaration bound)
  if let some _ ← accept? [.varWord] then
    return ← varDeclaration bound
  statement

mutual
/-- A statement of at most `bound` tokens. -/
def statement : Nat → Parser Stmt
  | 0 => expressionStatement 0
  | bound + 1 => statementForms (statement bound) (declaration bound) (bound + 1)

/-- A declaration of at most `bound` tokens, or nothing if it is faulty. -/
def declaration : Nat → Parser (Option Stmt)
  | 0 => recovering (expressionStatement 0)
  | bound + 1 =>
    recovering
      (declarationForms (statementForms (statement bound) (declaration bound) (bound + 1))
        (declaration bound) (bound + 1))
end

/-- What a whole token sequence reads as: the sound statements, and the faults of the others. -/
structure Parsed where
  stmts : List Stmt
  errors : List Error

/-- Read a whole token sequence, with its tokens numbered from `first`. -/
def program (first : Nat) (tokens : List Token) : Parsed :=
  let bound := tokens.length
  match manyUntil (· == .eof) (declaration bound) bound (State.start first tokens) with
  | .ok stmts s => ⟨stmts, s.errors.toList⟩
  | .error error s => ⟨[], s.errors.toList ++ [error]⟩

/--
Read one expression from the front of a token sequence.  A recorded fault is a failure too, but
one that stopped the reading comes first.
-/
def expression? (first : Nat) (tokens : List Token) : Except Error Expr :=
  match expression tokens.length (State.start first tokens) with
  | .error error _ => .error error
  | .ok expr s =>
    match s.errors[0]? with
    | some error => .error error
    | none => .ok expr

end Lox.Parse
