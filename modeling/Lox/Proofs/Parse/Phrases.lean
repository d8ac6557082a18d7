import Lox.Proofs.Scope.Walk
import Lox.Proofs.Token.Words

/-!
# The tokens of a tree

A tree holds some of the tokens that it was read from.  They can be replaced without changing
the shape of the tree; and what happens in the walk of a tree, apart from the spots where it
happens, can be told without walking.
-/

namespace Lox

/-- What happens at a point of a walk is proper to a tree that was read from tokens. -/
def Act.Proper : Act → Prop
  | .read reference => reference.name.IsOf [.identifier, .printWord]
  | .assign target => target.name.IsOf [.identifier, .printWord]
  | .this keyword => keyword.name.IsOf [.thisWord]
  | .super keyword => keyword.name.IsOf [.superWord]
  | .inherit name superclass =>
      name.IsOf [.identifier] ∧ superclass.name.IsOf [.identifier]
  | .declare name => name.IsOf [.identifier]
  | .define name => name.IsOf [.identifier]
  | .parameter _ param => param.IsOf [.identifier]
  | .ret _ => True
  /- Declarations only stand in bodies and at top level. -/
  | .branch stmt => stmt.declares = []

/-- The number of the reference that is looked up. -/
def Act.id? (act : Act) : Option Nat := act.sought?.map fun sought => sought.1.id

def Reference.mapTokens (f : Token → Token) (reference : Reference) : Reference :=
  { reference with name := f reference.name }

/-! ## Expressions -/

mutual
/-- The expression with each of its tokens replaced. -/
def Expr.mapTokens (f : Token → Token) : Expr → Expr
  | .assign target value => .assign (target.mapTokens f) (value.mapTokens f)
  | .binary left operator right => .binary (left.mapTokens f) (f operator) (right.mapTokens f)
  | .call callee paren args => .call (callee.mapTokens f) (f paren) (mapTokensAll f args)
  | .get object name => .get (object.mapTokens f) (f name)
  | .grouping inner => .grouping (inner.mapTokens f)
  | .literal value => .literal value
  | .logical left operator right => .logical (left.mapTokens f) (f operator) (right.mapTokens f)
  | .set object name value => .set (object.mapTokens f) (f name) (value.mapTokens f)
  | .super keyword method => .super (keyword.mapTokens f) (f method)
  | .this keyword => .this (keyword.mapTokens f)
  | .unary operator operand => .unary (f operator) (operand.mapTokens f)
  | .var name => .var (name.mapTokens f)

def mapTokensAll (f : Token → Token) : List Expr → List Expr
  | [] => []
  | expr :: exprs => expr.mapTokens f :: mapTokensAll f exprs
end

mutual
def Expr.tokens : Expr → List Token
  | .assign target value => target.name :: value.tokens
  | .binary left operator right => left.tokens ++ operator :: right.tokens
  | .call callee paren args => callee.tokens ++ (tokensAll args ++ [paren])
  | .get object name => object.tokens ++ [name]
  | .grouping inner => inner.tokens
  | .literal _ => []
  | .logical left operator right => left.tokens ++ operator :: right.tokens
  | .set object name value => object.tokens ++ name :: value.tokens
  | .super keyword method => [keyword.name, method]
  | .this keyword => [keyword.name]
  | .unary operator operand => operator :: operand.tokens
  | .var name => [name.name]

def tokensAll : List Expr → List Token
  | [] => []
  | expr :: exprs => expr.tokens ++ tokensAll exprs
end

mutual
/-- What happens in the walk of an expression. -/
def Expr.acts : Expr → List Act
  | .assign target value => value.acts ++ [.assign target]
  | .binary left _ right => left.acts ++ right.acts
  | .call callee _ args => callee.acts ++ actsAll args
  | .get object _ => object.acts
  | .grouping inner => inner.acts
  | .literal _ => []
  | .logical left _ right => left.acts ++ right.acts
  | .set object _ value => value.acts ++ object.acts
  | .super keyword _ => [.super keyword]
  | .this keyword => [.this keyword]
  | .unary _ operand => operand.acts
  | .var name => [.read name]

def actsAll : List Expr → List Act
  | [] => []
  | expr :: exprs => expr.acts ++ actsAll exprs
end

def mapTokensOptional (f : Token → Token) : Option Expr → Option Expr
  | none => none
  | some expr => some (expr.mapTokens f)

def tokensOptional : Option Expr → List Token
  | none => []
  | some expr => expr.tokens

def actsOptional : Option Expr → List Act
  | none => []
  | some expr => expr.acts

/-! ## Statements -/

mutual
/-- The statement with each of its tokens replaced. -/
def Stmt.mapTokens (f : Token → Token) : Stmt → Stmt
  | .block body => .block (mapTokensBody f body)
  | .classDecl name none methods => .classDecl (f name) none (mapTokensMethods f methods)
  | .classDecl name (some reference) methods =>
      .classDecl (f name) (some (reference.mapTokens f)) (mapTokensMethods f methods)
  | .expression expr => .expression (expr.mapTokens f)
  | .funDecl decl => .funDecl (decl.mapTokens f)
  | .ifElse condition thenBranch none =>
      .ifElse (condition.mapTokens f) (thenBranch.mapTokens f) none
  | .ifElse condition thenBranch (some elseBranch) =>
      .ifElse (condition.mapTokens f) (thenBranch.mapTokens f) (some (elseBranch.mapTokens f))
  | .inclusion path => .inclusion (f path)
  | .print value => .print (value.mapTokens f)
  | .ret keyword value => .ret (f keyword) (mapTokensOptional f value)
  | .varDecl name init => .varDecl (f name) (mapTokensOptional f init)
  | .whileLoop condition body => .whileLoop (condition.mapTokens f) (body.mapTokens f)

def FunDecl.mapTokens (f : Token → Token) : FunDecl → FunDecl
  | ⟨name, params, body⟩ => ⟨f name, params.map f, mapTokensBody f body⟩

def mapTokensBody (f : Token → Token) : List Stmt → List Stmt
  | [] => []
  | stmt :: stmts => stmt.mapTokens f :: mapTokensBody f stmts

def mapTokensMethods (f : Token → Token) : List FunDecl → List FunDecl
  | [] => []
  | method :: methods => method.mapTokens f :: mapTokensMethods f methods
end

mutual
def Stmt.tokens : Stmt → List Token
  | .block body => tokensBody body
  | .classDecl name none methods => name :: tokensMethods methods
  | .classDecl name (some reference) methods => name :: reference.name :: tokensMethods methods
  | .expression expr => expr.tokens
  | .funDecl decl => decl.tokens
  | .ifElse condition thenBranch none => condition.tokens ++ thenBranch.tokens
  | .ifElse condition thenBranch (some elseBranch) =>
      condition.tokens ++ (thenBranch.tokens ++ elseBranch.tokens)
  | .inclusion path => [path]
  | .print value => value.tokens
  | .ret keyword value => keyword :: tokensOptional value
  | .varDecl name init => name :: tokensOptional init
  | .whileLoop condition body => condition.tokens ++ body.tokens

def FunDecl.tokens : FunDecl → List Token
  | ⟨name, params, body⟩ => name :: (params ++ tokensBody body)

def tokensBody : List Stmt → List Token
  | [] => []
  | stmt :: stmts => stmt.tokens ++ tokensBody stmts

def tokensMethods : List FunDecl → List Token
  | [] => []
  | method :: methods => method.tokens ++ tokensMethods methods
end

/-- The declarations of parameters, after those `seen`. -/
def actsParameters (seen : List String) : List Token → List Act
  | [] => []
  | param :: params => .parameter seen param :: actsParameters (param.lexeme :: seen) params

mutual
/-- What happens in the walk of a statement. -/
def Stmt.acts : Stmt → List Act
  | .block body => actsBody body
  | .classDecl name none methods => .define name :: actsMethods methods
  | .classDecl name (some reference) methods =>
      .define name :: .inherit name reference :: .read reference :: actsMethods methods
  | .expression expr => expr.acts
  | .funDecl decl => .define decl.name :: decl.acts
  | .ifElse condition thenBranch none =>
      condition.acts ++ .branch thenBranch :: thenBranch.acts
  | .ifElse condition thenBranch (some elseBranch) =>
      condition.acts ++
        (.branch thenBranch :: thenBranch.acts ++ .branch elseBranch :: elseBranch.acts)
  | .inclusion _ => []
  | .print value => value.acts
  | .ret keyword value => .ret keyword :: actsOptional value
  | .varDecl name init => .declare name :: actsOptional init
  | .whileLoop condition body => condition.acts ++ .branch body :: body.acts

def FunDecl.acts : FunDecl → List Act
  | ⟨_, params, body⟩ => actsParameters [] params ++ actsBody body

def actsBody : List Stmt → List Act
  | [] => []
  | stmt :: stmts => stmt.acts ++ actsBody stmts

def actsMethods : List FunDecl → List Act
  | [] => []
  | method :: methods => method.acts ++ actsMethods methods
end

/-! ## What happens does not depend on where a phrase stands -/

mutual
theorem Expr.map_act_walk (p : Spot) (expr : Expr) :
    (expr.walk p).map Event.act = expr.acts := by
  cases expr with
  | assign target value => simp [Expr.walk, Expr.acts, value.map_act_walk p]
  | binary left operator right =>
      simp [Expr.walk, Expr.acts, left.map_act_walk p, right.map_act_walk p]
  | call callee paren args =>
      simp [Expr.walk, Expr.acts, callee.map_act_walk p, map_act_walkAll p args]
  | get object name => simp [Expr.walk, Expr.acts, object.map_act_walk p]
  | grouping inner => simp [Expr.walk, Expr.acts, inner.map_act_walk p]
  | literal value => rfl
  | logical left operator right =>
      simp [Expr.walk, Expr.acts, left.map_act_walk p, right.map_act_walk p]
  | set object name value =>
      simp [Expr.walk, Expr.acts, value.map_act_walk p, object.map_act_walk p]
  | super keyword method => rfl
  | this keyword => rfl
  | unary operator operand => simp [Expr.walk, Expr.acts, operand.map_act_walk p]
  | var name => rfl

theorem map_act_walkAll (p : Spot) (exprs : List Expr) :
    (walkAll p exprs).map Event.act = actsAll exprs := by
  cases exprs with
  | nil => rfl
  | cons expr exprs =>
      simp [walkAll, actsAll, expr.map_act_walk p, map_act_walkAll p exprs]
end

theorem map_act_walkOptional (p : Spot) (expr : Option Expr) :
    (walkOptional p expr).map Event.act = actsOptional expr := by
  cases expr with
  | none => rfl
  | some expr => exact expr.map_act_walk p

theorem map_act_walkParameters (seen : List String) (p : Spot) (params : List Token) :
    (walkParameters seen p params).map Event.act = actsParameters seen params := by
  induction params generalizing seen p with
  | nil => rfl
  | cons param params ih => simp [walkParameters, actsParameters, ih]

mutual
theorem Stmt.map_act_walk (path : List Nat) (p : Spot) (stmt : Stmt) :
    (stmt.walk path p).map Event.act = stmt.acts := by
  cases stmt with
  | block body => simp [Stmt.walk, Stmt.acts, map_act_walkBody]
  | classDecl name superclass methods =>
      cases superclass with
      | none => simp [Stmt.walk, Stmt.acts, map_act_walkMethods]
      | some reference => simp [Stmt.walk, Stmt.acts, map_act_walkMethods]
  | expression expr => simp [Stmt.walk, Stmt.acts, expr.map_act_walk p]
  | funDecl decl => simp [Stmt.walk, Stmt.acts, decl.map_act_walk]
  | ifElse condition thenBranch elseBranch =>
      cases elseBranch with
      | none =>
          simp [Stmt.walk, Stmt.acts, condition.map_act_walk p, thenBranch.map_act_walk]
      | some elseBranch =>
          simp [Stmt.walk, Stmt.acts, condition.map_act_walk p, thenBranch.map_act_walk,
            elseBranch.map_act_walk]
  | inclusion pathToken => rfl
  | print value => simp [Stmt.walk, Stmt.acts, value.map_act_walk p]
  | ret keyword value => simp [Stmt.walk, Stmt.acts, map_act_walkOptional]
  | varDecl name init => simp [Stmt.walk, Stmt.acts, map_act_walkOptional]
  | whileLoop condition body =>
      simp [Stmt.walk, Stmt.acts, condition.map_act_walk p, body.map_act_walk]

theorem FunDecl.map_act_walk (path : List Nat) (p : Spot) (decl : FunDecl) :
    (decl.walk path p).map Event.act = decl.acts := by
  obtain ⟨name, params, body⟩ := decl
  simp [FunDecl.walk, FunDecl.acts, map_act_walkParameters, map_act_walkBody]

theorem map_act_walkBody (path : List Nat) (p : Spot) (index : Nat) (stmts : List Stmt) :
    (walkBody path p index stmts).map Event.act = actsBody stmts := by
  cases stmts with
  | nil => rfl
  | cons stmt stmts =>
      simp [walkBody, actsBody, stmt.map_act_walk, map_act_walkBody _ _ _ stmts]

theorem map_act_walkMethods (path : List Nat) (p : Spot) (index : Nat)
    (methods : List FunDecl) :
    (walkMethods path p index methods).map Event.act = actsMethods methods := by
  cases methods with
  | nil => rfl
  | cons method methods =>
      simp [walkMethods, actsMethods, method.map_act_walk, map_act_walkMethods _ _ _ methods]
end

end Lox
