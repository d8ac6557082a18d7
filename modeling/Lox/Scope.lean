import Lox.Bindings
import Lox.Error
import Lox.Tree

/-!
# Lexical scopes

Analysis walks a tree once, from left to right, with the stack of scopes that execution will
create: one for each block, function body, class with a superclass, and class.  A reference is
recorded with the number of scopes between it and the innermost one that has declared its name
by then.  References that find no scope are left to the global one, which is not on the stack.

Faults do not stop the walk; they are reported in the order of the walk.
-/

namespace Lox

/-- A scope knows its names, and of each whether its initializer is over. -/
abbrev Scope := Bindings Bool

/-- The class body around a piece of text. -/
inductive ClassSurroundings where
  | outside
  | plain
  | derived
deriving DecidableEq, Repr

/-- What surrounds a piece of text, as far as `return`, `this` and `super` depend on it. -/
structure Surroundings where
  inFunction : Bool
  inClass : ClassSurroundings

namespace Surroundings

def topLevel : Surroundings := ⟨false, .outside⟩

end Surroundings

/-- The state of a walk: scopes, innermost first, and what was recorded so far, in order. -/
structure Analysis where
  scopes : List Scope
  hops : Array (Nat × Nat)
  errors : Array Error

namespace Analysis

def start : Analysis := ⟨[], #[], #[]⟩

/-- Enter a name into the innermost scope, if there is one. -/
def enter (name : String) (ready : Bool) (a : Analysis) : Analysis :=
  match a.scopes with
  | [] => a
  | scope :: outer => { a with scopes := scope.insert name ready :: outer }

/-- A declared name is known but must not be read yet. -/
def declare (name : String) (a : Analysis) : Analysis := a.enter name false

/-- A defined name may be read. -/
def define (name : String) (a : Analysis) : Analysis := a.enter name true

/-- Declare a name that is usable at once. -/
def introduce (name : String) (a : Analysis) : Analysis := (a.declare name).define name

def push (a : Analysis) : Analysis := { a with scopes := [] :: a.scopes }

def pop (a : Analysis) : Analysis := { a with scopes := a.scopes.tail }

def report (token : Token) (fault : StaticFault) (a : Analysis) : Analysis :=
  { a with errors := a.errors.push (.staticAt token fault) }

/-- The number of scopes to leave before one is found that knows the name. -/
def hops? (name : String) (scopes : List Scope) : Option Nat :=
  scopes.findIdx? fun scope => scope.has name

/-- Record where the name that a reference stands for is found. -/
def locate (reference : Reference) (name : String) (a : Analysis) : Analysis :=
  match hops? name a.scopes with
  | none => a
  | some distance => { a with hops := a.hops.push (reference.id, distance) }

/-- Whether the innermost scope knows the name but its initializer is not over. -/
def isUnready (name : String) (a : Analysis) : Bool :=
  match a.scopes with
  | [] => false
  | scope :: _ => scope.find? name == some false

/-- A read of a name, which must not happen in the name's own initializer. -/
def read (reference : Reference) (a : Analysis) : Analysis :=
  if a.isUnready reference.name.lexeme then a.report reference.name .ownInitializer
  else a.locate reference reference.name.lexeme

def readThis (s : Surroundings) (keyword : Reference) (a : Analysis) : Analysis :=
  match s.inClass with
  | .outside => a.report keyword.name .thisOutsideClass
  | _ => a.locate keyword "this"

def readSuper (s : Surroundings) (keyword : Reference) (a : Analysis) : Analysis :=
  match s.inClass with
  | .outside => a.report keyword.name .superOutsideClass
  | .plain => a.report keyword.name .superWithoutSuperclass
  | .derived => a.locate keyword "super"

/-- Introduce parameters from left to right; a name among those `seen` before is a fault. -/
def parameters (seen : List String) : List Token → Analysis → Analysis
  | [], a => a
  | param :: params, a =>
    let checked :=
      if param.lexeme ∈ seen then a.report param (.duplicateParameter param.lexeme) else a
    parameters (param.lexeme :: seen) params (checked.introduce param.lexeme)

/-- A superclass is read like a variable, and opens the scope that holds `super`. -/
def superclass (name : Token) (reference : Reference) (a : Analysis) : Analysis :=
  let checked :=
    if reference.name.lexeme = name.lexeme then a.report reference.name .inheritsFromItself else a
  ((checked.read reference).push).define "super"

end Analysis

mutual
/-- Walk an expression.  What an assignment or a set stores is walked before its target. -/
def Expr.analyze (s : Surroundings) : Expr → Analysis → Analysis
  | .assign target value, a => (value.analyze s a).locate target target.name.lexeme
  | .binary left _ right, a => right.analyze s (left.analyze s a)
  | .call callee _ args, a => analyzeAll s args (callee.analyze s a)
  | .get object _, a => object.analyze s a
  | .grouping inner, a => inner.analyze s a
  | .literal _, a => a
  | .logical left _ right, a => right.analyze s (left.analyze s a)
  | .set object _ value, a => object.analyze s (value.analyze s a)
  | .super keyword _, a => a.readSuper s keyword
  | .this keyword, a => a.readThis s keyword
  | .unary _ operand, a => operand.analyze s a
  | .var name, a => a.read name

def analyzeAll (s : Surroundings) : List Expr → Analysis → Analysis
  | [], a => a
  | expr :: exprs, a => analyzeAll s exprs (expr.analyze s a)
end

/-- Walk an expression that may be missing. -/
def analyzeOptional (s : Surroundings) : Option Expr → Analysis → Analysis
  | none, a => a
  | some expr, a => expr.analyze s a

/-- A `return` belongs into a function. -/
def Analysis.returned (s : Surroundings) (keyword : Token) (a : Analysis) : Analysis :=
  if s.inFunction then a else a.report keyword .topLevelReturn

mutual
/-- Walk a statement.  The scopes it opens are closed again when the walk leaves it. -/
def Stmt.analyze (s : Surroundings) : Stmt → Analysis → Analysis
  | .block body, a => (analyzeBody s body a.push).pop
  | .classDecl name none methods, a =>
    let declared := a.introduce name.lexeme
    (analyzeMethods methods .plain (declared.push.define "this")).pop
  | .classDecl name (some reference) methods, a =>
    let declared := (a.introduce name.lexeme).superclass name reference
    (analyzeMethods methods .derived (declared.push.define "this")).pop.pop
  | .expression expr, a => expr.analyze s a
  | .funDecl decl, a => decl.analyze s.inClass (a.introduce decl.name.lexeme)
  | .ifElse condition thenBranch none, a => thenBranch.analyze s (condition.analyze s a)
  | .ifElse condition thenBranch (some elseBranch), a =>
    elseBranch.analyze s (thenBranch.analyze s (condition.analyze s a))
  | .inclusion _, a => a
  | .print value, a => value.analyze s a
  | .ret keyword value, a => analyzeOptional s value (a.returned s keyword)
  | .varDecl name init, a =>
    (analyzeOptional s init (a.declare name.lexeme)).define name.lexeme
  | .whileLoop condition body, a => body.analyze s (condition.analyze s a)

/-- Walk a function: its parameters and its body share one scope. -/
def FunDecl.analyze (inClass : ClassSurroundings) : FunDecl → Analysis → Analysis
  | ⟨_, params, body⟩, a => (analyzeBody ⟨true, inClass⟩ body (a.push.parameters [] params)).pop

def analyzeBody (s : Surroundings) : List Stmt → Analysis → Analysis
  | [], a => a
  | stmt :: stmts, a => analyzeBody s stmts (stmt.analyze s a)

def analyzeMethods : List FunDecl → ClassSurroundings → Analysis → Analysis
  | [], _, a => a
  | method :: methods, inClass, a => analyzeMethods methods inClass (method.analyze inClass a)
end

/-- Analyze a whole program. -/
def analyze (stmts : List Stmt) : Analysis :=
  analyzeBody .topLevel stmts .start

end Lox
