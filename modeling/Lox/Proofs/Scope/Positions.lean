import Lox.Proofs.Scope.Walk
import Lox.Tree.References

/-!
# What names stand for

Which declaration a name stands for is told by where it stands: by the names that the scopes around
it have declared before it, by the variable in whose initializer it stands, and by the functions and
classes around it.  Analysis finds out for every node what its position tells, once for each node
and in the order in which the program is read.
-/

namespace Lox

/-! ## Positions -/

/-- Where a node stands in a program. -/
structure Position where
  /-- The names that were declared before it in the scopes around it, innermost first. -/
  declared : List (List String)
  /-- The variable in whose initializer it stands. -/
  initializes : Option String
  around : Surroundings

namespace Position

/-- At top level, where declarations are global and belong to no scope. -/
def root : Position := ⟨[], none, .topLevel⟩

/-- Inside of a scope that is opened here. -/
def opened (here : Position) : Position := { here with declared := [] :: here.declared }

/-- Behind declarations that stand here. -/
def declaring (names : List String) (here : Position) : Position :=
  { here with declared := here.declared.modifyHead (names ++ ·) }

/-- In the initializer of a variable that is declared here. -/
def initializing (name : String) (here : Position) : Position :=
  { here.declaring [name] with initializes := some name }

def inClass (kind : ClassSurroundings) (here : Position) : Position :=
  { here with around := { here.around with inClass := kind } }

/-- In the body of a function that is declared here. -/
def inFunction (params : List String) (here : Position) : Position :=
  { here.opened.declaring params with around := { here.around with inFunction := true } }

/-- How many scopes there are inside of the nearest one that has declared the name. -/
def distance? (name : String) (here : Position) : Option Nat :=
  here.declared.findIdx? fun names => decide (name ∈ names)

end Position

/-! ## Visits -/

/-- What is looked at when a program is read. -/
inductive Node where
  | use (use : Use)
  | ret (keyword : Token)
  /-- A class names its superclass. -/
  | inherit (name superclass : Token)
  /-- A parameter, after those with the given names. -/
  | parameter (before : List String) (param : Token)

/-- The name that a reference is looked up by. -/
def Use.name (use : Use) : String :=
  match use.kind with
  | .receiver => "this"
  | .superclass => "super"
  | _ => use.reference.name.lexeme

structure Visit where
  position : Position
  node : Node

namespace Visit

/-- What is wrong with a node in its position. -/
def fault? (visit : Visit) : Option Error :=
  match visit.node with
  | .use ⟨.read, reference⟩ =>
      if visit.position.declared ≠ [] ∧ visit.position.initializes = some reference.name.lexeme then
        some (.staticAt reference.name .ownInitializer)
      else none
  | .use ⟨.assigned, _⟩ => none
  | .use ⟨.receiver, keyword⟩ =>
      match visit.position.around.inClass with
      | .outside => some (.staticAt keyword.name .thisOutsideClass)
      | _ => none
  | .use ⟨.superclass, keyword⟩ =>
      match visit.position.around.inClass with
      | .outside => some (.staticAt keyword.name .superOutsideClass)
      | .plain => some (.staticAt keyword.name .superWithoutSuperclass)
      | .derived => none
  | .ret keyword =>
      if visit.position.around.inFunction then none else some (.staticAt keyword .topLevelReturn)
  | .inherit name superclass =>
      if superclass.lexeme = name.lexeme then some (.staticAt superclass .inheritsFromItself)
      else none
  | .parameter before param =>
      if param.lexeme ∈ before then some (.staticAt param (.duplicateParameter param.lexeme))
      else none

def use? (visit : Visit) : Option Use :=
  match visit.node with
  | .use use => some use
  | _ => none

/-- The distance of a reference that is sound and whose name some scope around it has declared. -/
def entry? (visit : Visit) : Option (Nat × Nat) :=
  if visit.fault?.isSome then none
  else
    visit.use?.bind fun use =>
      (visit.position.distance? use.name).map fun distance => (use.reference.id, distance)

end Visit

mutual
def Expr.visits (here : Position) : Expr → List Visit
  | .assign target value => value.visits here ++ [⟨here, .use ⟨.assigned, target⟩⟩]
  | .binary left _ right => left.visits here ++ right.visits here
  | .call callee _ args => callee.visits here ++ visitsAll here args
  | .get object _ => object.visits here
  | .grouping inner => inner.visits here
  | .literal _ => []
  | .logical left _ right => left.visits here ++ right.visits here
  | .set object _ value => value.visits here ++ object.visits here
  | .super keyword _ => [⟨here, .use ⟨.superclass, keyword⟩⟩]
  | .this keyword => [⟨here, .use ⟨.receiver, keyword⟩⟩]
  | .unary _ operand => operand.visits here
  | .var name => [⟨here, .use ⟨.read, name⟩⟩]

def visitsAll (here : Position) : List Expr → List Visit
  | [] => []
  | expr :: exprs => expr.visits here ++ visitsAll here exprs
end

def visitsOptional (here : Position) : Option Expr → List Visit
  | none => []
  | some expr => expr.visits here

def visitsParameters (here : Position) (before : List String) : List Token → List Visit
  | [] => []
  | param :: params =>
      ⟨here, .parameter before param⟩ :: visitsParameters here (param.lexeme :: before) params

mutual
def Stmt.visits (here : Position) : Stmt → List Visit
  | .block body => visitsBody here.opened body
  | .classDecl name none methods =>
      visitsMethods ((here.declaring [name.lexeme]).inClass .plain) methods
  | .classDecl name (some reference) methods =>
      ⟨here.declaring [name.lexeme], .inherit name reference.name⟩ ::
        ⟨here.declaring [name.lexeme], .use ⟨.read, reference⟩⟩ ::
        visitsMethods
          (((here.declaring [name.lexeme]).opened.declaring ["super"]).inClass .derived) methods
  | .expression expr => expr.visits here
  | .funDecl decl => decl.visits (here.declaring [decl.name.lexeme])
  | .ifElse condition thenBranch none => condition.visits here ++ thenBranch.visits here
  | .ifElse condition thenBranch (some elseBranch) =>
      condition.visits here ++ (thenBranch.visits here ++
        elseBranch.visits (here.declaring thenBranch.declares))
  | .inclusion _ => []
  | .print value => value.visits here
  | .ret keyword value => ⟨here, .ret keyword⟩ :: visitsOptional here value
  | .varDecl name init => visitsOptional (here.initializing name.lexeme) init
  | .whileLoop condition body => condition.visits here ++ body.visits here

def FunDecl.visits (here : Position) : FunDecl → List Visit
  | ⟨_, params, body⟩ =>
      visitsParameters here [] params ++
        visitsBody (here.inFunction (params.map Token.lexeme)) body

def visitsBody (here : Position) : List Stmt → List Visit
  | [] => []
  | stmt :: stmts => stmt.visits here ++ visitsBody (here.declaring stmt.declares) stmts

/-- The methods of a class, each in a scope that holds `this`. -/
def visitsMethods (here : Position) : List FunDecl → List Visit
  | [] => []
  | method :: methods =>
      method.visits (here.opened.declaring ["this"]) ++ visitsMethods here methods
end

/-- All nodes of a program, each in its position, in the order in which they are read. -/
def visitsProgram (stmts : List Stmt) : List Visit := visitsBody .root stmts

/-! ## Every reference is visited once -/

mutual
theorem Expr.uses_visits (here : Position) (expr : Expr) :
    ((expr.visits here).filterMap Visit.use?).Perm expr.uses := by
  cases expr with
  | assign target value =>
      rw [Expr.visits, Expr.uses, List.filterMap_append]
      exact (List.perm_append_comm).trans ((value.uses_visits here).cons _)
  | binary left operator right =>
      rw [Expr.visits, Expr.uses, List.filterMap_append]
      exact (left.uses_visits here).append (right.uses_visits here)
  | call callee paren args =>
      rw [Expr.visits, Expr.uses, List.filterMap_append]
      exact (callee.uses_visits here).append (uses_visitsAll here args)
  | get object name => exact object.uses_visits here
  | grouping inner => exact inner.uses_visits here
  | literal value => exact .refl _
  | logical left operator right =>
      rw [Expr.visits, Expr.uses, List.filterMap_append]
      exact (left.uses_visits here).append (right.uses_visits here)
  | set object name value =>
      rw [Expr.visits, Expr.uses, List.filterMap_append]
      exact (List.perm_append_comm).trans
        ((object.uses_visits here).append (value.uses_visits here))
  | super keyword method => exact .refl _
  | this keyword => exact .refl _
  | unary operator operand => exact operand.uses_visits here
  | var name => exact .refl _

theorem uses_visitsAll (here : Position) (exprs : List Expr) :
    ((visitsAll here exprs).filterMap Visit.use?).Perm (usesAll exprs) := by
  cases exprs with
  | nil => exact .refl _
  | cons expr exprs =>
      rw [visitsAll, usesAll, List.filterMap_append]
      exact (expr.uses_visits here).append (uses_visitsAll here exprs)
end

theorem uses_visitsOptional (here : Position) (expr : Option Expr) :
    ((visitsOptional here expr).filterMap Visit.use?).Perm (optionalUses expr) := by
  cases expr with
  | none => exact .refl _
  | some expr => exact expr.uses_visits here

theorem uses_visitsParameters (here : Position) (before : List String) (params : List Token) :
    (visitsParameters here before params).filterMap Visit.use? = [] := by
  induction params generalizing before with
  | nil => rfl
  | cons param params ih =>
      rw [visitsParameters, List.filterMap_cons_none rfl]
      exact ih _

mutual
theorem Stmt.uses_visits (here : Position) (stmt : Stmt) :
    ((stmt.visits here).filterMap Visit.use?).Perm stmt.uses := by
  cases stmt with
  | block body => exact uses_visitsBody _ body
  | classDecl name superclass methods =>
      cases superclass with
      | none => exact uses_visitsMethods _ methods
      | some reference =>
          rw [Stmt.visits, List.filterMap_cons_none rfl]
          exact (uses_visitsMethods _ methods).cons _
  | expression expr => exact expr.uses_visits here
  | funDecl decl => exact decl.uses_visits _
  | ifElse condition thenBranch elseBranch =>
      cases elseBranch with
      | none =>
          rw [Stmt.visits, Stmt.uses, List.filterMap_append]
          exact (condition.uses_visits here).append (thenBranch.uses_visits here)
      | some elseBranch =>
          rw [Stmt.visits, Stmt.uses, List.filterMap_append, List.filterMap_append,
            List.append_assoc]
          exact (condition.uses_visits here).append
            ((thenBranch.uses_visits here).append (elseBranch.uses_visits _))
  | inclusion path => exact .refl _
  | print value => exact value.uses_visits here
  | ret keyword value =>
      rw [Stmt.visits, List.filterMap_cons_none rfl]
      exact uses_visitsOptional here value
  | varDecl name init => exact uses_visitsOptional _ init
  | whileLoop condition body =>
      rw [Stmt.visits, Stmt.uses, List.filterMap_append]
      exact (condition.uses_visits here).append (body.uses_visits here)

theorem FunDecl.uses_visits (here : Position) (decl : FunDecl) :
    ((decl.visits here).filterMap Visit.use?).Perm decl.uses := by
  obtain ⟨name, params, body⟩ := decl
  rw [FunDecl.visits, List.filterMap_append, uses_visitsParameters]
  exact uses_visitsBody _ body

theorem uses_visitsBody (here : Position) (stmts : List Stmt) :
    ((visitsBody here stmts).filterMap Visit.use?).Perm (bodyUses stmts) := by
  cases stmts with
  | nil => exact .refl _
  | cons stmt stmts =>
      rw [visitsBody, bodyUses, List.filterMap_append]
      exact (stmt.uses_visits here).append (uses_visitsBody _ stmts)

theorem uses_visitsMethods (here : Position) (methods : List FunDecl) :
    ((visitsMethods here methods).filterMap Visit.use?).Perm (methodUses methods) := by
  cases methods with
  | nil => exact .refl _
  | cons method methods =>
      rw [visitsMethods, methodUses, List.filterMap_append]
      exact (method.uses_visits _).append (uses_visitsMethods here methods)
end

end Lox
