import Lox.Tree

/-!
# The references of a tree

All references in the order of the tree: a node's own reference first, then those of its parts
from left to right.
-/

namespace Lox

/-- How a reference uses its name. -/
inductive UseKind where
  | read | assigned | receiver | superclass
deriving DecidableEq, Repr

structure Use where
  kind : UseKind
  reference : Reference
deriving DecidableEq, Repr

mutual
def Expr.uses : Expr → List Use
  | .assign target value => ⟨.assigned, target⟩ :: value.uses
  | .binary left _ right => left.uses ++ right.uses
  | .call callee _ args => callee.uses ++ usesAll args
  | .get object _ => object.uses
  | .grouping inner => inner.uses
  | .literal _ => []
  | .logical left _ right => left.uses ++ right.uses
  | .set object _ value => object.uses ++ value.uses
  | .super keyword _ => [⟨.superclass, keyword⟩]
  | .this keyword => [⟨.receiver, keyword⟩]
  | .unary _ operand => operand.uses
  | .var name => [⟨.read, name⟩]

def usesAll : List Expr → List Use
  | [] => []
  | expr :: exprs => expr.uses ++ usesAll exprs
end

def optionalUses : Option Expr → List Use
  | none => []
  | some expr => expr.uses

mutual
def Stmt.uses : Stmt → List Use
  | .block body => bodyUses body
  | .classDecl _ superclass methods =>
    (superclass.toList.map fun reference => ⟨.read, reference⟩) ++ methodUses methods
  | .expression expr => expr.uses
  | .funDecl decl => decl.uses
  | .ifElse condition thenBranch none => condition.uses ++ thenBranch.uses
  | .ifElse condition thenBranch (some elseBranch) =>
    condition.uses ++ thenBranch.uses ++ elseBranch.uses
  | .inclusion _ => []
  | .print value => value.uses
  | .ret _ value => optionalUses value
  | .varDecl _ init => optionalUses init
  | .whileLoop condition body => condition.uses ++ body.uses

def FunDecl.uses : FunDecl → List Use
  | ⟨_, _, body⟩ => bodyUses body

def bodyUses : List Stmt → List Use
  | [] => []
  | stmt :: stmts => stmt.uses ++ bodyUses stmts

def methodUses : List FunDecl → List Use
  | [] => []
  | method :: methods => method.uses ++ methodUses methods
end

end Lox
