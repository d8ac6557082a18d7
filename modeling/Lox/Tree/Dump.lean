import Lox.Tree

/-!
# Trees as text

A tree is dumped in one line of parenthesized text: the head names the form, the parts follow
after single spaces.  Line numbers and reference numbers are not shown.
-/

namespace Lox

/-- A head and its parts between parentheses, separated by single spaces. -/
def parenthesize (head : String) (parts : List String) : String :=
  "(" ++ head ++ String.join (parts.map fun part => " " ++ part) ++ ")"

def Literal.dump : Literal → String
  | .string s => "\"" ++ s ++ "\""
  | other => other.text

namespace Expr

mutual
def dump : Expr → String
  | assign target value => parenthesize "=" [target.name.lexeme, dump value]
  | binary left operator right => parenthesize operator.lexeme [dump left, dump right]
  | call callee _ args => parenthesize "call" (dump callee :: dumpAll args)
  | get object name => dump object ++ "." ++ name.lexeme
  | grouping inner => parenthesize "group" [dump inner]
  | literal value => value.dump
  | logical left operator right => parenthesize operator.lexeme [dump left, dump right]
  | set object name value => parenthesize "set" [dump object ++ "." ++ name.lexeme, dump value]
  | super _ method => "super." ++ method.lexeme
  | this _ => "this"
  | unary operator operand => parenthesize operator.lexeme [dump operand]
  | var name => name.name.lexeme

def dumpAll : List Expr → List String
  | [] => []
  | expr :: exprs => dump expr :: dumpAll exprs
end

end Expr

mutual
def Stmt.dump : Stmt → String
  | .block body => parenthesize "block" (dumpBody body)
  | .classDecl name superclass methods =>
    parenthesize
      ("class " ++ name.lexeme ++
        match superclass with
        | none => ""
        | some reference => " < " ++ reference.name.lexeme)
      (dumpMethods methods)
  | .expression expr => parenthesize expr.dump []
  | .funDecl decl => decl.dump
  | .ifElse condition thenBranch none => parenthesize "if" [condition.dump, thenBranch.dump]
  | .ifElse condition thenBranch (some elseBranch) =>
    parenthesize "if" [condition.dump, thenBranch.dump, elseBranch.dump]
  | .inclusion path => parenthesize "include" [path.lexeme]
  | .print value => parenthesize "print" [value.dump]
  | .ret _ value => parenthesize "return" (value.toList.map Expr.dump)
  | .varDecl name init => parenthesize ("var " ++ name.lexeme) (init.toList.map Expr.dump)
  | .whileLoop condition body => parenthesize "while" [condition.dump, body.dump]

def FunDecl.dump : FunDecl → String
  | ⟨name, params, body⟩ =>
    parenthesize ("fun " ++ name.lexeme)
      (params.map Token.lexeme ++ [parenthesize "block" (dumpBody body)])

def dumpBody : List Stmt → List String
  | [] => []
  | stmt :: stmts => stmt.dump :: dumpBody stmts

def dumpMethods : List FunDecl → List String
  | [] => []
  | method :: methods => method.dump :: dumpMethods methods
end

end Lox
