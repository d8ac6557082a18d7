import Lox.Token

/-!
# Syntax trees

Programs are lists of statements over expressions.  Every place where a name is looked up is a
reference with a number of its own; what analysis finds out about a reference is kept beside the
tree under that number, so trees never change once they are read.
-/

namespace Lox

/-- One occurrence of a name that is looked up, known by the number of its token. -/
structure Reference where
  id : Nat
  name : Token
deriving DecidableEq, Repr

inductive Expr where
  | assign (target : Reference) (value : Expr)
  | binary (left : Expr) (operator : Token) (right : Expr)
  | call (callee : Expr) (paren : Token) (args : List Expr)
  | get (object : Expr) (name : Token)
  | grouping (inner : Expr)
  | literal (value : Literal)
  | logical (left : Expr) (operator : Token) (right : Expr)
  | set (object : Expr) (name : Token) (value : Expr)
  | super (keyword : Reference) (method : Token)
  | this (keyword : Reference)
  | unary (operator : Token) (operand : Expr)
  | var (name : Reference)
deriving Repr

mutual
/-- The declaration of a function or of a method. -/
structure FunDecl where
  name : Token
  params : List Token
  body : List Stmt

inductive Stmt where
  | block (body : List Stmt)
  | classDecl (name : Token) (superclass : Option Reference) (methods : List FunDecl)
  | expression (expr : Expr)
  | funDecl (decl : FunDecl)
  | ifElse (condition : Expr) (thenBranch : Stmt) (elseBranch : Option Stmt)
  | inclusion (path : Token)
  | print (value : Expr)
  | ret (keyword : Token) (value : Option Expr)
  | varDecl (name : Token) (init : Option Expr)
  | whileLoop (condition : Expr) (body : Stmt)
end

instance : Inhabited Expr := ⟨.literal .nil⟩

instance : Inhabited Stmt := ⟨.block []⟩

namespace Expr

/--
The line of an expression's main token, looking through groupings; a literal keeps none, and
counts as line 0.
-/
def mainLine : Expr → Nat
  | assign target _ => target.name.line
  | binary _ operator _ => operator.line
  | call _ paren _ => paren.line
  | get _ name => name.line
  | grouping inner => inner.mainLine
  | literal _ => 0
  | logical _ operator _ => operator.line
  | set _ name _ => name.line
  | super keyword _ => keyword.name.line
  | this keyword => keyword.name.line
  | unary operator _ => operator.line
  | var name => name.name.line

end Expr

/-- The text a path token names: its string, or its lexeme without the quotes around it. -/
def Token.pathText (token : Token) : String :=
  match token.literal with
  | some (.string path) => path
  | _ =>
    let unquoted := token.lexeme.toList.dropWhile (· == '"')
    String.ofList (unquoted.reverse.dropWhile (· == '"')).reverse

end Lox
