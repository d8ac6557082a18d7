import Lox.Proofs.Move.Trees
import Lox.Proofs.Parse.Phrases

/-!
# The numbers of references in moved trees

As a text is moved, the numbers of its references are all raised by the same.
-/

namespace Lox

/-- The numbers of the references that are looked up. -/
def idsOf (acts : List Act) : List Nat := acts.filterMap Act.id?

@[simp] theorem idsOf_nil : idsOf [] = [] := rfl

@[simp] theorem idsOf_append (acts others : List Act) :
    idsOf (acts ++ others) = idsOf acts ++ idsOf others := List.filterMap_append

/-- The numbers of a text once they are raised. -/
def raise (m : Move) (ids : List Nat) : List Nat := ids.map (· + m.offset)

variable {m : Move}

@[simp] theorem raise_nil : raise m [] = [] := rfl

@[simp] theorem raise_append (ids others : List Nat) :
    raise m (ids ++ others) = raise m ids ++ raise m others := List.map_append

@[simp] theorem idsOf_branch (stmt : Stmt) (acts : List Act) :
    idsOf (.branch stmt :: acts) = idsOf acts := rfl

mutual
theorem Expr.idsOf_move (expr : Expr) :
    idsOf (expr.move m).acts = raise m (idsOf expr.acts) := by
  cases expr with
  | assign target value =>
      rw [Expr.move, Expr.acts, Expr.acts, idsOf_append, idsOf_append, raise_append,
        value.idsOf_move]
      rfl
  | binary left operator right =>
      rw [Expr.move, Expr.acts, Expr.acts, idsOf_append, idsOf_append, raise_append,
        left.idsOf_move, right.idsOf_move]
  | call callee paren args =>
      rw [Expr.move, Expr.acts, Expr.acts, idsOf_append, idsOf_append, raise_append,
        callee.idsOf_move, idsOfAll_move]
  | get object name => exact object.idsOf_move
  | grouping inner => exact inner.idsOf_move
  | literal value => rfl
  | logical left operator right =>
      rw [Expr.move, Expr.acts, Expr.acts, idsOf_append, idsOf_append, raise_append,
        left.idsOf_move, right.idsOf_move]
  | set object name value =>
      rw [Expr.move, Expr.acts, Expr.acts, idsOf_append, idsOf_append, raise_append,
        value.idsOf_move, object.idsOf_move]
  | super keyword method => rfl
  | this keyword => rfl
  | unary operator operand => exact operand.idsOf_move
  | var name => rfl

theorem idsOfAll_move (exprs : List Expr) :
    idsOf (actsAll (moveAll m exprs)) = raise m (idsOf (actsAll exprs)) := by
  cases exprs with
  | nil => rfl
  | cons expr exprs =>
      rw [moveAll, actsAll, actsAll, idsOf_append, idsOf_append, raise_append,
        expr.idsOf_move, idsOfAll_move exprs]
end

theorem idsOfOptional_move (expr : Option Expr) :
    idsOf (actsOptional (expr.map (Expr.move m))) = raise m (idsOf (actsOptional expr)) := by
  cases expr with
  | none => rfl
  | some expr => exact expr.idsOf_move

theorem idsOf_actsParameters (seen : List String) (params : List Token) :
    idsOf (actsParameters seen params) = [] := by
  induction params generalizing seen with
  | nil => rfl
  | cons param params ih => exact ih (param.lexeme :: seen)

mutual
theorem Stmt.idsOf_move (stmt : Stmt) :
    idsOf (stmt.move m).acts = raise m (idsOf stmt.acts) := by
  cases stmt with
  | block body => exact idsOfBody_move body
  | classDecl name superclass methods =>
      cases superclass with
      | none => exact idsOfMethods_move methods
      | some reference => exact congrArg (_ :: ·) (idsOfMethods_move methods)
  | expression expr => exact expr.idsOf_move
  | funDecl decl => exact decl.idsOf_move
  | ifElse condition thenBranch elseBranch =>
      cases elseBranch with
      | none =>
          rw [Stmt.move, Stmt.acts, Stmt.acts, idsOf_append, idsOf_append, raise_append,
            condition.idsOf_move, idsOf_branch, idsOf_branch, thenBranch.idsOf_move]
      | some elseBranch =>
          simp only [Stmt.move, Stmt.acts, List.cons_append, idsOf_append, idsOf_branch,
            raise_append, condition.idsOf_move, thenBranch.idsOf_move, elseBranch.idsOf_move]
  | inclusion path => rfl
  | print value => exact value.idsOf_move
  | ret keyword value => exact idsOfOptional_move value
  | varDecl name init => exact idsOfOptional_move init
  | whileLoop condition body =>
      rw [Stmt.move, Stmt.acts, Stmt.acts, idsOf_append, idsOf_append, raise_append,
        condition.idsOf_move, idsOf_branch, idsOf_branch, body.idsOf_move]

theorem FunDecl.idsOf_move (decl : FunDecl) :
    idsOf (decl.move m).acts = raise m (idsOf decl.acts) := by
  obtain ⟨name, params, body⟩ := decl
  rw [FunDecl.move, FunDecl.acts, FunDecl.acts, idsOf_append, idsOf_append, raise_append,
    idsOf_actsParameters, idsOf_actsParameters, idsOfBody_move body, raise_nil]

theorem idsOfBody_move (stmts : List Stmt) :
    idsOf (actsBody (moveBody m stmts)) = raise m (idsOf (actsBody stmts)) := by
  cases stmts with
  | nil => rfl
  | cons stmt stmts =>
      rw [moveBody, actsBody, actsBody, idsOf_append, idsOf_append, raise_append,
        stmt.idsOf_move, idsOfBody_move stmts]

theorem idsOfMethods_move (methods : List FunDecl) :
    idsOf (actsMethods (moveMethods m methods)) = raise m (idsOf (actsMethods methods)) := by
  cases methods with
  | nil => rfl
  | cons method methods =>
      rw [moveMethods, actsMethods, actsMethods, idsOf_append, idsOf_append, raise_append,
        method.idsOf_move, idsOfMethods_move methods]
end

theorem actsBody_append (stmts others : List Stmt) :
    actsBody (stmts ++ others) = actsBody stmts ++ actsBody others := by
  induction stmts with
  | nil => rfl
  | cons stmt stmts ih => rw [List.cons_append, actsBody, ih, actsBody, List.append_assoc]

end Lox
