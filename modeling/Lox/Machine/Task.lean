import Lox.Machine.State

/-!
# Tasks

A running program is a machine: a control, which says what is being done, and a stack of tasks,
which says what is to be done with its outcome.  Every phrase, expression or statement, ends in
an outcome; statements that end normally have the value `nil`, which nobody looks at.
-/

namespace Lox

/-- How a phrase ends. -/
inductive Outcome where
  | value (value : Value)
  | returned (value : Value)
  | failed (error : Error)

/-- What a call answers when the body of the function has ended. -/
inductive Answer where
  /-- What the body returned, or `nil`. -/
  | result
  /-- The receiver bound in the environment of an initializer. -/
  | receiver (env : Env)
  /-- The instance that was being made. -/
  | made (inst : Instance)

/-- What is to be done with the outcome of a phrase. -/
inductive Task where
  | assign (target : Reference)
  | rightOperand (operator : Token) (right : Expr)
  | operate (left : Value) (operator : Token)
  | operateUnary (operator : Token)
  | decide (operator : Token) (right : Expr)
  | firstArgument (paren : Token) (args : List Expr)
  | nextArgument (callee : Value) (before : List Value) (paren : Token) (args : List Expr)
  | get (name : Token)
  | storedValue (name : Token) (value : Expr)
  | set (inst : Instance) (name : Token)
  | define (name : Token)
  | print (line : Nat)
  | ret
  | choose (thenBranch : Stmt) (elseBranch : Option Stmt)
  | loopBody (condition : Expr) (body : Stmt)
  | loopAgain (condition : Expr) (body : Stmt)
  /-- The rest of a block or of a function body. -/
  | body (stmts : List Stmt)
  /-- The rest of a whole program, in which a `return` ends its own statement only. -/
  | program (stmts : List Stmt)
  /-- The end of a block. -/
  | leave (context : Context)
  /-- The end of a call, with the line of its closing parenthesis. -/
  | finishCall (context : Context) (line : Nat) (answer : Answer)
  /-- The end of an inclusion. -/
  | finishInclusion (context : Context)

inductive Control where
  | eval (expr : Expr)
  | exec (stmt : Stmt)
  | give (outcome : Outcome)
  /-- Wait for the text of the file at a place, for the inclusion with the given path. -/
  | awaitFile (path : Token) (place : String)
  /-- The program has asked to end. -/
  | exited (code : UInt8)

structure Machine where
  control : Control
  tasks : List Task
  state : State

namespace Outcome

def nil : Outcome := .value .nil

def failAt (token : Token) (fault : RuntimeFault) : Outcome := .failed (.runtimeAt token fault)

/-- What comes of writing a line, by the error of the output.  It has no line to tell. -/
def written : Option String → Outcome
  | none => .nil
  | some detail => .failed (.unplaced (.unwritableOutput detail))

/-- An error without a line takes the given one; nothing else changes. -/
def withLineIfMissing (line : Nat) : Outcome → Outcome
  | failed error => failed (error.withLineIfMissing line)
  | outcome => outcome

end Outcome

namespace Machine

/-- A machine that runs a whole program. -/
def ofProgram (stmts : List Stmt) (s : State) : Machine := ⟨.give .nil, [.program stmts], s⟩

/-- A machine that evaluates one expression. -/
def ofExpr (expr : Expr) (s : State) : Machine := ⟨.eval expr, [], s⟩

/-- A machine that gives an outcome to its tasks. -/
def giving (outcome : Outcome) (tasks : List Task) (s : State) : Machine :=
  ⟨.give outcome, tasks, s⟩

end Machine

end Lox
