import Lox.Machine.Step

/-!
# Runs

A run repeats steps until the machine has ended, answering its requests for files from its host.
How long a program runs cannot be told beforehand, so a run is given a number of steps; one that
needs more is reported as unfinished.
-/

namespace Lox

/-- What a program finds around it. -/
structure Host where
  /-- The text of the file at a place. -/
  files : String → Except Failure String
  /-- What the clock shows: seconds since the start of 1970, negative before it. -/
  now : Float
  /-- How many steps a run may take. -/
  patience : Nat

/-- More steps than any run takes in practice. -/
def amplePatience : Nat := Nat.pow 2 62

namespace Machine

/-- How a machine ended: with an outcome that no task waits for, or by request. -/
inductive Ending where
  | outcome (outcome : Outcome)
  | exited (code : UInt8)
  | unfinished

def ending? (m : Machine) : Option Ending :=
  match m.control, m.tasks with
  | .give outcome, [] => some (.outcome outcome)
  | .exited code, _ => some (.exited code)
  | _, _ => none

/-- Whether a step would change nothing, because the machine has ended or awaits a file. -/
def isAtRest (m : Machine) : Bool :=
  match m.control with
  | .awaitFile .. => true
  | _ => m.ending?.isSome

/-- Take up to the given number of steps, without any host. -/
def proceed : Nat → Machine → Machine
  | 0, m => m
  | steps + 1, m => if m.isAtRest then m else proceed steps m.step

/-- One step, with a requested file supplied by the host. -/
def advance (files : String → Except Failure String) (m : Machine) : Machine :=
  match m with
  | ⟨.awaitFile path place, tasks, s⟩ => provide (files place) path place tasks s
  | m => m.step

/-- Repeat steps until the machine has ended. -/
def run (files : String → Except Failure String) : Nat → Machine → Ending × State
  | 0, m => (m.ending?.getD .unfinished, m.state)
  | steps + 1, m =>
    match m.ending? with
    | some ending => (ending, m.state)
    | none => run files steps (m.advance files)

theorem run_succ (files : String → Except Failure String) (steps : Nat) (m : Machine) :
    run files (steps + 1) m =
      match m.ending? with
      | some ending => (ending, m.state)
      | none => run files steps (m.advance files) := rfl

end Machine

namespace State

/-- Run a whole program from a state. -/
def runProgram (host : Host) (stmts : List Stmt) (s : State) : Machine.Ending × State :=
  (Machine.ofProgram stmts { s with now := host.now }).run host.files host.patience

/-- Evaluate one expression from a state. -/
def evalExpr (host : Host) (expr : Expr) (s : State) : Machine.Ending × State :=
  (Machine.ofExpr expr { s with now := host.now }).run host.files host.patience

end State

end Lox
