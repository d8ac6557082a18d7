import Lox.Proofs.Matching.Runs

/-!
# What waits below

A step looks at no task but the top one.  So a machine that has not ended does the same when more
tasks wait below its own; and what comes of an expression does not depend on what it is evaluated
for.
-/

namespace Lox

namespace Machine

/-- The machine with more tasks that wait below its own. -/
def above (below : List Task) (m : Machine) : Machine := { m with tasks := m.tasks ++ below }

section Steps

variable (tasks below : List Task) (s : State)

theorem getProperty_above (object : Value) (name : Token) :
    getProperty object name (tasks ++ below) s = (getProperty object name tasks s).above below := by
  unfold getProperty
  split
  · split
    · rfl
    · split <;> rfl
  · rfl

theorem getSuper_above (keyword : Reference) (method : Token) :
    getSuper keyword method (tasks ++ below) s = (getSuper keyword method tasks s).above below := by
  unfold getSuper
  split
  · rfl
  · split <;> rfl

theorem callNative_above (native : Native) (args : List Value) (line : Nat) :
    callNative native args line (tasks ++ below) s =
      (callNative native args line tasks s).above below := by
  unfold callNative
  split <;> rfl

theorem invoke_above (callee : Value) (args : List Value) (paren : Token) :
    invoke callee args paren (tasks ++ below) s = (invoke callee args paren tasks s).above below := by
  unfold invoke
  split
  · exact callNative_above ..
  · rfl
  · unfold instantiate
    dsimp only
    split <;> rfl
  · rfl

theorem call_above (callee : Value) (args : List Value) (paren : Token) :
    call callee args paren (tasks ++ below) s = (call callee args paren tasks s).above below := by
  unfold call
  split
  · rfl
  · split
    · rfl
    · split
      · rfl
      · exact invoke_above ..
  · split
    · rfl
    · exact invoke_above ..

theorem evaluate_above (expr : Expr) :
    evaluate expr (tasks ++ below) s = (evaluate expr tasks s).above below := by
  cases expr with
  | super keyword method => exact getSuper_above ..
  | _ => rfl

theorem execute_above (stmt : Stmt) :
    execute stmt (tasks ++ below) s = (execute stmt tasks s).above below := by
  cases stmt with
  | classDecl name superclass methods =>
      cases superclass with
      | none => rfl
      | some reference =>
          unfold execute
          dsimp only
          split <;> rfl
  | ret keyword value => cases value <;> rfl
  | varDecl name init => cases init <;> rfl
  | _ => rfl

theorem resume_above (value : Value) (task : Task) :
    resume value task (tasks ++ below) s = (resume value task tasks s).above below := by
  cases task with
  | decide operator right =>
      unfold resume
      dsimp only
      split <;> rfl
  | firstArgument paren args =>
      cases args with
      | nil => exact call_above ..
      | cons arg args => rfl
  | nextArgument callee before paren args =>
      cases args with
      | nil => exact call_above ..
      | cons arg args => rfl
  | get name => exact getProperty_above ..
  | storedValue name stored =>
      unfold resume
      dsimp only
      split <;> rfl
  | choose thenBranch elseBranch =>
      unfold resume
      dsimp only
      split
      · rfl
      · split <;> rfl
  | loopBody condition body =>
      unfold resume
      dsimp only
      split <;> rfl
  | body stmts => cases stmts <;> rfl
  | program stmts => cases stmts <;> rfl
  | _ => rfl

theorem provide_above (answer : Except Failure String) (path : Token) (place : String) :
    provide answer path place (tasks ++ below) s =
      (provide answer path place tasks s).above below := by
  unfold provide
  split
  · rfl
  · split
    · rfl
    · dsimp only
      split <;> rfl

end Steps

variable {m : Machine} {files : String → Except Failure String}

/-- A step does not depend on what waits below the tasks of the machine. -/
theorem advance_above (busy : ¬ m.Gives []) (files : String → Except Failure String)
    (below : List Task) : (m.above below).advance files = (m.advance files).above below := by
  obtain ⟨control, tasks, s⟩ := m
  cases control with
  | eval expr => exact evaluate_above tasks below s expr
  | exec stmt => exact execute_above tasks below s stmt
  | give outcome =>
      cases tasks with
      | nil => exact absurd ⟨outcome, rfl, rfl⟩ busy
      | cons task tasks =>
          cases outcome with
          | value value => exact resume_above tasks below s value task
          | returned value => cases task <;> rfl
          | failed error => cases task <;> rfl
  | awaitFile path place => exact provide_above tasks below s (files place) path place
  | exited code => rfl

/-- So it is with all steps until the machine has ended. -/
theorem advanced_above {steps : Nat} (busy : ∀ n < steps, ¬ (m.advanced files n).Gives [])
    (below : List Task) :
    (m.above below).advanced files steps = (m.advanced files steps).above below := by
  induction steps with
  | zero => rfl
  | succ steps ih =>
      rw [advanced_succ, advanced_succ, ih fun n earlier => busy n (Nat.lt_succ_of_lt earlier),
        advance_above (busy steps (Nat.lt_succ_self steps)) files]

end Machine

end Lox
