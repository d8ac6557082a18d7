import Lox.Proofs.Session

/-!
# The dynamic context comes back

The environment, the directory of inclusions and the number of active levels are changed for the
extent of a block, a call or an inclusion.  Whatever way a phrase ends, the context is then the
one that it started in; so between two runs the machine is always at the globals, on no level.
-/

namespace Lox

namespace Session

/-- A run that is over, whatever came of it, has left the context as it was. -/
theorem run_context {host : Host} {source : String} {session after : Session}
    {errors : List Error} (ran : session.run host source = (.finished errors, after)) :
    after.state.context = session.state.context := by
  rcases run_finished ran with ⟨_, same⟩ | ⟨program, outcome, _, ended, same⟩
  · rw [same]
    rfl
  · have started : (session.begin host.now program).IsAbove [] session.state.context :=
      ⟨[.program program.stmts], rfl, rfl⟩
    rw [← same]
    exact ((Machine.runsAbove_run ended).isAbove started).context_eq rfl

theorem setBaseOf_context (path : String) (session : Session) :
    (session.setBaseOf path).state.context.env = session.state.context.env ∧
      (session.setBaseOf path).state.context.depth = session.state.context.depth := by
  unfold setBaseOf
  split
  · exact ⟨rfl, rfl⟩
  · exact ⟨rfl, rfl⟩

/-- Between runs a session is at the globals, and no call or inclusion is active. -/
theorem Reachable.at_globals {session : Session} (reachable : session.Reachable) :
    session.state.context.env = State.globals ∧ session.state.context.depth = 0 := by
  induction reachable with
  | fresh output diagnostics debug => exact ⟨rfl, rfl⟩
  | run before host source ran ih =>
      rw [run_context ran]
      exact ih
  | runFile before host path ran ih =>
      obtain ⟨source, ran⟩ := runFile_ok ran
      obtain ⟨env, depth⟩ := setBaseOf_context path _
      rw [run_context ran, env, depth]
      exact ih
  | clearMarks before ih => exact ih
  | setDebug before debug ih => exact ih
  | say before text ih => exact ih

end Session

open Machine in
/--
The context is restored on every outcome.  An expression or a statement that is evaluated above
any waiting tasks gives them its outcome, be it a value, a return or an error, in the context in
which it was started; and a run of a whole source leaves its session at the globals, on no level
and with the base directory that it had.
-/
theorem context_restored_on_every_outcome :
    (∀ (expr : Expr) (waiting : List Task) (s after : State) (outcome : Outcome),
      RunsAbove waiting ⟨.eval expr, waiting, s⟩ ⟨.give outcome, waiting, after⟩ →
        after.context = s.context) ∧
    (∀ (stmt : Stmt) (waiting : List Task) (s after : State) (outcome : Outcome),
      RunsAbove waiting ⟨.exec stmt, waiting, s⟩ ⟨.give outcome, waiting, after⟩ →
        after.context = s.context) ∧
    (∀ (session after : Session) (host : Host) (source : String) (errors : List Error),
      session.Reachable → session.run host source = (.finished errors, after) →
        after.state.context = session.state.context ∧
          after.state.context.env = State.globals ∧ after.state.context.depth = 0) := by
  refine ⟨?_, ?_, ?_⟩
  · intro expr waiting s after outcome runs
    exact (runs.isAbove ⟨[], rfl, rfl⟩).context_eq rfl
  · intro stmt waiting s after outcome runs
    exact (runs.isAbove ⟨[], rfl, rfl⟩).context_eq rfl
  · intro session after host source errors reachable ran
    exact ⟨Session.run_context ran, (reachable.run host source ran).at_globals⟩

/-- A call of `nil`, which fails. -/
def callNil : Expr := .call (.literal .nil) ⟨.rightParen, ")", none, 1⟩ []

/-- A host without files. -/
def bareHost : Host := ⟨fun _ => .error .missing, 0, 20⟩

/--
Calling `nil` fails as an expression, inside a block, and as a source of its own; the context
comes back each time.
-/
theorem context_restored_after_failing_call :
    ∃ (expression statement : State) (errors : List Error) (after : Session),
      Machine.run bareHost.files 8 ⟨.eval callNil, [], .initial .unlimited 0⟩ =
        (.outcome (.failed (.runtime 1 .notCallable)), expression) ∧
      expression.context = (State.initial .unlimited 0).context ∧
      Machine.run bareHost.files 8
        ⟨.exec (.block [.expression callNil]), [], .initial .unlimited 0⟩ =
        (.outcome (.failed (.runtime 1 .notCallable)), statement) ∧
      statement.context = (State.initial .unlimited 0).context ∧
      (Session.fresh .unlimited .unlimited false).run bareHost "\x7b nil(); \x7d" =
        (.finished errors, after) ∧
      errors.length = 1 ∧ after.state.context.env = State.globals := by
  have failedSource :
      (match (Session.fresh .unlimited .unlimited false).run bareHost "\x7b nil(); \x7d" with
        | (.finished errors, _) => errors.length == 1
        | _ => false) = true := by
    decide +kernel
  have failedExpr :
      (Machine.run bareHost.files 8 ⟨.eval callNil, [], .initial .unlimited 0⟩).1 =
        .outcome (.failed (.runtime 1 .notCallable)) := rfl
  have failedStmt :
      (Machine.run bareHost.files 8
        ⟨.exec (.block [.expression callNil]), [], .initial .unlimited 0⟩).1 =
        .outcome (.failed (.runtime 1 .notCallable)) := rfl
  split at failedSource
  · next errors after ran =>
      refine ⟨_, _, errors, after, rfl, ?_, rfl, ?_, ran, by simpa using failedSource, ?_⟩
      · exact context_restored_on_every_outcome.1 _ [] _ _ _ (Machine.runsAbove_run failedExpr)
      · exact context_restored_on_every_outcome.2.1 _ [] _ _ _ (Machine.runsAbove_run failedStmt)
      · exact (context_restored_on_every_outcome.2.2 _ _ _ _ _ (.fresh _ _ _) ran).2.1
  · cases failedSource

end Lox
