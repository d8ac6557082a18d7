import Lox.Proofs.Stack
import Lox.Session

/-!
# Reachable sessions

A session is reachable if it comes from a fresh one by running sources and scripts to their end,
whatever came of them, and by the other operations of a session.  The hosts of different runs
may have different files and show different times.
-/

namespace Lox.Session

inductive Reachable : Session → Prop where
  | fresh (output diagnostics : Sink) (debug : Bool) : Reachable (.fresh output diagnostics debug)
  | run {session after : Session} {errors : List Error} (before : Reachable session) (host : Host)
      (source : String) (ran : session.run host source = (.finished errors, after)) :
      Reachable after
  | runFile {session after : Session} {errors : List Error} (before : Reachable session)
      (host : Host) (path : String)
      (ran : session.runFile host path = .ok (.finished errors, after)) : Reachable after
  | clearMarks {session : Session} (before : Reachable session) : Reachable session.clearMarks
  | setDebug {session : Session} (before : Reachable session) (debug : Bool) :
      Reachable (session.setDebug debug)
  | say {session : Session} (before : Reachable session) (text : String) :
      Reachable (session.say text)

/-- The machine with which a session starts to run a compiled source. -/
def begin (now : Float) (program : Program) (session : Session) : Machine :=
  .ofProgram program.stmts ((session.setClock now).state.load program)

theorem conclude_finished {journal : Journal} {ending : Machine.Ending} {state : State}
    {errors : List Error} {after : Session}
    (concluded : conclude journal ending state = (.finished errors, after)) :
    (∃ outcome, ending = .outcome outcome) ∧ after.state = state := by
  cases ending with
  | outcome outcome =>
      cases outcome <;>
        · cases concluded
          exact ⟨⟨_, rfl⟩, rfl⟩
  | exited code => cases concluded
  | unfinished => cases concluded

/-- A source that ran to its end was rejected, or its machine ended with an outcome. -/
theorem run_finished {host : Host} {source : String} {session after : Session}
    {errors : List Error} (ran : session.run host source = (.finished errors, after)) :
    (Program.compile session.state.nextReference source = .error errors ∧
      after.state = (session.setClock host.now).state) ∨
    ∃ program outcome,
      Program.compile session.state.nextReference source = .ok program ∧
      ((session.begin host.now program).run host.files host.patience).1 = .outcome outcome ∧
      ((session.begin host.now program).run host.files host.patience).2 = after.state := by
  obtain ⟨state, journal⟩ := session
  rw [run_eq_start] at ran
  unfold start at ran
  simp only [setClock] at ran
  cases compiled : Program.compile state.nextReference source with
  | error found =>
      rw [compiled] at ran
      cases ran
      exact .inl ⟨rfl, rfl⟩
  | ok program =>
      rw [compiled] at ran
      obtain ⟨⟨outcome, ended⟩, same⟩ := conclude_finished ran
      exact .inr ⟨program, outcome, rfl, ended, same.symm⟩

/-- Reading a script from a file moves the base directory and nothing else before it is run. -/
theorem runFile_ok {host : Host} {path : String} {session : Session}
    {result : RunResult × Session} (ran : session.runFile host path = .ok result) :
    ∃ source, (session.setBaseOf path).run host source = result := by
  rw [runFile_eq] at ran
  split at ran
  · cases ran
  · next source _ => exact ⟨source, Except.ok.inj ran⟩

end Lox.Session
