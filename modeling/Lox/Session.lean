import Lox.Machine.Run
import Lox.Tree.Dump

/-!
# Sessions

A session runs any number of sources over one state, so that later ones see the globals of
earlier ones.  Beside the state it keeps a journal: where diagnostics are written, and whether a
source was rejected, or failed while it ran, since the marks were last cleared.

What a session is served with is asked for in a monad, so that the same steps can be taken
with real files and streams, and with a host that is a function.
-/

namespace Lox

structure Journal where
  diagnostics : Sink
  /-- Whether each program is dumped before it runs. -/
  debug : Bool
  hadError : Bool
  hadRuntimeError : Bool

namespace Journal

/-- Write a diagnostic on a line of its own, as far as it is taken. -/
def report (journal : Journal) (error : Error) : Journal :=
  { journal with diagnostics := journal.diagnostics.put (error.pieces ++ ["\n"]) }

def reportAll (journal : Journal) (errors : List Error) : Journal :=
  errors.foldl report journal

def dump (journal : Journal) (stmts : List Stmt) : Journal :=
  if journal.debug then
    { journal with
      diagnostics :=
        stmts.foldl (fun sink stmt => sink.put [stmt.dump, "\n"]) journal.diagnostics }
  else journal

end Journal

structure Session where
  state : State
  journal : Journal

/-- What came of running a source. -/
inductive RunResult where
  /-- The run is over; these are the errors that it was rejected for or that it failed with. -/
  | finished (errors : List Error)
  | exited (code : UInt8)
  | unfinished

/-- A source that was looked at: rejected as it stands, or ready to run. -/
inductive Started where
  | rejected (errors : List Error) (session : Session)
  | ready (machine : Machine) (journal : Journal)

/-- Bring a machine to its end with the files of a host, as far as its patience goes. -/
def Host.drive (host : Host) (machine : Machine) (journal : Journal) :
    Id (Machine.Ending × State × Journal) :=
  let (ending, state) := machine.run host.files host.patience
  pure (ending, state, journal)

namespace Session

def fresh (output diagnostics : Sink) (debug : Bool) : Session :=
  ⟨.initial output 0, ⟨diagnostics, debug, false, false⟩⟩

/-- Forget that there were errors. -/
def clearMarks (session : Session) : Session :=
  { session with
    journal := { session.journal with hadError := false, hadRuntimeError := false } }

def setDebug (debug : Bool) (session : Session) : Session :=
  { session with journal := { session.journal with debug := debug } }

/-- Write to the output without ending a line. -/
def say (text : String) (session : Session) : Session :=
  { session with
    state := { session.state with output := session.state.output.put [text] } }

/-- Look at a source.  One that is rejected is reported and leaves the state alone. -/
def start (source : String) (session : Session) : Started :=
  match session with
  | ⟨state, journal⟩ =>
    match Program.compile state.nextReference source with
    | .error errors =>
      .rejected errors ⟨state, { journal with hadError := true }.reportAll errors⟩
    | .ok program =>
      .ready (Machine.ofProgram program.stmts (state.load program)) (journal.dump program.stmts)

/-- Put a run that has ended on record. -/
def conclude (journal : Journal) (ending : Machine.Ending) (state : State) : RunResult × Session :=
  match ending with
  | .outcome (.failed error) =>
    (.finished [error], ⟨state, { journal with hadRuntimeError := true }.report error⟩)
  | .outcome _ => (.finished [], ⟨state, journal⟩)
  | .exited code => (.exited code, ⟨state, journal⟩)
  | .unfinished => (.unfinished, ⟨state, journal⟩)

def setClock (now : Float) (session : Session) : Session :=
  { session with state := { session.state with now := now } }

/-- Run a source whose machine is brought to its end by `drive`, which may look at the journal. -/
def runBy {m : Type → Type} [Monad m]
    (drive : Machine → Journal → m (Machine.Ending × State × Journal)) (source : String)
    (session : Session) : m (RunResult × Session) := do
  match session.start source with
  | .rejected errors session => pure (.finished errors, session)
  | .ready machine journal =>
    let (ending, state, journal) ← drive machine journal
    pure (conclude journal ending state)

/-- Run a source over the session's state. -/
def run (host : Host) (source : String) (session : Session) : RunResult × Session :=
  Id.run ((session.setClock host.now).runBy host.drive source)

theorem run_eq_start (host : Host) (source : String) (session : Session) :
    session.run host source =
      match (session.setClock host.now).start source with
      | .rejected errors session => (.finished errors, session)
      | .ready machine journal =>
        conclude journal (machine.run host.files host.patience).1
          (machine.run host.files host.patience).2 := by
  unfold run runBy
  cases (session.setClock host.now).start source <;> rfl

/-- Relative inclusions are from now on read from the given directory. -/
def setBase (base : String) (session : Session) : Session :=
  { session with
    state := { session.state with context := { session.state.context with base := base } } }

/-- From now on relative inclusions are read from beside the given script. -/
def setBaseOf (path : String) (session : Session) : Session :=
  match Path.parent? path with
  | some directory => session.setBase directory
  | none => session

end Session

/-- What serves a session: where texts are read, and what runs a source. -/
structure Services (m : Type → Type) where
  readText : String → m (Except Failure String)
  runSource : String → Session → m (RunResult × Session)

/-- A host answers at once. -/
def Host.services (host : Host) : Services Id := ⟨host.files, Session.run host⟩

namespace Session

/-- Run the script at a path.  One that cannot be read leaves the session alone. -/
def runFileIn {m : Type → Type} [Monad m] (services : Services m) (path : String)
    (session : Session) : m (Except Error (RunResult × Session)) := do
  match ← services.readText path with
  | .error failure => pure (.error (.io failure))
  | .ok source => pure (.ok (← services.runSource source (session.setBaseOf path)))

def runFile (host : Host) (path : String) (session : Session) :
    Except Error (RunResult × Session) :=
  Id.run (session.runFileIn host.services path)

theorem runFile_eq (host : Host) (path : String) (session : Session) :
    session.runFile host path =
      match host.files path with
      | .error failure => .error (.io failure)
      | .ok source => .ok ((session.setBaseOf path).run host source) := by
  unfold runFile runFileIn
  simp only [Host.services, Id.run_bind]
  cases host.files path <;> rfl

end Session

end Lox
