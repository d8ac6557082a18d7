import Lox.Options
import Lox.Prompt
import Lox.Session
import Lox.Utf8

/-!
# The command

The whole command as a function of its arguments, its standard input and its host: what it
writes to its two outputs, and the status it ends with.

What it does with a script, with a line at the prompt and at the end of the input does not depend on
how it is served, and is written for a monad.
-/

namespace Lox

/-- What can be seen of a command that has ended. -/
structure Transcript where
  stdout : String
  stderr : String
  code : UInt8
deriving DecidableEq, Repr

namespace Command

def usageStatus : UInt8 := 64

def compileStatus : UInt8 := 65

def inputStatus : UInt8 := 66

def runtimeStatus : UInt8 := 70

/-- The status after a script has run: rejection counts before failure. -/
def scriptStatus (session : Session) : UInt8 :=
  if session.journal.hadError then compileStatus
  else if session.journal.hadRuntimeError then runtimeStatus
  else 0

/-- A report of the command itself. -/
def complain (error : Error) (session : Session) : Session :=
  { session with journal := session.journal.report error }

section Services

variable {m : Type → Type} [Monad m] (services : Services m)

/-- Run a script to the end of the command. -/
def runScriptIn (path : String) (session : Session) : m (UInt8 × Session) := do
  match ← session.runFileIn services path with
  | .error error => pure (inputStatus, complain error session)
  | .ok (.exited code, session) => pure (code, session)
  | .ok (_, session) => pure (scriptStatus session, session)

/-- Run one entry of the prompt, with the marks of earlier ones cleared. -/
def runEntryIn (entry : List Char) (session : Session) : m (RunResult × Session) :=
  services.runSource (String.ofList entry) session.clearMarks

/-- What comes of a line at the prompt. -/
inductive Turn where
  | ended (code : UInt8) (session : Session)
  | goesOn (prompt : Prompt) (session : Session)

/-- Take a line, and run the entry that it closes.  A line that is no text ends the command. -/
def takeLineIn (line : List UInt8) (prompt : Prompt) (session : Session) : m Turn := do
  match Utf8.decode? line with
  | none => pure (.ended inputStatus (complain (.io .notUtf8) session))
  | some text =>
    match prompt.feed text with
    | (none, prompt) => pure (.goesOn prompt session)
    | (some entry, prompt) =>
      match ← runEntryIn services entry session with
      | (.exited code, session) => pure (.ended code session)
      | (_, session) => pure (.goesOn prompt session)

/-- At the end of the input the open entry is run as well. -/
def endInputIn (prompt : Prompt) (session : Session) : m (UInt8 × Session) := do
  match prompt.close.1 with
  | none => pure (0, session.say "\n")
  | some entry =>
    match ← runEntryIn services entry session with
    | (.exited code, session) => pure (code, session)
    | (_, session) => pure (0, session.say "\n")

end Services

def runScript (host : Host) (path : String) (session : Session) : UInt8 × Session :=
  Id.run (runScriptIn host.services path session)

def runEntry (host : Host) (entry : List Char) (session : Session) : RunResult × Session :=
  Id.run (runEntryIn host.services entry session)

/-- Cut input after each newline byte; the last line may lack one. -/
def inputLines (input : List UInt8) : List (List UInt8) :=
  input.foldr
    (fun (byte : UInt8) (lines : List (List UInt8)) =>
      if byte = 10 then [byte] :: lines
      else
        match lines with
        | [] => [[byte]]
        | line :: others => (byte :: line) :: others)
    []

/-- Show the prompt and take a line, again and again until the input or the command ends. -/
def runPrompt (host : Host) : List (List UInt8) → Prompt → Session → UInt8 × Session
  | [], prompt, session => Id.run (endInputIn host.services prompt (session.say prompt.text))
  | line :: lines, prompt, session =>
    match Id.run (takeLineIn host.services line prompt (session.say prompt.text)) with
    | .ended code session => (code, session)
    | .goesOn prompt session => runPrompt host lines prompt session

theorem runPrompt_nil (host : Host) (prompt : Prompt) (session : Session) :
    runPrompt host [] prompt session =
      match prompt.close.1 with
      | none => (0, (session.say prompt.text).say "\n")
      | some entry =>
        match runEntry host entry (session.say prompt.text) with
        | (.exited code, session) => (code, session)
        | (_, session) => (0, session.say "\n") := by
  unfold runPrompt endInputIn
  cases prompt.close.1 with
  | none => rfl
  | some entry =>
    unfold runEntry
    simp only [Id.run_bind]
    generalize Id.run (runEntryIn host.services entry _) = ran
    rcases ran with ⟨_ | _ | _, session⟩ <;> rfl

theorem runPrompt_cons (host : Host) (line : List UInt8) (lines : List (List UInt8))
    (prompt : Prompt) (session : Session) :
    runPrompt host (line :: lines) prompt session =
      match Utf8.decode? line with
      | none => (inputStatus, complain (.io .notUtf8) (session.say prompt.text))
      | some text =>
        match prompt.feed text with
        | (none, prompt') => runPrompt host lines prompt' (session.say prompt.text)
        | (some entry, prompt') =>
          match runEntry host entry (session.say prompt.text) with
          | (.exited code, session) => (code, session)
          | (_, session) => runPrompt host lines prompt' session := by
  rw [runPrompt, takeLineIn]
  cases Utf8.decode? line with
  | none => rfl
  | some text =>
    rcases fed : prompt.feed text with ⟨_ | entry, prompt'⟩
    · simp [fed]
    · unfold runEntry
      simp only [fed, Id.run_bind]
      generalize Id.run (runEntryIn host.services entry _) = ran
      rcases ran with ⟨_ | _ | _, session⟩ <;> rfl

/-- What the arguments ask for. -/
inductive Plan where
  | answer (transcript : Transcript)
  | script (path : String) (session : Session)
  | prompt (session : Session)

def plan (args : List String) : Plan :=
  let options := Options.parse args
  if options.help then .answer ⟨Options.usage ++ "\n", "", 0⟩
  else if options.isUsageError then .answer ⟨"", Options.usage ++ "\n", usageStatus⟩
  else
    let session := Session.fresh .unlimited .unlimited options.debug
    match options.file with
    | some path => .script path session
    | none => .prompt session

/-- What can be seen of a command that ends with the given status. -/
def transcript (ended : UInt8 × Session) : Transcript :=
  ⟨ended.2.state.output.text, ended.2.journal.diagnostics.text, ended.1⟩

/-- Run the command. -/
def run (host : Host) (args : List String) (input : List UInt8) : Transcript :=
  match plan args with
  | .answer transcript => transcript
  | .script path session => transcript (runScript host path session)
  | .prompt session => transcript (runPrompt host (inputLines input) .start session)

end Command

end Lox
