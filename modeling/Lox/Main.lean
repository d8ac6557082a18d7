import Std.Time.DateTime.Timestamp
import Lox.Command

/-!
# The executable

The command over the real standard streams, clock and files.  It decides nothing: the command is
the one of the other modules among real files and streams, where what a run asks for is looked up
and what it writes is passed on as soon as it is written.
-/

namespace Lox.Main

/-- A failed request by its number in the operating system, which may come negated. -/
def failureOfCode (code : UInt32) : Failure :=
  let number := if code.toNat < 0x80000000 then code.toNat else 0x100000000 - code.toNat
  if number = 2 then .missing
  else if number = 20 then .notADirectory
  else if number = 21 then .isADirectory
  else if number = 36 then .nameTooLong
  else if number = 13 then ⟨.permissionDenied, "Permission denied (os error 13)"⟩
  else ⟨.other, "os error " ++ toString number⟩

def failureOf (error : IO.Error) : Failure :=
  match error with
  | .noFileOrDirectory .. => .missing
  | .inappropriateType _ code _ => failureOfCode code
  | .invalidArgument _ code _ => failureOfCode code
  | .permissionDenied _ code _ => failureOfCode code
  | other => ⟨.other, toString other⟩

def readText (place : String) : IO (Except Failure String) := do
  try
    let bytes ← IO.FS.readBinFile place
    match Utf8.decode? bytes.toList with
    | some text => pure (.ok (String.ofList text))
    | none => pure (.error .notUtf8)
  catch error => pure (.error (failureOf error))

/-- Pass on what was written to a sink.  Once that fails, the sink refuses all that follows. -/
def passOn (stream : IO.FS.Stream) (sink : Sink) : IO Sink := do
  if sink.pieces.isEmpty then pure sink
  else
    try
      stream.putStr sink.text
      stream.flush
      pure sink.drained
    catch error =>
      pure { sink.drained with refusal? := fun _ _ => some (failureOf error).detail }

def passOnAll (session : Session) : IO Session := do
  let output ← passOn (← IO.getStdout) session.state.output
  let diagnostics ← passOn (← IO.getStderr) session.journal.diagnostics
  pure
    ⟨{ session.state with output := output },
      { session.journal with diagnostics := diagnostics }⟩

/-- Seconds since the start of 1970. -/
def now : IO Float := do
  let timestamp ← Std.Time.Timestamp.now
  pure (Float.ofInt timestamp.toNanosecondsSinceUnixEpoch.toInt / 1000000000)

/-- How many steps are taken between two looks at the output and the clock. -/
def stride : Nat := 4096

/-- Step a machine to its end, supplying files and the time. -/
partial def drive (m : Machine) : IO (Machine.Ending × State) := do
  match ({ m with state := { m.state with now := ← now } } : Machine).proceed stride with
  | ⟨control, tasks, s⟩ =>
    let s := { s with output := ← passOn (← IO.getStdout) s.output }
    match control with
    | .awaitFile path place =>
      let answer ← readText place
      drive (Machine.provide answer path place tasks s)
    | control =>
      let m : Machine := ⟨control, tasks, s⟩
      match m.ending? with
      | some ending => pure (ending, m.state)
      | none => drive m

/-- Show what is in the journal already, and step a machine to its end. -/
def driveShown (m : Machine) (journal : Journal) : IO (Machine.Ending × State × Journal) := do
  let diagnostics ← passOn (← IO.getStderr) journal.diagnostics
  let (ending, state) ← drive m
  pure (ending, state, { journal with diagnostics := diagnostics })

/-- The real files and streams. -/
def services : Services IO where
  readText := readText
  runSource source session := do
    let (result, session) ← session.runBy driveShown source
    pure (result, ← passOnAll session)

/-- The bytes of the next line of input, with the newline that ends it. -/
partial def readLine (input : IO.FS.Stream) (line : List UInt8) : IO (List UInt8) := do
  let bytes ← input.read 1
  match bytes.toList with
  | [] => pure line.reverse
  | byte :: _ => if byte = 10 then pure (byte :: line).reverse else readLine input (byte :: line)

/-- End with a status once all is passed on. -/
def endWith (code : UInt8) (session : Session) : IO UInt8 := do
  let _ ← passOnAll session
  pure code

partial def runPrompt (prompt : Prompt) (session : Session) : IO UInt8 := do
  let session ← passOnAll (session.say prompt.text)
  let line ← readLine (← IO.getStdin) []
  if line.isEmpty then
    let (code, session) ← Command.endInputIn services prompt session
    endWith code session
  else
    match ← Command.takeLineIn services line prompt session with
    | .ended code session => endWith code session
    | .goesOn prompt session => runPrompt prompt session

def run (args : List String) : IO UInt8 := do
  match Command.plan args with
  | .answer transcript =>
    IO.print transcript.stdout
    IO.eprint transcript.stderr
    pure transcript.code
  | .script path session =>
    let (code, session) ← Command.runScriptIn services path session
    endWith code session
  | .prompt session => runPrompt .start session

end Lox.Main

def main (args : List String) : IO UInt32 := do
  pure (← Lox.Main.run args).toUInt32
