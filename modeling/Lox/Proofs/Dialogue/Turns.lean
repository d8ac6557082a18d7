import Lox.Proofs.Session

/-!
# Requests and what is written for them

What one session is asked to do, one request after the other, and what it replies.  Diagnostics that
take all that is written hold every error that was reported and every program that was dumped.
-/

namespace Lox

inductive Request where
  | run (host : Host) (source : String)
  | runFile (host : Host) (path : String)
  | clearMarks
  | setDebug (debug : Bool)

/-- The text that a request asks to run, if there is one. -/
def Request.source? : Request → Option String
  | .run _ source => some source
  | .runFile host path => (host.files path).toOption
  | _ => none

def Request.setsDebug : Request → Bool
  | .setDebug _ => true
  | _ => false

theorem Request.eq_setDebug {request : Request} (switch : request.setsDebug = true) :
    ∃ debug, request = .setDebug debug := by
  cases request with
  | setDebug debug => exact ⟨debug, rfl⟩
  | run host source => cases switch
  | runFile host path => cases switch
  | clearMarks => cases switch

inductive Reply where
  /-- A text was run; these are the errors that it was rejected for or that it failed with. -/
  | ran (errors : List Error)
  | unreadable (error : Error)
  | done

/-- What a run leaves behind, if it comes to an end and does not end the session as well. -/
def RunResult.settle : RunResult × Session → Option (Reply × Session)
  | (.finished errors, after) => some (.ran errors, after)
  | _ => none

/-- Do what is asked for. -/
def Session.ask (request : Request) (session : Session) : Option (Reply × Session) :=
  match request with
  | .run host source => RunResult.settle (session.run host source)
  | .runFile host path =>
    match session.runFile host path with
    | .error error => some (.unreadable error, session)
    | .ok ran => RunResult.settle ran
  | .clearMarks => some (.done, session.clearMarks)
  | .setDebug debug => some (.done, session.setDebug debug)

/-- One request with its reply, and the session before and after it. -/
structure Turn where
  before : Session
  request : Request
  reply : Reply
  after : Session

/-- The turns that lead from one session to another. -/
inductive Session.Dialogue (first : Session) : List Turn → Session → Prop where
  | start : Dialogue first [] first
  | ask {turns : List Turn} {session after : Session} {request : Request} {reply : Reply}
      (earlier : Dialogue first turns session)
      (asked : session.ask request = some (reply, after)) :
      Dialogue first (turns ++ [⟨session, request, reply, after⟩]) after

namespace Turn

/-- The text of the turn is rejected for some errors. -/
def IsRejected (turn : Turn) (errors : List Error) : Prop :=
  ∃ source, turn.request.source? = some source ∧
    Program.compile turn.before.state.nextReference source = .error errors

/-- The text of the turn is accepted as a program. -/
def IsAccepted (turn : Turn) (program : Program) : Prop :=
  ∃ source, turn.request.source? = some source ∧
    Program.compile turn.before.state.nextReference source = .ok program

/-- The text of the turn was accepted, and failed while it ran. -/
def Fails (turn : Turn) : Prop :=
  ∃ program error, turn.IsAccepted program ∧ turn.reply = .ran [error]

variable {turn : Turn} {errors errors' : List Error} {program : Program}

theorem IsRejected.hasText (rejected : turn.IsRejected errors) : turn.request.source? ≠ none := by
  obtain ⟨source, text, _⟩ := rejected
  rw [text]
  exact Option.some_ne_none source

theorem IsAccepted.hasText (accepted : turn.IsAccepted program) : turn.request.source? ≠ none := by
  obtain ⟨source, text, _⟩ := accepted
  rw [text]
  exact Option.some_ne_none source

theorem IsRejected.eq (rejected : turn.IsRejected errors) (again : turn.IsRejected errors') :
    errors = errors' := by
  obtain ⟨source, text, rejected⟩ := rejected
  obtain ⟨source', text', again⟩ := again
  obtain rfl := Option.some.inj (text.symm.trans text')
  exact Except.error.inj (rejected.symm.trans again)

/-- No text is both rejected and accepted. -/
theorem IsRejected.not_isAccepted (rejected : turn.IsRejected errors) :
    ¬ turn.IsAccepted program := by
  rintro ⟨source', text', accepted⟩
  obtain ⟨source, text, rejected⟩ := rejected
  obtain rfl := Option.some.inj (text.symm.trans text')
  cases rejected.symm.trans accepted

theorem IsAccepted.not_isRejected (accepted : turn.IsAccepted program) :
    ¬ turn.IsRejected errors := fun rejected => rejected.not_isAccepted accepted

end Turn

/-! ## What is written -/

/-- Errors as they are reported, each with the end of its line. -/
def errorsText (errors : List Error) : String :=
  String.join (errors.map fun error => error.text ++ "\n")

/-- A program as it is dumped, each statement with the end of its line. -/
def dumpText (stmts : List Stmt) : String := String.join (stmts.map fun stmt => stmt.dump ++ "\n")

/-- The text of the errors that were returned as having come of a text. -/
def Reply.text : Reply → String
  | .ran errors => errorsText errors
  | _ => ""

/-- The text that is dumped before the text of the turn runs. -/
def Turn.dump (turn : Turn) : String :=
  match turn.before.journal.debug, turn.request.source? with
  | true, some source =>
    match Program.compile turn.before.state.nextReference source with
    | .ok program => dumpText program.stmts
    | .error _ => ""
  | _, _ => ""

namespace Turn

variable {turn : Turn}

theorem dump_of_noText (noText : turn.request.source? = none) : turn.dump = "" := by
  unfold dump
  rw [noText]
  split <;> simp_all

theorem IsRejected.dump_eq {errors : List Error} (rejected : turn.IsRejected errors) :
    turn.dump = "" := by
  obtain ⟨source, text, rejected⟩ := rejected
  unfold dump
  rw [text]
  cases turn.before.journal.debug <;> simp [rejected]

theorem IsAccepted.dump_eq {program : Program} (accepted : turn.IsAccepted program) :
    turn.dump = if turn.before.journal.debug then dumpText program.stmts else "" := by
  obtain ⟨source, text, accepted⟩ := accepted
  unfold dump
  rw [text]
  cases turn.before.journal.debug <;> simp [accepted]

end Turn

namespace Sink

variable {sink : Sink}

/-- A sink that takes all is appended to. -/
theorem put_accepting (accepting : sink.Accepting) (pieces : List String) :
    (sink.put pieces).Accepting ∧
      (sink.put pieces).text = sink.text ++ String.join pieces := by
  unfold put
  induction pieces generalizing sink with
  | nil => exact ⟨accepting, by simp [write]⟩
  | cons piece others ih =>
      rw [write]
      split
      · next isEmpty =>
          obtain rfl := String.isEmpty_iff.mp isEmpty
          simpa using ih accepting
      · rw [accepting]
        have more : (⟨sink.refusal?, sink.offered + 1, sink.lines + piece.toList.count '\n',
            piece :: sink.pieces⟩ : Sink).Accepting := accepting
        obtain ⟨still, text⟩ := ih more
        refine ⟨still, text.trans ?_⟩
        simp [Sink.text, String.append_assoc]

end Sink

namespace Journal

variable {journal : Journal}

/-- Reporting errors writes diagnostics and does nothing else. -/
theorem reportAll_eq (errors : List Error) (journal : Journal) :
    journal.reportAll errors =
      { journal with diagnostics := (journal.reportAll errors).diagnostics } := by
  unfold reportAll
  induction errors generalizing journal with
  | nil => rfl
  | cons error errors ih => exact ih (journal.report error)

@[simp] theorem reportAll_hadError (errors : List Error) (journal : Journal) :
    (journal.reportAll errors).hadError = journal.hadError := by
  rw [reportAll_eq]

@[simp] theorem reportAll_hadRuntimeError (errors : List Error) (journal : Journal) :
    (journal.reportAll errors).hadRuntimeError = journal.hadRuntimeError := by
  rw [reportAll_eq]

/-- Dumping a program writes diagnostics and does nothing else. -/
@[simp] theorem dump_hadError (journal : Journal) (stmts : List Stmt) :
    (journal.dump stmts).hadError = journal.hadError := by
  unfold dump
  split <;> rfl

@[simp] theorem dump_hadRuntimeError (journal : Journal) (stmts : List Stmt) :
    (journal.dump stmts).hadRuntimeError = journal.hadRuntimeError := by
  unfold dump
  split <;> rfl

/-- All errors that are reported are in the text of diagnostics that take all. -/
theorem reportAll_text (accepting : journal.diagnostics.Accepting) (errors : List Error) :
    (journal.reportAll errors).diagnostics.Accepting ∧
      (journal.reportAll errors).diagnostics.text =
        journal.diagnostics.text ++ errorsText errors := by
  unfold reportAll
  induction errors generalizing journal with
  | nil => exact ⟨accepting, by simp [errorsText]⟩
  | cons error errors ih =>
      obtain ⟨still, text⟩ := Sink.put_accepting accepting (error.pieces ++ ["\n"])
      have reported : (journal.report error).diagnostics.Accepting := still
      obtain ⟨last, texts⟩ := ih reported
      refine ⟨last, texts.trans ?_⟩
      rw [show (journal.report error).diagnostics.text = _ from text]
      simp [errorsText, Error.text, String.append_assoc]

/-- All statements that are dumped are in the text of diagnostics that take all. -/
theorem dump_text (accepting : journal.diagnostics.Accepting) (stmts : List Stmt) :
    (journal.dump stmts).diagnostics.Accepting ∧
      (journal.dump stmts).diagnostics.text =
        journal.diagnostics.text ++ if journal.debug then dumpText stmts else "" := by
  unfold dump
  split
  · generalize journal.diagnostics = sink at accepting
    dsimp only
    induction stmts generalizing sink with
    | nil => exact ⟨accepting, by simp [dumpText]⟩
    | cons stmt stmts ih =>
        obtain ⟨still, text⟩ := Sink.put_accepting accepting [stmt.dump, "\n"]
        obtain ⟨last, texts⟩ := ih _ still
        refine ⟨last, texts.trans ?_⟩
        rw [text]
        simp [dumpText, String.append_assoc]
  · exact ⟨accepting, by simp⟩

end Journal

end Lox
