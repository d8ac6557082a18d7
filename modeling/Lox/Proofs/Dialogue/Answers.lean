import Lox.Proofs.Dialogue.Turns
import Lox.Proofs.Faults
import Lox.Proofs.Matching.Sessions

/-!
# Answers

How a session answers a request: a text that is rejected is reported and leaves no trace in the
state, a text that is accepted is run, and all else is done without a run.  What holds of every
answer, and what becomes of the marks, is read off these three cases.
-/

namespace Lox

/-! ## What is answered -/

/-- The errors of a run that is over. -/
def Outcome.errors : Outcome → List Error
  | .failed error => [error]
  | _ => []

theorem Outcome.errors_cases (outcome : Outcome) :
    outcome.errors = [] ∨ ∃ error, outcome.errors = [error] := by
  cases outcome <;> simp [errors]

/-- The record of a run that came to an outcome. -/
def Journal.concluded (outcome : Outcome) (journal : Journal) : Journal :=
  { journal with
    hadRuntimeError := journal.hadRuntimeError || !outcome.errors.isEmpty
  }.reportAll outcome.errors

@[simp] theorem Journal.concluded_hadError (outcome : Outcome) (journal : Journal) :
    (journal.concluded outcome).hadError = journal.hadError := by
  simp [concluded]

@[simp] theorem Journal.concluded_hadRuntimeError (outcome : Outcome) (journal : Journal) :
    (journal.concluded outcome).hadRuntimeError =
      (journal.hadRuntimeError || !outcome.errors.isEmpty) := by
  simp [concluded]

namespace Session

theorem conclude_outcome (journal : Journal) (outcome : Outcome) (state : State) :
    conclude journal (.outcome outcome) state =
      (.finished outcome.errors, ⟨state, journal.concluded outcome⟩) := by
  cases outcome with
  | value value => simp [conclude, Journal.concluded, Outcome.errors, Journal.reportAll]
  | returned value => simp [conclude, Journal.concluded, Outcome.errors, Journal.reportAll]
  | failed error => simp [conclude, Journal.concluded, Outcome.errors, Journal.reportAll]

/-- A text that is rejected is reported, and nothing else is done. -/
theorem run_rejected {host : Host} {source : String} {session : Session} {errors : List Error}
    (rejected : Program.compile session.state.nextReference source = .error errors) :
    session.run host source = (.finished errors, ⟨(session.setClock host.now).state,
      { session.journal with hadError := true }.reportAll errors⟩) := by
  rw [run_eq_start]
  unfold start
  simp only [setClock, rejected]

/-- The session that runs the text of a request. -/
def placed (request : Request) (session : Session) : Session :=
  match request with
  | .runFile _ path => session.setBaseOf path
  | _ => session

/-- How a session answers, and what becomes of it. -/
inductive Answers (session : Session) (request : Request) : Reply → Session → Prop where
  | rejected {host : Host} {source : String} {errors : List Error}
      (text : request.source? = some source)
      (rejected : Program.compile session.state.nextReference source = .error errors) :
      Answers session request (.ran errors)
        ⟨((session.placed request).setClock host.now).state,
          { session.journal with hadError := true }.reportAll errors⟩
  | accepted {host : Host} {source : String} {program : Program} {outcome : Outcome} {state : State}
      (text : request.source? = some source)
      (accepted : Program.compile session.state.nextReference source = .ok program)
      (ended : ((session.placed request).begin host.now program).run host.files host.patience =
        (.outcome outcome, state)) :
      Answers session request (.ran outcome.errors)
        ⟨state, (session.journal.dump program.stmts).concluded outcome⟩
  | withoutText {reply : Reply} {after : Session} (noText : request.source? = none)
      (asked : session.ask request = some (reply, after)) : Answers session request reply after

theorem setBaseOf_journal (path : String) (session : Session) :
    (session.setBaseOf path).journal = session.journal ∧
      (session.setBaseOf path).state.nextReference = session.state.nextReference := by
  unfold setBaseOf
  split <;> exact ⟨rfl, rfl⟩

theorem placed_journal (request : Request) (session : Session) :
    (session.placed request).journal = session.journal ∧
      (session.placed request).state.nextReference = session.state.nextReference := by
  unfold placed
  split
  · exact setBaseOf_journal _ session
  · exact ⟨rfl, rfl⟩

theorem answers_of_run {request : Request} {session after : Session} {host : Host} {source : String}
    {reply : Reply} (text : request.source? = some source)
    (ran : RunResult.settle ((session.placed request).run host source) = some (reply, after)) :
    Answers session request reply after := by
  obtain ⟨journal, numbers⟩ := session.placed_journal request
  rcases compiled : Program.compile session.state.nextReference source with errors | program
  · rw [run_rejected (numbers.symm ▸ compiled), journal] at ran
    cases ran
    exact .rejected text compiled
  · rw [run_accepted (numbers.symm ▸ compiled), runProgram, journal] at ran
    generalize ended : ((session.placed request).begin host.now program).run host.files
      host.patience = result at ran
    obtain ⟨ending, state⟩ := result
    cases ending with
    | outcome outcome =>
        rw [conclude_outcome] at ran
        cases ran
        exact .accepted text compiled ended
    | exited code => cases ran
    | unfinished => cases ran

/-- A script that cannot be read is all that is answered. -/
theorem ask_unreadable {host : Host} {path : String} {failure : Failure} (session : Session)
    (unread : host.files path = .error failure) :
    session.ask (.runFile host path) = some (.unreadable (.io failure), session) := by
  simp only [ask, runFile_eq, unread]

theorem ask_answers {request : Request} {session after : Session} {reply : Reply}
    (asked : session.ask request = some (reply, after)) : Answers session request reply after := by
  cases request with
  | run host source => exact answers_of_run rfl asked
  | runFile host path =>
      cases read : host.files path with
      | error failure =>
          exact .withoutText (by simp [Request.source?, read, Except.toOption]) asked
      | ok source =>
          simp only [ask, runFile_eq, read] at asked
          exact answers_of_run (by simp [Request.source?, read, Except.toOption]) asked
  | clearMarks => exact .withoutText rfl asked
  | setDebug debug => exact .withoutText rfl asked

/-- Without a text there is nothing to report, and at most the marks are cleared. -/
theorem ask_withoutText {request : Request} {session after : Session} {reply : Reply}
    (noText : request.source? = none) (asked : session.ask request = some (reply, after)) :
    reply.text = "" ∧ (∀ errors, reply ≠ .ran errors) ∧
      after.journal.diagnostics = session.journal.diagnostics := by
  cases request with
  | run host source => cases noText
  | runFile host path =>
      cases read : host.files path with
      | error failure =>
          cases (ask_unreadable session read).symm.trans asked
          exact ⟨rfl, nofun, rfl⟩
      | ok source => simp [Request.source?, read, Except.toOption] at noText
  | clearMarks =>
      cases asked
      exact ⟨rfl, nofun, rfl⟩
  | setDebug debug =>
      cases asked
      exact ⟨rfl, nofun, rfl⟩

/-- Whatever is asked of a reachable session, a reachable session answers. -/
theorem Reachable.ask {request : Request} {session after : Session} {reply : Reply}
    (reachable : session.Reachable) (asked : session.ask request = some (reply, after)) :
    after.Reachable := by
  cases request with
  | run host source =>
      rcases ran : session.run host source with ⟨result, last⟩
      simp only [Session.ask, ran] at asked
      cases result with
      | finished errors =>
          cases asked
          exact .run reachable host source ran
      | exited code => cases asked
      | unfinished => cases asked
  | runFile host path =>
      rcases ran : session.runFile host path with error | ⟨result, last⟩
      · simp only [Session.ask, ran] at asked
        cases asked
        exact reachable
      · simp only [Session.ask, ran] at asked
        cases result with
        | finished errors =>
            cases asked
            exact .runFile reachable host path ran
        | exited code => cases asked
        | unfinished => cases asked
  | clearMarks =>
      cases asked
      exact .clearMarks reachable
  | setDebug debug =>
      cases asked
      exact .setDebug reachable debug

/-- Only a text that is accepted may leave a request without an answer. -/
theorem accepted_of_ask_none {request : Request} {session : Session}
    (asked : session.ask request = none) :
    ∃ source program, request.source? = some source ∧
      Program.compile session.state.nextReference source = .ok program := by
  have ofRun {session' : Session} {host : Host} {source : String}
      (numbers : session'.state.nextReference = session.state.nextReference)
      (ran : RunResult.settle (session'.run host source) = none) :
      ∃ program, Program.compile session.state.nextReference source = .ok program := by
    rcases compiled : Program.compile session.state.nextReference source with errors | program
    · rw [run_rejected (numbers.symm ▸ compiled)] at ran
      cases ran
    · exact ⟨program, rfl⟩
  cases request with
  | run host source =>
      obtain ⟨program, compiled⟩ := ofRun rfl asked
      exact ⟨source, program, rfl, compiled⟩
  | runFile host path =>
      unfold Session.ask at asked
      simp only [runFile_eq] at asked
      cases read : host.files path with
      | error failure =>
          simp only [read] at asked
          cases asked
      | ok source =>
          simp only [read] at asked
          obtain ⟨program, compiled⟩ := ofRun (session.setBaseOf_journal path).2 asked
          exact ⟨source, program, by simp [Request.source?, read, Except.toOption], compiled⟩
  | clearMarks => cases asked
  | setDebug debug => cases asked

/-! ## Errors of runs -/

/-- No error that a machine comes to is static. -/
theorem Reachable.outcome_not_static {request : Request} {session : Session} {host : Host}
    {source : String} {program : Program} {outcome : Outcome} {state : State}
    (reachable : session.Reachable)
    (compiled : Program.compile session.state.nextReference source = .ok program)
    (ended : ((session.placed request).begin host.now program).run host.files host.patience =
      (.outcome outcome, state)) :
    ∀ error ∈ outcome.errors, error.isStatic = false := by
  have atRest : (session.placed request).AtRest := by
    unfold placed
    split
    · exact reachable.atRest.setBaseOf _
    · exact reachable.atRest
  obtain ⟨past, reached⟩ := atRest.reached
    ((session.placed_journal request).2.symm ▸ compiled) (congrArg Prod.fst ended)
  obtain ⟨w, doing, _⟩ := reached.matches_itself
  intro error held
  cases doing with
  | give related =>
      cases related with
      | value => cases held
      | returned => cases held
      | failed related =>
          obtain rfl := List.mem_singleton.mp held
          cases related <;> rfl

end Session

/-! ## Turns -/

/-- Nothing that programs work on has changed. -/
structure State.Untouched (before after : State) : Prop where
  store : after.store = before.store
  env : after.context.env = before.context.env
  depth : after.context.depth = before.context.depth
  hops : after.hops = before.hops
  nextReference : after.nextReference = before.nextReference
  output : after.output = before.output

/-- What holds of every turn. -/
structure Turn.Faithful (turn : Turn) : Prop where
  /-- A text that is rejected is answered with static errors and leaves no trace in the state. -/
  rejected : ∀ errors, turn.IsRejected errors →
    turn.reply = .ran errors ∧ errors ≠ [] ∧ (∀ error ∈ errors, error.isStatic = true) ∧
      turn.before.state.Untouched turn.after.state
  /-- A text that is accepted is answered with at most one error, which is not static. -/
  accepted : ∀ program, turn.IsAccepted program →
    turn.reply = .ran [] ∨ ∃ error, turn.reply = .ran [error] ∧ error.isStatic = false
  /-- A script that cannot be read leaves no trace in the session. -/
  unreadable : ∀ host path failure, turn.request = .runFile host path →
    host.files path = .error failure →
      turn.reply = .unreadable (.io failure) ∧ turn.after = turn.before
  /-- Diagnostics are the program, if it is to be dumped, and the errors of the reply. -/
  diagnostics : turn.after.journal.diagnostics.text =
    turn.before.journal.diagnostics.text ++ turn.dump ++ turn.reply.text

namespace Session

theorem placed_untouched (request : Request) (session : Session) (now : Float) :
    session.state.Untouched ((session.placed request).setClock now).state := by
  cases request with
  | runFile host path =>
      unfold placed setBaseOf
      dsimp only
      split <;> exact ⟨rfl, rfl, rfl, rfl, rfl, rfl⟩
  | run host source => exact ⟨rfl, rfl, rfl, rfl, rfl, rfl⟩
  | clearMarks => exact ⟨rfl, rfl, rfl, rfl, rfl, rfl⟩
  | setDebug debug => exact ⟨rfl, rfl, rfl, rfl, rfl, rfl⟩

/-- An answer takes no diagnostics away, and leaves a sink that takes all. -/
theorem Answers.diagnostics {request : Request} {session after : Session} {reply : Reply}
    (answers : session.Answers request reply after)
    (accepting : session.journal.diagnostics.Accepting) :
    after.journal.diagnostics.Accepting ∧
      after.journal.diagnostics.text = session.journal.diagnostics.text ++
        Turn.dump ⟨session, request, reply, after⟩ ++ reply.text := by
  cases answers with
  | rejected text rejected =>
      have marked : { session.journal with hadError := true }.diagnostics.Accepting :=
        accepting
      obtain ⟨still, written⟩ := Journal.reportAll_text marked _
      refine ⟨still, written.trans ?_⟩
      rw [Turn.IsRejected.dump_eq ⟨_, text, rejected⟩, String.append_empty, Reply.text]
  | @accepted host source program outcome state text accepted ended =>
      obtain ⟨dumped, dump⟩ := Journal.dump_text accepting program.stmts
      have marked : { session.journal.dump program.stmts with
          hadRuntimeError := (session.journal.dump program.stmts).hadRuntimeError ||
            !outcome.errors.isEmpty }.diagnostics.Accepting := dumped
      obtain ⟨still, written⟩ := Journal.reportAll_text marked outcome.errors
      refine ⟨still, written.trans ?_⟩
      rw [Turn.IsAccepted.dump_eq ⟨_, text, accepted⟩, Reply.text, ← dump]
  | withoutText noText asked =>
      obtain ⟨nothing, _, same⟩ := ask_withoutText noText asked
      rw [Turn.dump_of_noText noText, same, nothing]
      exact ⟨accepting, by simp⟩

/-- Every answer of a reachable session is faithful. -/
theorem Reachable.faithful {request : Request} {session after : Session} {reply : Reply}
    (reachable : session.Reachable) (accepting : session.journal.diagnostics.Accepting)
    (asked : session.ask request = some (reply, after)) :
    Turn.Faithful ⟨session, request, reply, after⟩ := by
  have answers := ask_answers asked
  refine ⟨?_, ?_, ?_, (answers.diagnostics accepting).2⟩
  · intro errors isRejected
    cases answers with
    | rejected text rejected =>
        obtain rfl := isRejected.eq ⟨_, text, rejected⟩
        obtain ⟨found, allStatic⟩ := Program.compile_static rejected
        exact ⟨rfl, found, allStatic, session.placed_untouched request _⟩
    | accepted text accepted => exact absurd ⟨_, text, accepted⟩ isRejected.not_isAccepted
    | withoutText noText => exact absurd noText isRejected.hasText
  · intro program isAccepted
    cases answers with
    | rejected text rejected => exact absurd ⟨_, text, rejected⟩ isAccepted.not_isRejected
    | @accepted host source program' outcome state text accepted ended =>
        have runtime := reachable.outcome_not_static accepted ended
        rcases outcome.errors_cases with none | ⟨error, one⟩
        · exact .inl (congrArg Reply.ran none)
        · exact .inr ⟨error, congrArg Reply.ran one, runtime error (one ▸ List.mem_cons_self)⟩
    | withoutText noText => exact absurd noText isAccepted.hasText
  · intro host path failure isScript unread
    obtain rfl : request = .runFile host path := isScript
    cases (ask_unreadable session unread).symm.trans asked
    exact ⟨rfl, rfl⟩

/-! ## Marks -/

theorem marks_withoutText {request : Request} {session after : Session} {reply : Reply}
    (noText : request.source? = none) (asked : session.ask request = some (reply, after)) :
    (after.journal.hadError = true ↔
      request ≠ .clearMarks ∧ session.journal.hadError = true) ∧
    (after.journal.hadRuntimeError = true ↔
      request ≠ .clearMarks ∧ session.journal.hadRuntimeError = true) := by
  cases request with
  | run host source => cases noText
  | runFile host path =>
      cases read : host.files path with
      | error failure =>
          cases (ask_unreadable session read).symm.trans asked
          simp
      | ok source => simp [Request.source?, read, Except.toOption] at noText
  | clearMarks =>
      cases asked
      simp [clearMarks]
  | setDebug debug =>
      cases asked
      simp [setDebug]

/-- A rejected text sets its mark, and only clearing the marks takes it away. -/
theorem Answers.hadError_iff {request : Request} {session after : Session} {reply : Reply}
    (answers : session.Answers request reply after) :
    after.journal.hadError = true ↔
      (∃ errors, Turn.IsRejected ⟨session, request, reply, after⟩ errors) ∨
        (request ≠ .clearMarks ∧ session.journal.hadError = true) := by
  cases answers with
  | rejected text rejected =>
      rw [Journal.reportAll_hadError]
      exact ⟨fun _ => .inl ⟨_, _, text, rejected⟩, fun _ => rfl⟩
  | accepted text accepted ended =>
      rw [Journal.concluded_hadError, Journal.dump_hadError]
      constructor
      · refine fun marked => .inr ⟨?_, marked⟩
        rintro rfl
        cases text
      · rintro (⟨errors, isRejected⟩ | ⟨_, marked⟩)
        · exact absurd ⟨_, text, accepted⟩ isRejected.not_isAccepted
        · exact marked
  | withoutText noText asked =>
      rw [(marks_withoutText noText asked).1]
      refine ⟨.inr, ?_⟩
      rintro (⟨errors, isRejected⟩ | marked)
      · exact absurd noText isRejected.hasText
      · exact marked

/-- A text that fails sets its mark, and only clearing the marks takes it away. -/
theorem Answers.hadRuntimeError_iff {request : Request} {session after : Session} {reply : Reply}
    (answers : session.Answers request reply after) :
    after.journal.hadRuntimeError = true ↔
      Turn.Fails ⟨session, request, reply, after⟩ ∨
        (request ≠ .clearMarks ∧ session.journal.hadRuntimeError = true) := by
  cases answers with
  | rejected text rejected =>
      rw [Journal.reportAll_hadRuntimeError]
      constructor
      · refine fun marked => .inr ⟨?_, marked⟩
        rintro rfl
        cases text
      · rintro (⟨program, error, isAccepted, _⟩ | ⟨_, marked⟩)
        · exact absurd ⟨_, text, rejected⟩ isAccepted.not_isRejected
        · exact marked
  | @accepted host source program outcome state text accepted ended =>
      have notClear : request ≠ .clearMarks := by
        rintro rfl
        cases text
      rw [Journal.concluded_hadRuntimeError, Journal.dump_hadRuntimeError]
      rcases outcome.errors_cases with none | ⟨error, one⟩
      · refine ⟨fun marked => .inr ⟨notClear, by simpa [none] using marked⟩, ?_⟩
        rintro (⟨_, error, _, reply⟩ | ⟨_, marked⟩)
        · cases none.symm.trans (Reply.ran.inj reply)
        · simpa [none] using marked
      · exact ⟨fun _ => .inl ⟨program, error, ⟨source, text, accepted⟩, congrArg Reply.ran one⟩,
          fun _ => by simp [one]⟩
  | withoutText noText asked =>
      rw [(marks_withoutText noText asked).2]
      refine ⟨.inr, ?_⟩
      rintro (⟨program, error, isAccepted, _⟩ | marked)
      · exact absurd noText isAccepted.hasText
      · exact marked

end Session

end Lox
