import Lox.Proofs.Dialogue.Answers

/-!
# Dialogues with a session

A text that is rejected, or a script that cannot be read, leaves no trace in the state; the marks
tell of the texts since they were cleared; diagnostics are written for all that is answered, and
dumping programs changes nothing else.
-/

namespace Lox

/-! ## Switching debug -/

/-- Two sessions that differ in their diagnostics at most. -/
structure Session.Alike (session other : Session) : Prop where
  state : other.state = session.state
  hadError : other.journal.hadError = session.journal.hadError
  hadRuntimeError : other.journal.hadRuntimeError = session.journal.hadRuntimeError

/-- Two turns that differ in diagnostics at most. -/
structure Turn.Alike (turn other : Turn) : Prop where
  request : other.request = turn.request
  reply : other.reply = turn.reply
  before : turn.before.Alike other.before
  after : turn.after.Alike other.after

namespace Session

theorem Alike.refl (session : Session) : session.Alike session := ⟨rfl, rfl, rfl⟩

variable {session other : Session}

theorem Alike.trans {last : Session} (first : session.Alike other) (second : other.Alike last) :
    session.Alike last :=
  ⟨second.state.trans first.state, second.hadError.trans first.hadError,
    second.hadRuntimeError.trans first.hadRuntimeError⟩

theorem Alike.setBaseOf (alike : session.Alike other) (path : String) :
    (session.setBaseOf path).Alike (other.setBaseOf path) := by
  unfold Session.setBaseOf setBase
  rw [alike.state]
  split
  · exact ⟨rfl, alike.hadError, alike.hadRuntimeError⟩
  · exact alike

/-- What a run comes to does not depend on diagnostics. -/
theorem Alike.run (alike : session.Alike other) {host : Host} {source : String} {reply : Reply}
    {after : Session} (ran : RunResult.settle (session.run host source) = some (reply, after)) :
    ∃ last, RunResult.settle (other.run host source) = some (reply, last) ∧ after.Alike last := by
  rcases compiled : Program.compile session.state.nextReference source with errors | program
  · rw [run_rejected compiled] at ran
    rw [run_rejected (alike.state.symm ▸ compiled)]
    cases ran
    exact ⟨_, rfl, by simp only [setClock, alike.state], by simp, by simp [alike.hadRuntimeError]⟩
  · rw [run_accepted compiled, runProgram] at ran
    rw [run_accepted (alike.state.symm ▸ compiled), runProgram]
    have same : other.begin host.now program = session.begin host.now program := by
      simp only [begin, setClock, alike.state]
    rw [same]
    generalize (session.begin host.now program).run host.files host.patience = result at ran ⊢
    obtain ⟨ending, state⟩ := result
    cases ending with
    | outcome outcome =>
        rw [conclude_outcome] at ran ⊢
        cases ran
        exact ⟨_, rfl, rfl, by simp [alike.hadError], by simp [alike.hadRuntimeError]⟩
    | exited code => cases ran
    | unfinished => cases ran

/-- Sessions that are alike answer the same. -/
theorem Alike.ask (alike : session.Alike other) {request : Request} {reply : Reply}
    {after : Session} (asked : session.ask request = some (reply, after)) :
    ∃ last, other.ask request = some (reply, last) ∧ after.Alike last := by
  cases request with
  | run host source => exact alike.run asked
  | runFile host path =>
      cases read : host.files path with
      | error failure =>
          cases (ask_unreadable session read).symm.trans asked
          exact ⟨other, ask_unreadable other read, alike⟩
      | ok source =>
          simp only [Session.ask, runFile_eq, read] at asked ⊢
          exact (alike.setBaseOf path).run asked
  | clearMarks =>
      cases asked
      exact ⟨_, rfl, alike.state, rfl, rfl⟩
  | setDebug debug =>
      cases asked
      exact ⟨_, rfl, alike.state, alike.hadError, alike.hadRuntimeError⟩

namespace Dialogue

variable {first : Session} {turns : List Turn}

/-- Any number of times debug may be switched. -/
theorem setDebugs (dialogue : first.Dialogue turns session) {switches : List Request}
    (all : ∀ request ∈ switches, request.setsDebug = true) :
    ∃ more last, first.Dialogue (turns ++ more) last ∧ more.map Turn.request = switches ∧
      (∀ turn ∈ more, turn.request.setsDebug = true) ∧ session.Alike last := by
  induction switches generalizing turns session with
  | nil =>
      exact ⟨[], session, by simpa using dialogue, rfl, fun _ none => (List.not_mem_nil none).elim,
        .refl session⟩
  | cons request switches ih =>
      obtain ⟨debug, rfl⟩ := Request.eq_setDebug (all request List.mem_cons_self)
      have asked : session.ask (.setDebug debug) = some (.done, session.setDebug debug) := rfl
      obtain ⟨more, last, later, requests, only, alike⟩ :=
        ih (dialogue.ask asked) fun request held => all request (List.mem_cons_of_mem _ held)
      refine ⟨_ :: more, last, by simpa using later, by simp [requests], ?_,
        ⟨alike.state, alike.hadError, alike.hadRuntimeError⟩⟩
      exact List.forall_mem_cons.mpr ⟨rfl, only⟩

/-- However debug is switched, the other requests are answered the same. -/
theorem alike {first' : Session} (dialogue : first.Dialogue turns session)
    (alike : first.Alike first') {requests : List Request}
    (same : requests.filter (!·.setsDebug) =
      (turns.map Turn.request).filter (!·.setsDebug)) :
    ∃ others last, first'.Dialogue others last ∧ others.map Turn.request = requests ∧
      List.Forall₂ Turn.Alike (turns.filter (!·.request.setsDebug))
        (others.filter (!·.request.setsDebug)) ∧ session.Alike last := by
  induction dialogue generalizing requests with
  | start =>
      have all : ∀ request ∈ requests, request.setsDebug = true := by
        simpa [List.filter_eq_nil_iff] using same
      obtain ⟨more, last, later, requests, only, alike'⟩ := setDebugs .start all
      have none : more.filter (!·.request.setsDebug) = [] :=
        List.filter_eq_nil_iff.mpr fun turn held => by simp [only turn held]
      refine ⟨more, last, later, requests, ?_, alike.trans alike'⟩
      rw [none]
      exact .nil
  | @ask turns session after request reply earlier asked ih =>
      by_cases switch : request.setsDebug = true
      · have same : requests.filter (!·.setsDebug) =
            (turns.map Turn.request).filter (!·.setsDebug) := by
          simpa [switch] using same
        obtain ⟨others, last, dialogue, requests, each, alike⟩ := ih same
        refine ⟨others, last, dialogue, requests, by simpa [switch] using each, ?_⟩
        obtain ⟨debug, rfl⟩ := Request.eq_setDebug switch
        cases asked
        exact ⟨alike.state, alike.hadError, alike.hadRuntimeError⟩
      · have same : requests.filter (!·.setsDebug) =
            (turns.map Turn.request).filter (!·.setsDebug) ++ [request] := by
          simpa [switch] using same
        -- The other requests are those before, some switches, this request, and more switches.
        obtain ⟨before, behind, rfl, shared, rest⟩ := List.filter_eq_append_iff.mp same
        obtain ⟨switches, more, rfl, all, _, rest⟩ := List.filter_eq_cons_iff.mp rest
        have switched : (before ++ switches).filter (!·.setsDebug) =
            (turns.map Turn.request).filter (!·.setsDebug) := by
          rw [List.filter_append, shared, List.filter_eq_nil_iff.mpr all, List.append_nil]
        obtain ⟨others, middle, dialogue, requests, each, alike⟩ := ih switched
        obtain ⟨next, asked', alikeNext⟩ := alike.ask asked
        have turn : Turn.Alike ⟨session, request, reply, after⟩ ⟨middle, request, reply, next⟩ :=
          ⟨rfl, rfl, alike, alikeNext⟩
        have switching : ∀ request ∈ more, request.setsDebug = true := by
          simpa [List.filter_eq_nil_iff] using rest
        obtain ⟨later, last, dialogue, requests', only, alikeLast⟩ :=
          (dialogue.ask asked').setDebugs switching
        have none : later.filter (!·.request.setsDebug) = [] :=
          List.filter_eq_nil_iff.mpr fun turn held => by simp [only turn held]
        refine ⟨_, last, dialogue, by simp [requests, requests'], ?_, alikeNext.trans alikeLast⟩
        rw [List.filter_append, List.filter_append, none, List.append_nil, List.filter_append]
        exact List.rel_append each (by simpa [switch] using turn)

/-! ## Whole dialogues -/

theorem reachable (dialogue : first.Dialogue turns session) (start : first.Reachable) :
    session.Reachable := by
  induction dialogue with
  | start => exact start
  | ask earlier asked ih => exact ih.ask asked

theorem accepting (dialogue : first.Dialogue turns session)
    (start : first.journal.diagnostics.Accepting) :
    session.journal.diagnostics.Accepting := by
  induction dialogue with
  | start => exact start
  | ask earlier asked ih => exact ((ask_answers asked).diagnostics ih).1

theorem faithful (dialogue : first.Dialogue turns session) (start : first.Reachable)
    (accepting : first.journal.diagnostics.Accepting) : ∀ turn ∈ turns, turn.Faithful := by
  induction dialogue with
  | start => exact fun _ none => (List.not_mem_nil none).elim
  | ask earlier asked ih =>
      intro turn held
      rcases List.mem_append.mp held with before | latest
      · exact ih turn before
      · rw [List.mem_singleton.mp latest]
        exact (earlier.reachable start).faithful (earlier.accepting accepting) asked

end Dialogue

end Session

/-- Some turn is of a kind, and the marks were not cleared after it. -/
def SinceCleared (P : Turn → Prop) (turns : List Turn) : Prop :=
  ∃ earlier turn later, turns = earlier ++ turn :: later ∧ P turn ∧
    ∀ cleared ∈ later, cleared.request ≠ .clearMarks

theorem sinceCleared_nil (P : Turn → Prop) : ¬ SinceCleared P [] := by
  rintro ⟨earlier, turn, later, split, _⟩
  simp at split

theorem sinceCleared_append {P : Turn → Prop} {turns : List Turn} {turn : Turn} :
    SinceCleared P (turns ++ [turn]) ↔
      P turn ∨ (turn.request ≠ .clearMarks ∧ SinceCleared P turns) := by
  constructor
  · rintro ⟨earlier, found, later, split, holds, kept⟩
    rcases List.eq_nil_or_concat later with rfl | ⟨later, last, rfl⟩
    · obtain ⟨-, same⟩ := List.append_inj' split rfl
      cases same
      exact .inl holds
    · have split : turns ++ [turn] = (earlier ++ found :: later) ++ [last] := by simpa using split
      obtain ⟨rfl, same⟩ := List.append_inj' split rfl
      cases same
      rw [List.concat_eq_append, List.forall_mem_append] at kept
      exact .inr ⟨kept.2 turn List.mem_cons_self, earlier, found, later, rfl, holds, kept.1⟩
  · rintro (holds | ⟨keeps, earlier, found, later, rfl, holds, kept⟩)
    · exact ⟨turns, turn, [], rfl, holds, fun _ none => (List.not_mem_nil none).elim⟩
    · refine ⟨earlier, found, later ++ [turn], by simp, holds, ?_⟩
      exact List.forall_mem_append.mpr ⟨kept, List.forall_mem_singleton.mpr keeps⟩

namespace Session.Dialogue

variable {first session : Session} {turns : List Turn}

theorem hadError_iff (dialogue : first.Dialogue turns session)
    (clear : first.journal.hadError = false) :
    session.journal.hadError = true ↔
      SinceCleared (fun turn => ∃ errors, turn.IsRejected errors) turns := by
  induction dialogue with
  | start => simp [clear, sinceCleared_nil]
  | ask earlier asked ih => rw [(ask_answers asked).hadError_iff, sinceCleared_append, ih]

theorem hadRuntimeError_iff (dialogue : first.Dialogue turns session)
    (clear : first.journal.hadRuntimeError = false) :
    session.journal.hadRuntimeError = true ↔ SinceCleared Turn.Fails turns := by
  induction dialogue with
  | start => simp [clear, sinceCleared_nil]
  | ask earlier asked ih => rw [(ask_answers asked).hadRuntimeError_iff, sinceCleared_append, ih]

end Session.Dialogue

/-- Ask one thing after the other. -/
def Session.askAll : List Request → List Turn → Session → Option (List Turn × Session)
  | [], turns, session => some (turns, session)
  | request :: requests, turns, session =>
    match session.ask request with
    | none => none
    | some (reply, after) =>
      askAll requests (turns ++ [⟨session, request, reply, after⟩]) after

theorem Session.Dialogue.of_askAll {first session last : Session} {requests : List Request}
    {turns all : List Turn} (dialogue : first.Dialogue turns session)
    (asked : Session.askAll requests turns session = some (all, last)) :
    first.Dialogue all last := by
  induction requests generalizing turns session with
  | nil =>
      cases asked
      exact dialogue
  | cons request requests ih =>
      unfold Session.askAll at asked
      split at asked
      · cases asked
      · next answer => exact ih (dialogue.ask answer) asked

/-- A text that fails, a text that is rejected and a script that is not there. -/
def faultyRequests : List Request :=
  [.setDebug true, .run bareHost "nil();", .clearMarks, .run bareHost "print ;",
    .setDebug false, .runFile bareHost "missing"]

end Lox
