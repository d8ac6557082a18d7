import Lox.Proofs.Prompt.Lines
import Lox.Proofs.Dialogue.Answers
import Lox.Proofs.Writes

/-!
# The prompt runs every line once

A line that is not blank belongs to one entry, and every entry is run once: at its first line that
does not keep it open, at a blank line, or at the end of the input.  Which entries there are and
what is shown before each line is told by the lines alone, whatever comes of running the entries.
-/

namespace Lox

/-! ## Entries -/

/-- A line with nothing in it but blanks, which belongs to no entry. -/
def isBlankLine (line : List Char) : Bool := isBlankText (trimLineEnd line)

/-- A line that keeps its entry open. -/
def keepsOpen (line : List Char) : Bool := continuesBlock (trimLineEnd line)

/-- What a line adds to its entry. -/
def entryText (line : List Char) : List Char := trimLineEnd line ++ ['\n']

/-- All lines that are not blank, each without what ended it and with one newline behind it. -/
def enteredText (lines : List (List Char)) : List Char :=
  (lines.filter (!isBlankLine ·)).flatMap entryText

/--
The entries that lines make.  An entry is made of lines that follow one another, none of them blank.
It goes on as long as its lines keep it open, up to a blank line or to the end of the input at most.
-/
inductive Entries : List (List Char) → List (List Char) → Prop where
  | none : Entries [] []
  | blank {line : List Char} {lines entries : List (List Char)}
      (isBlank : isBlankLine line = true) (later : Entries lines entries) :
      Entries (line :: lines) entries
  | entry {opening : List (List Char)} {last : List Char} {lines entries : List (List Char)}
      (opens : ∀ line ∈ opening, isBlankLine line = false ∧ keepsOpen line = true)
      (inside : isBlankLine last = false)
      (ends : keepsOpen last = false ∨ lines.head?.all isBlankLine = true)
      (later : Entries lines entries) :
      Entries (opening ++ last :: lines) ((opening ++ [last]).flatMap entryText :: entries)

/-! ## Readings -/

/-- One reading of a prompt. -/
structure Reading where
  /-- What is shown before. -/
  shown : String
  /-- The line that is read; none at the end of the input. -/
  line : Option (List Char)
  /-- The entry that is run then. -/
  entry : Option (List Char)

/-- The lines of some readings. -/
def linesRead (readings : List Reading) : List (List Char) := readings.filterMap Reading.line

/-- The entries that are run at some readings. -/
def entriesRun (readings : List Reading) : List (List Char) := readings.filterMap Reading.entry

/--
An entry is run at its first line that does not keep it open.  The text that is pending, if there is
any, is run as it is at a blank line and at the end of the input.
-/
def Reading.Closes (reading : Reading) (pending entry : List Char) : Prop :=
  (∃ line, reading.line = some line ∧ isBlankLine line = false ∧ keepsOpen line = false ∧
    entry = pending ++ entryText line) ∨
  (reading.line.all isBlankLine = true ∧ pending ≠ [] ∧ entry = pending)

/-- What a prompt with some text pending shows, and which entry it runs, if it runs one. -/
structure Reading.IsTurn (reading : Reading) (pending : List Char) : Prop where
  shown : reading.shown = if pending = [] then ">>> " else "... "
  entry : ∀ entry, reading.entry = some entry ↔ reading.Closes pending entry

namespace Prompt

/-- What a prompt goes through, from the entry that it keeps to the end of the input. -/
def readings : List (List Char) → Prompt → List Reading
  | [], prompt => [⟨prompt.text, none, prompt.close.1⟩]
  | line :: lines, prompt =>
    ⟨prompt.text, some line, (prompt.feed line).1⟩ :: readings lines (prompt.feed line).2

variable {line : List Char} {prompt : Prompt}

theorem isOpen_eq_false_iff : prompt.isOpen = false ↔ prompt.entry = [] := by
  simp [isOpen]

theorem text_eq (prompt : Prompt) :
    prompt.text = if prompt.entry = [] then ">>> " else "... " := by
  unfold text promptText
  by_cases isEmpty : prompt.entry = []
  · rw [isOpen_eq_false_iff.mpr isEmpty, if_pos isEmpty]
    rfl
  · rw [if_neg isEmpty, if_pos (eq_true_of_ne_false (mt isOpen_eq_false_iff.mp isEmpty))]

theorem close_eq (prompt : Prompt) :
    prompt.close = (if prompt.entry = [] then none else some prompt.entry, start) := by
  unfold close
  by_cases isEmpty : prompt.entry = []
  · rw [isOpen_eq_false_iff.mpr isEmpty, if_pos isEmpty]
    rfl
  · rw [if_neg isEmpty, if_pos (eq_true_of_ne_false (mt isOpen_eq_false_iff.mp isEmpty))]

theorem feed_blank (isBlank : isBlankLine line = true) (prompt : Prompt) :
    prompt.feed line = prompt.close := if_pos isBlank

theorem entryText_ne_nil (line : List Char) : entryText line ≠ [] := by simp [entryText]

theorem feed_open (inside : isBlankLine line = false) (opens : keepsOpen line = true)
    (prompt : Prompt) : prompt.feed line = (none, ⟨prompt.entry ++ entryText line⟩) := by
  unfold feed entryText
  rw [← List.append_assoc]
  exact (if_neg (Bool.eq_false_iff.mp inside)).trans (if_pos opens)

theorem feed_closed (inside : isBlankLine line = false) (closes : keepsOpen line = false)
    (prompt : Prompt) : prompt.feed line = (some (prompt.entry ++ entryText line), start) := by
  have fed : prompt.feed line = close ⟨prompt.entry ++ entryText line⟩ := by
    unfold feed entryText
    rw [← List.append_assoc]
    exact (if_neg (Bool.eq_false_iff.mp inside)).trans (if_neg (Bool.eq_false_iff.mp closes))
  rw [fed, close_eq, if_neg]
  exact List.append_ne_nil_of_right_ne_nil _ (entryText_ne_nil line)

/-- A line that is fed to a prompt is run or kept, with all that was kept before it. -/
theorem feed_eq (line : List Char) (prompt : Prompt) :
    (prompt.feed line).1.getD [] ++ (prompt.feed line).2.entry =
      prompt.entry ++ enteredText [line] := by
  unfold enteredText
  cases isBlank : isBlankLine line with
  | true =>
      rw [feed_blank isBlank, close_eq]
      by_cases isEmpty : prompt.entry = [] <;> simp [isBlank, isEmpty, start]
  | false =>
      cases opens : keepsOpen line with
      | true => simp [feed_open isBlank opens, isBlank]
      | false => simp [feed_closed isBlank opens, isBlank, start]

theorem closes_close_iff (prompt : Prompt) (entry : List Char) :
    prompt.close.1 = some entry ↔ prompt.entry ≠ [] ∧ entry = prompt.entry := by
  rw [close_eq]
  by_cases isEmpty : prompt.entry = []
  · simp [isEmpty]
  · rw [if_neg isEmpty, Option.some.injEq, and_iff_right isEmpty]
    exact eq_comm

theorem closes_feed_iff (line : List Char) (prompt : Prompt) (entry : List Char) :
    (prompt.feed line).1 = some entry ↔
      Reading.Closes ⟨prompt.text, some line, (prompt.feed line).1⟩ prompt.entry entry := by
  unfold Reading.Closes
  cases isBlank : isBlankLine line with
  | true => simp [feed_blank isBlank, isBlank, closes_close_iff]
  | false =>
      cases opens : keepsOpen line with
      | true => simp [feed_open isBlank opens, isBlank, opens]
      | false =>
          rw [feed_closed isBlank opens, Option.some.injEq, eq_comm]
          simp [isBlank, opens]

theorem line_readings (lines : List (List Char)) (prompt : Prompt) :
    (readings lines prompt).map Reading.line = lines.map some ++ [none] := by
  induction lines generalizing prompt with
  | nil => rfl
  | cons line lines ih => simp [readings, ih]

theorem enteredText_cons (line : List Char) (lines : List (List Char)) :
    enteredText (line :: lines) = enteredText [line] ++ enteredText lines := by
  rw [enteredText, ← List.singleton_append, List.filter_append, List.flatMap_append]
  rfl

theorem flatten_entriesRun_cons (reading : Reading) (readings : List Reading) :
    (entriesRun (reading :: readings)).flatten =
      reading.entry.getD [] ++ (entriesRun readings).flatten := by
  unfold entriesRun
  rw [List.filterMap_cons]
  cases reading.entry <;> rfl

/-- Nothing that is entered is lost, doubled or moved. -/
theorem flatten_readings (lines : List (List Char)) (prompt : Prompt) :
    (entriesRun (readings lines prompt)).flatten = prompt.entry ++ enteredText lines := by
  induction lines generalizing prompt with
  | nil =>
      rw [readings, flatten_entriesRun_cons, close_eq]
      by_cases isEmpty : prompt.entry = [] <;> simp [isEmpty, entriesRun, enteredText]
  | cons line lines ih =>
      rw [readings, flatten_entriesRun_cons, ih, ← List.append_assoc, feed_eq, List.append_assoc,
        ← enteredText_cons]

/-- At each reading the text that was entered has been run, but for what the prompt still keeps. -/
theorem isTurn_readings {lines : List (List Char)} {prompt : Prompt} {front back : List Reading}
    {reading : Reading} (split : readings lines prompt = front ++ reading :: back) :
    ∃ pending, prompt.entry ++ enteredText (linesRead front) =
        (entriesRun front).flatten ++ pending ∧ reading.IsTurn pending := by
  induction front generalizing lines prompt with
  | nil =>
      refine ⟨prompt.entry, by simp [linesRead, enteredText, entriesRun], ?_⟩
      cases lines with
      | nil =>
          obtain ⟨rfl, _⟩ := List.cons.inj split
          exact ⟨text_eq prompt, fun entry => by simp [Reading.Closes, closes_close_iff]⟩
      | cons line lines =>
          obtain ⟨rfl, _⟩ := List.cons.inj split
          exact ⟨text_eq prompt, closes_feed_iff line prompt⟩
  | cons first front ih =>
      cases lines with
      | nil =>
          have rest := (List.cons.inj split).2
          cases front <;> cases rest
      | cons line lines =>
          obtain ⟨rfl, later⟩ := List.cons.inj split
          obtain ⟨pending, kept, isTurn⟩ := ih later
          refine ⟨pending, ?_, isTurn⟩
          rw [flatten_entriesRun_cons, List.append_assoc, ← kept, ← List.append_assoc, feed_eq,
            List.append_assoc, ← enteredText_cons]
          rfl

/-- Lines that keep an entry open are one if nothing follows that they could go on with. -/
theorem entries_of_open {opening lines entries : List (List Char)}
    (opens : ∀ line ∈ opening, isBlankLine line = false ∧ keepsOpen line = true)
    (nonempty : opening ≠ []) (ends : lines.head?.all isBlankLine = true)
    (later : Entries lines entries) :
    Entries (opening ++ lines) (opening.flatMap entryText :: entries) := by
  obtain ⟨front, last, rfl⟩ := (List.eq_nil_or_concat opening).resolve_left nonempty
  rw [List.concat_eq_append] at opens ⊢
  obtain ⟨before, atLast⟩ := List.forall_mem_append.mp opens
  rw [List.append_assoc]
  exact .entry before (atLast last List.mem_cons_self).1 (.inr ends) later

theorem flatMap_entryText_ne_nil {opening : List (List Char)} (nonempty : opening ≠ []) :
    opening.flatMap entryText ≠ [] := by
  cases opening with
  | nil => exact absurd rfl nonempty
  | cons line opening => exact List.append_ne_nil_of_left_ne_nil (entryText_ne_nil line) _

/-- The entries that a prompt runs are those that the lines make. -/
theorem entries_readings (opening : List (List Char))
    (opens : ∀ line ∈ opening, isBlankLine line = false ∧ keepsOpen line = true)
    (lines : List (List Char)) :
    Entries (opening ++ lines) (entriesRun (readings lines ⟨opening.flatMap entryText⟩)) := by
  induction lines generalizing opening with
  | nil =>
      rw [readings, close_eq]
      by_cases isEmpty : opening = []
      · subst isEmpty
        exact .none
      · rw [if_neg (flatMap_entryText_ne_nil isEmpty)]
        exact entries_of_open opens isEmpty rfl .none
  | cons line lines ih =>
      have later : Entries lines (entriesRun (readings lines start)) :=
        ih [] fun _ none => (List.not_mem_nil none).elim
      rw [readings]
      cases isBlank : isBlankLine line with
      | true =>
          rw [feed_blank isBlank, close_eq]
          by_cases isEmpty : opening = []
          · subst isEmpty
            exact .blank isBlank later
          · rw [if_neg (flatMap_entryText_ne_nil isEmpty)]
            exact entries_of_open opens isEmpty isBlank (.blank isBlank later)
      | false =>
          cases keeps : keepsOpen line with
          | true =>
              rw [feed_open isBlank keeps]
              have longer := ih (opening ++ [line])
                (List.forall_mem_append.mpr ⟨opens, List.forall_mem_singleton.mpr ⟨isBlank, keeps⟩⟩)
              rw [List.append_assoc, List.flatMap_append] at longer
              simpa [entriesRun] using longer
          | false =>
              rw [feed_closed isBlank keeps]
              have isEntry := Entries.entry opens isBlank (.inl keeps) later
              rw [List.flatMap_append] at isEntry
              simpa [entriesRun] using isEntry

/-- Lines that keep an entry open are kept, and nothing is run at them. -/
theorem entriesRun_readings_append {opening : List (List Char)}
    (opens : ∀ line ∈ opening, isBlankLine line = false ∧ keepsOpen line = true)
    (lines : List (List Char)) (prompt : Prompt) :
    entriesRun (readings (opening ++ lines) prompt) =
      entriesRun (readings lines ⟨prompt.entry ++ opening.flatMap entryText⟩) := by
  induction opening generalizing prompt with
  | nil => rw [List.flatMap_nil, List.append_nil, List.nil_append]
  | cons line opening ih =>
      obtain ⟨⟨inside, keeps⟩, opens⟩ := List.forall_mem_cons.mp opens
      rw [List.cons_append, readings, feed_open inside keeps, List.flatMap_cons,
        ← List.append_assoc, ← ih opens]
      rfl

/-- An entry that is pending is run if nothing follows that it could go on with. -/
theorem entriesRun_readings_of_ends {lines : List (List Char)}
    (ends : lines.head?.all isBlankLine = true) (prompt : Prompt) (pending : prompt.entry ≠ []) :
    entriesRun (readings lines prompt) = prompt.entry :: entriesRun (readings lines start) := by
  cases lines with
  | nil =>
      rw [readings, close_eq, if_neg pending]
      rfl
  | cons line lines =>
      rw [readings, readings, feed_blank ends, feed_blank ends, close_eq, if_neg pending]
      rfl

/-- Lines make one sequence of entries, and a prompt runs it. -/
theorem entries_iff {lines entries : List (List Char)} :
    Entries lines entries ↔ entries = entriesRun (readings lines start) := by
  constructor
  · intro made
    induction made with
    | none => rfl
    | blank isBlank later ih =>
        rw [readings, feed_blank isBlank, ih]
        rfl
    | @entry opening last lines entries opens inside ends later ih =>
        rw [entriesRun_readings_append opens, readings]
        cases closes : keepsOpen last with
        | false =>
            rw [feed_closed inside closes, ih, List.flatMap_append]
            simp [entriesRun, start]
        | true =>
            have ends := ends.resolve_left (ne_false_of_eq_true closes)
            rw [feed_open inside closes, ih, List.flatMap_append]
            have pending : opening.flatMap entryText ++ entryText last ≠ [] :=
              List.append_ne_nil_of_right_ne_nil _ (entryText_ne_nil last)
            have runs := entriesRun_readings_of_ends ends ⟨_⟩ pending
            simpa [entriesRun, start] using runs.symm
  · rintro rfl
    exact entries_readings [] (fun _ none => (List.not_mem_nil none).elim) lines

end Prompt

/-! ## Running the entries -/

/-- Names that are bound stay bound. -/
def Store.KeepsBound (store later : Store) : Prop :=
  ∀ frame name, (store.valueIn? frame name).isSome = true →
    (later.valueIn? frame name).isSome = true

namespace Store.KeepsBound

variable {store later last : Store}

theorem refl (store : Store) : store.KeepsBound store := fun _ _ bound => bound

theorem trans (first : store.KeepsBound later) (next : later.KeepsBound last) :
    store.KeepsBound last := fun frame name bound => next frame name (first frame name bound)

theorem of_changedBy {binds sets : Nat → String → Value → Prop}
    (changed : store.ChangedBy binds sets later) : store.KeepsBound later := by
  intro frame name bound
  rcases changed.bindings frame name with same | ⟨value, _, found⟩
  · rwa [same]
  · rw [found]
    rfl

theorem run (files : String → Except Failure String) (steps : Nat) (m : Machine) :
    m.state.store.KeepsBound (m.run files steps).2.store := by
  induction steps generalizing m with
  | zero => exact refl _
  | succ steps ih =>
      rw [Machine.run_succ]
      split
      · exact refl _
      · exact (of_changedBy (m.changes_advance files)).trans (ih _)

end Store.KeepsBound

theorem Session.state_conclude (journal : Journal) (ending : Machine.Ending) (state : State) :
    (Session.conclude journal ending state).2.state = state := by
  rcases ending with (_ | _ | _) | _ | _ <;> rfl

/-- Running a source takes no name away, whatever comes of it. -/
theorem Session.keepsBound_run (host : Host) (source : String) (session : Session) :
    session.state.store.KeepsBound (session.run host source).2.state.store := by
  cases compiled : Program.compile session.state.nextReference source with
  | error errors =>
      rw [run_rejected compiled]
      exact .refl _
  | ok program =>
      rw [run_accepted compiled, runProgram, state_conclude]
      exact .run host.files host.patience (session.begin host.now program)

/-- An entry that is run to its end: the sessions before and after, and the errors of the run. -/
structure EntryRun where
  entry : List Char
  before : Session
  errors : List Error
  after : Session

/--
A session goes through some readings.  Before each of them the prompt is shown; an entry that is
closed is run, with all marks cleared, to its end.
-/
inductive Performs (host : Host) : Session → List Reading → List EntryRun → Session → Prop where
  | done (session : Session) : Performs host session [] [] session
  | wait {session last : Session} {reading : Reading} {readings : List Reading}
      {runs : List EntryRun} (isOpen : reading.entry = none)
      (later : Performs host (session.say reading.shown) readings runs last) :
      Performs host session (reading :: readings) runs last
  | run {session after last : Session} {reading : Reading} {readings : List Reading}
      {entry : List Char} {errors : List Error} {runs : List EntryRun}
      (closes : reading.entry = some entry)
      (ran : (session.say reading.shown).clearMarks.run host (String.ofList entry) =
        (.finished errors, after))
      (later : Performs host after readings runs last) :
      Performs host session (reading :: readings)
        (⟨entry, (session.say reading.shown).clearMarks, errors, after⟩ :: runs) last

/-- One session has the state of another, but for what was written to the output. -/
def Session.Continues (session earlier : Session) : Prop :=
  session.state = { earlier.state with output := session.state.output }

/-- A run of an entry starts without marks and takes no name away. -/
structure EntryRun.Sound (host : Host) (run : EntryRun) : Prop where
  ran : run.before.run host (String.ofList run.entry) = (.finished run.errors, run.after)
  hadError : run.before.journal.hadError = false
  hadRuntimeError : run.before.journal.hadRuntimeError = false
  keepsBound : run.before.state.store.KeepsBound run.after.state.store

namespace Performs

variable {host : Host} {session last : Session} {readings : List Reading} {runs : List EntryRun}

theorem entries (performs : Performs host session readings runs last) :
    runs.map EntryRun.entry = entriesRun readings := by
  unfold entriesRun
  induction performs with
  | done session => rfl
  | wait isOpen later ih => rw [List.filterMap_cons, isOpen, ih]
  | run closes ran later ih => rw [List.filterMap_cons, closes, List.map_cons, ih]

theorem sound (performs : Performs host session readings runs last) :
    ∀ run ∈ runs, run.Sound host := by
  induction performs with
  | done session => exact fun _ none => (List.not_mem_nil none).elim
  | wait isOpen later ih => exact ih
  | @run session _ _ reading _ entry _ _ closes ran later ih =>
      refine List.forall_mem_cons.mpr ⟨⟨ran, rfl, rfl, ?_⟩, ih⟩
      have keeps := Session.keepsBound_run host (String.ofList entry)
        (session.say reading.shown).clearMarks
      rwa [ran] at keeps

/-- The first entry is run in the state that the session starts with. -/
theorem continues {run : EntryRun} (performs : Performs host session readings (run :: runs) last) :
    run.before.Continues session := by
  generalize all : run :: runs = others at performs
  induction performs with
  | done session => cases all
  | wait isOpen later ih => exact (ih all).trans rfl
  | run closes ran later ih =>
      cases all
      rfl

/-- Each entry is run in the state that the one before it left. -/
theorem chain (performs : Performs host session readings runs last) {front back : List EntryRun}
    {run next : EntryRun} (split : runs = front ++ run :: next :: back) :
    next.before.Continues run.after := by
  induction performs generalizing front with
  | done session => cases front <;> cases split
  | wait isOpen later ih => exact ih split
  | run closes ran later ih =>
      cases front with
      | nil =>
          obtain ⟨rfl, rfl⟩ := List.cons.inj split
          exact later.continues
      | cons first front => exact ih (List.cons.inj split).2

end Performs

/-! ## The command -/

/-- The run of an entry with which a session does not go through all readings, and its answer. -/
def StopsAt (host : Host) (session : Session) (readings : List Reading)
    (answer : RunResult × Session) : Prop :=
  ∃ front reading back entry runs middle, readings = front ++ reading :: back ∧
    Performs host session front runs middle ∧ reading.entry = some entry ∧
    (middle.say reading.shown).clearMarks.run host (String.ofList entry) = answer

section Command

variable {host : Host} {session : Session} {reading : Reading} {readings : List Reading}
  {answer : RunResult × Session}

theorem StopsAt.wait (isOpen : reading.entry = none)
    (stops : StopsAt host (session.say reading.shown) readings answer) :
    StopsAt host session (reading :: readings) answer := by
  obtain ⟨front, last, back, entry, runs, middle, rfl, performs, closes, ran⟩ := stops
  exact ⟨reading :: front, last, back, entry, runs, middle, rfl, .wait isOpen performs, closes, ran⟩

theorem StopsAt.run {entry : List Char} {errors : List Error} {after : Session}
    (closes : reading.entry = some entry)
    (ran : (session.say reading.shown).clearMarks.run host (String.ofList entry) =
      (.finished errors, after))
    (stops : StopsAt host after readings answer) :
    StopsAt host session (reading :: readings) answer := by
  obtain ⟨front, last, back, entry, runs, middle, rfl, performs, closes', ran'⟩ := stops
  exact ⟨reading :: front, last, back, entry, _, middle, rfl, .run closes ran performs, closes',
    ran'⟩

theorem StopsAt.here {entry : List Char} (closes : reading.entry = some entry)
    (ran : (session.say reading.shown).clearMarks.run host (String.ofList entry) = answer) :
    StopsAt host session (reading :: readings) answer :=
  ⟨[], reading, readings, entry, [], session, rfl, .done session, closes, ran⟩

/-- A command that goes through readings to its end, or to an entry that is not run to its end. -/
inductive GoesThrough (host : Host) (session : Session) (readings : List Reading)
    (answer : UInt8 × Session) : Prop where
  | all {runs : List EntryRun} {last : Session}
      (performs : Performs host session readings runs last) (ends : answer = (0, last.say "\n"))
  | exited {code : UInt8} {after : Session}
      (stops : StopsAt host session readings (.exited code, after)) (ends : answer = (code, after))
  | unfinished {after : Session} (stops : StopsAt host session readings (.unfinished, after))

/-- What comes of a reading, if the rest of the readings is gone through from what it leaves. -/
theorem GoesThrough.cons {final : UInt8 × Session}
    (waits : reading.entry = none → GoesThrough host (session.say reading.shown) readings final)
    (runs : ∀ entry, reading.entry = some entry →
      match (session.say reading.shown).clearMarks.run host (String.ofList entry) with
      | (.finished _, after) => GoesThrough host after readings final
      | (.exited code, after) => final = (code, after)
      | (.unfinished, _) => True) :
    GoesThrough host session (reading :: readings) final := by
  cases closes : reading.entry with
  | none =>
      cases waits closes with
      | all performs ends => exact .all (.wait closes performs) ends
      | exited stops ends => exact .exited (stops.wait closes) ends
      | unfinished stops => exact .unfinished (stops.wait closes)
  | some entry =>
      have ends := runs entry closes
      split at ends
      · next errors after ran =>
          cases ends with
          | all performs ends => exact .all (.run closes ran performs) ends
          | exited stops ends => exact .exited (stops.run closes ran) ends
          | unfinished stops => exact .unfinished (stops.run closes ran)
      · next code after ran => exact .exited (.here closes ran) ends
      · next after ran => exact .unfinished (.here closes ran)

/-- The prompt of a command goes through its readings. -/
theorem goesThrough_runPrompt {input : List (List UInt8)} {lines : List (List Char)}
    (decoded : input.map Utf8.decode? = lines.map some) (prompt : Prompt) (session : Session) :
    GoesThrough host session (prompt.readings lines)
      (Command.runPrompt host input prompt session) := by
  induction lines generalizing input prompt session with
  | nil =>
      obtain rfl := List.map_eq_nil_iff.mp decoded
      refine .cons (fun isOpen => ?_) fun entry closes => ?_
      · refine .all (.done _) ?_
        have isOpen : prompt.close.1 = none := isOpen
        rw [Command.runPrompt_nil, isOpen]
      · have closes : prompt.close.1 = some entry := closes
        rw [Command.runPrompt_nil, closes]
        unfold Command.runEntry Command.runEntryIn
        dsimp only
        simp only [Host.services, Id.run]
        generalize Session.run host (String.ofList entry) _ = ran
        rcases ran with ⟨_ | _ | _, after⟩
        · exact .all (.done after) rfl
        · rfl
        · trivial
  | cons line lines ih =>
      obtain ⟨bytes, input, rfl, isText, decoded⟩ := List.map_eq_cons_iff.mp decoded
      refine .cons (fun isOpen => ?_) fun entry closes => ?_
      · have isOpen : (prompt.feed line).1 = none := isOpen
        have fed : prompt.feed line = (none, (prompt.feed line).2) := Prod.ext isOpen rfl
        rw [Command.runPrompt_cons, isText]
        dsimp only
        rw [fed]
        exact ih decoded _ _
      · have closes : (prompt.feed line).1 = some entry := closes
        have fed : prompt.feed line = (some entry, (prompt.feed line).2) := Prod.ext closes rfl
        rw [Command.runPrompt_cons, isText]
        dsimp only
        rw [fed]
        unfold Command.runEntry Command.runEntryIn
        dsimp only
        simp only [Host.services, Id.run]
        generalize Session.run host (String.ofList entry) _ = ran
        rcases ran with ⟨_ | _ | _, after⟩
        · exact ih decoded _ _
        · rfl
        · trivial

end Command

/-- Runs of entries that follow one another, each in the state that the one before it left. -/
structure RunsInTurn (host : Host) (session : Session) (runs : List EntryRun) : Prop where
  first : ∀ run later, runs = run :: later → run.before.Continues session
  later : ∀ front run next back, runs = front ++ run :: next :: back →
    next.before.Continues run.after
  sound : ∀ run ∈ runs, run.Sound host

theorem Performs.runsInTurn {host : Host} {session last : Session} {readings : List Reading}
    {runs : List EntryRun} (performs : Performs host session readings runs last) :
    RunsInTurn host session runs where
  first := by
    rintro run later rfl
    exact performs.continues
  later _ _ _ _ split := performs.chain split
  sound := performs.sound

/-- The readings of a prompt that is given some lines, and which entries are run at them. -/
structure Prompts (lines : List (List Char)) (readings : List Reading) : Prop where
  /-- Each line is read once, in order, and then the end of the input is met. -/
  read : readings.map Reading.line = lines.map some ++ [none]
  /-- All that is entered is run once, in order. -/
  ran : (entriesRun readings).flatten = enteredText lines
  nonempty : ∀ entry ∈ entriesRun readings, entry ≠ []
  entries : Entries lines (entriesRun readings)
  /-- At each reading, what was entered has been run, but for the text that is pending there. -/
  turn : ∀ front reading back, readings = front ++ reading :: back →
    ∃ pending, enteredText (linesRead front) = (entriesRun front).flatten ++ pending ∧
      reading.IsTurn pending

theorem Entries.nonempty {lines entries : List (List Char)} (made : Entries lines entries) :
    ∀ entry ∈ entries, entry ≠ [] := by
  induction made with
  | none => exact fun _ none => (List.not_mem_nil none).elim
  | blank isBlank later ih => exact ih
  | @entry opening last _ _ opens inside ends later ih =>
      refine List.forall_mem_cons.mpr ⟨Prompt.flatMap_entryText_ne_nil ?_, ih⟩
      exact List.append_ne_nil_of_right_ne_nil opening (List.cons_ne_nil last [])

theorem Prompt.prompts_readings (lines : List (List Char)) :
    Prompts lines (readings lines start) := by
  have made : Entries lines (entriesRun (readings lines start)) := entries_iff.mpr rfl
  exact ⟨line_readings lines start, flatten_readings lines start, made.nonempty, made,
    fun _ _ _ split => isTurn_readings split⟩

/--
The prompt runs every line once.  The lines of the input alone tell the readings and the entries;
the command goes through them, whatever errors the entries have, as long as no entry exits.
-/
theorem prompt_runs_every_line_once {input : List UInt8} {text : List Char}
    (decoded : Utf8.decode? input = some text) :
    ∃ readings, Prompts (textLines text) readings ∧
      ∀ (host : Host) (session : Session),
        GoesThrough host session readings
          (Command.runPrompt host (Command.inputLines input) .start session) ∧
        ∀ front back runs last, readings = front ++ back →
          Performs host session front runs last →
          runs.map EntryRun.entry = entriesRun front ∧ RunsInTurn host session runs := by
  refine ⟨Prompt.start.readings (textLines text), Prompt.prompts_readings _, fun host session =>
    ⟨goesThrough_runPrompt (Utf8.decode?_inputLines decoded) _ _, ?_⟩⟩
  intro front back runs last _ performs
  exact ⟨performs.entries, performs.runsInTurn⟩

/-- Two lines are one entry, and the last line, which nothing ends, is another. -/
theorem prompt_runs_open_entry_and_last_line :
    Utf8.decode? "if (true)\n  print 1;\n\r\nprint 2;".toUTF8.toList =
        some "if (true)\n  print 1;\n\r\nprint 2;".toList ∧
      ∃ readings, Prompts (textLines "if (true)\n  print 1;\n\r\nprint 2;".toList) readings ∧
        entriesRun readings = ["if (true)\n  print 1;\n".toList, "print 2;\n".toList] ∧
        ∀ (host : Host) (session : Session),
          GoesThrough host session readings (Command.runPrompt host
            (Command.inputLines "if (true)\n  print 1;\n\r\nprint 2;".toUTF8.toList) .start
            session) := by
  have decoded : Utf8.decode? "if (true)\n  print 1;\n\r\nprint 2;".toUTF8.toList =
      some "if (true)\n  print 1;\n\r\nprint 2;".toList := by decide +kernel
  obtain ⟨readings, prompts, goes⟩ := prompt_runs_every_line_once decoded
  refine ⟨decoded, readings, prompts, ?_, fun host session => (goes host session).1⟩
  rw [Prompt.entries_iff.mp prompts.entries]
  decide +kernel

end Lox
