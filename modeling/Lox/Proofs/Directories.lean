import Lox.Proofs.Levels
import Lox.Proofs.Inclusion

/-!
# The directory that inclusions are read from

At any moment of a run some texts are being evaluated: the one that was run, the file that it is
just including, the file that this one includes, and so on.  An inclusion is read from the directory
of the innermost of them.  Outside of calls the innermost text is the one that the inclusion is
written in; a function takes none of its own text along to where it is called.
-/

namespace Lox

/-- A text that is being evaluated: the directory that it is run in, and its statements. -/
structure Source where
  directory : String
  stmts : List Stmt

namespace Machine

/-- The file whose evaluation begins with the next step. -/
def starts? (files : String → Except Failure String) (m : Machine) : Option Source :=
  match m.control with
  | .awaitFile _ place =>
    if maxDepth ≤ m.state.context.depth then none
    else (m.loads? files).map fun loaded => ⟨(Path.parent? place).getD "", loaded.program.stmts⟩
  | _ => none

/-- Whether the evaluation of a file is over with the next step. -/
def finishes (m : Machine) : Bool :=
  match m.control, m.tasks with
  | .give _, .finishInclusion _ :: _ => true
  | _, _ => false

/-- The texts that are being evaluated after the next step, the innermost first. -/
def sourcesAfter (files : String → Except Failure String) (m : Machine) (sources : List Source) :
    List Source :=
  match m.starts? files with
  | some source => source :: sources
  | none => if m.finishes then sources.tail else sources

end Machine

/--
The machines that a session gets to, each with the texts that are being evaluated, the innermost
first.  A text that is run is evaluated in the directory that is in force.
-/
inductive Evaluates : List Source → Machine → Prop where
  | fresh (output : Sink) (now : Float) : Evaluates [] ⟨.give .nil, [], .initial output now⟩
  | begin {sources : List Source} {outcome : Outcome} {s : State} {text : String}
      {program : Program} (before : Evaluates sources ⟨.give outcome, [], s⟩)
      (compiled : Program.compile s.nextReference text = .ok program) :
      Evaluates [⟨s.context.base, program.stmts⟩] (.ofProgram program.stmts (s.load program))
  | advance {sources : List Source} {m : Machine} (files : String → Except Failure String)
      (before : Evaluates sources m) :
      Evaluates (m.sourcesAfter files sources) (m.advance files)
  | pass {sources : List Source} {m : Machine} (now : Float) (output : Sink)
      (before : Evaluates sources m) : Evaluates sources (m.pass now output)
  | setBase {sources : List Source} {outcome : Outcome} {s : State} (base : String)
      (before : Evaluates sources ⟨.give outcome, [], s⟩) :
      Evaluates [] ⟨.give outcome, [], { s with context := { s.context with base := base } }⟩

/-- In every machine that a session gets to some texts are being evaluated. -/
theorem Reached.evaluates {past : Past} {m : Machine} (reached : Reached past m) :
    ∃ sources, Evaluates sources m := by
  induction reached with
  | fresh output now => exact ⟨_, .fresh output now⟩
  | begin before compiled ih => exact ih.elim fun _ before => ⟨_, before.begin compiled⟩
  | advance files before ih => exact ih.elim fun _ before => ⟨_, before.advance files⟩
  | pass now output before ih => exact ih.elim fun _ before => ⟨_, before.pass now output⟩
  | setBase base before ih => exact ih.elim fun _ before => ⟨_, before.setBase base⟩

/-! ## What belongs to a text -/

/-- A statement is written in a text, outside of functions. -/
inductive Stmt.Written (stmts : List Stmt) : Stmt → Prop where
  | here {stmt : Stmt} (held : stmt ∈ stmts) : Written stmts stmt
  | inside {outer stmt : Stmt} (written : Written stmts outer) (part : stmt ∈ outer.parts) :
      Written stmts stmt

theorem Stmt.Written.of_from {stmts whole : List Stmt} {stmt : Stmt} (comes : stmt.From whole)
    (written : ∀ outer ∈ whole, outer.Written stmts) : stmt.Written stmts := by
  rcases comes with held | ⟨outer, held, part⟩
  · exact written stmt held
  · exact .inside (written outer held) part

/-- Whether what is done above some tasks is done for the innermost text itself, and not in a call. -/
def outsideCalls : List Task → Bool
  | [] => true
  | .program _ :: _ => true
  | .finishCall .. :: _ => false
  | _ :: tasks => outsideCalls tasks

/-- The texts that are being evaluated below a task. -/
def Task.outside (task : Task) (sources : List Source) : List Source :=
  match task with
  | .finishInclusion _ => sources.tail
  | _ => sources

/-- Wherever a context comes back, it tells the directory of the text that is then the innermost. -/
def Based : List Source → List Task → Context → Prop
  | [], tasks, _ => tasks = []
  | source :: _, [], context => context.base = source.directory
  | source :: outer, task :: tasks, context =>
    context.base = source.directory ∧
      Based (task.outside (source :: outer)) tasks (task.restores context)

/-- Statements that are executed above some tasks are written in the innermost text. -/
def Belong (sources : List Source) (tasks : List Task) (stmts : List Stmt) : Prop :=
  outsideCalls tasks = true → ∀ stmt ∈ stmts, ∀ source ∈ sources.head?, stmt.Written source.stmts

/-- The statements of the tasks themselves are. -/
def Owned : List Source → List Task → Prop
  | _, [] => True
  | sources, task :: tasks =>
    Belong sources (task :: tasks) task.stmts ∧ Owned (task.outside sources) tasks

theorem outsideCalls_append {top rest : List Task} (inner : ∀ task ∈ top, task.isInner = true) :
    outsideCalls (top ++ rest) = outsideCalls rest := by
  induction top with
  | nil => rfl
  | cons task top ih =>
      obtain ⟨first, others⟩ := List.forall_mem_cons.mp inner
      refine Eq.trans ?_ (ih others)
      cases task with
      | program stmts => cases first
      | finishCall context line answer => cases first
      | _ => rfl

theorem Task.outside_of_isInner {task : Task} (inner : task.isInner = true)
    (sources : List Source) : task.outside sources = sources := by
  cases task with
  | finishInclusion context => cases inner
  | _ => rfl

theorem Based.idle {tasks : List Task} {context : Context} (based : Based [] tasks context) :
    tasks = [] := by
  cases tasks <;> exact based

theorem Based.base {source : Source} {outer : List Source} {tasks : List Task} {context : Context}
    (based : Based (source :: outer) tasks context) : context.base = source.directory := by
  cases tasks with
  | nil => exact based
  | cons task tasks => exact based.1

theorem based_append {top rest : List Task} (inner : ∀ task ∈ top, task.isInner = true)
    (source : Source) (outer : List Source) (context : Context) :
    Based (source :: outer) (top ++ rest) context ↔ Based (source :: outer) rest context := by
  induction top with
  | nil => rfl
  | cons task top ih =>
      obtain ⟨first, others⟩ := List.forall_mem_cons.mp inner
      rw [List.cons_append, Based, Task.outside_of_isInner first, Task.restores_of_isInner first,
        ih others]
      exact ⟨And.right, fun based => ⟨based.base, based⟩⟩

theorem belong_append {sources : List Source} {tasks : List Task} {stmts others : List Stmt} :
    Belong sources tasks (stmts ++ others) ↔
      Belong sources tasks stmts ∧ Belong sources tasks others := by
  refine ⟨fun all => ⟨fun outside stmt held => all outside stmt (List.mem_append_left _ held),
    fun outside stmt held => all outside stmt (List.mem_append_right _ held)⟩, ?_⟩
  rintro ⟨first, second⟩ outside stmt held
  rcases List.mem_append.mp held with inFirst | inSecond
  · exact first outside stmt inFirst
  · exact second outside stmt inSecond

theorem Belong.above {sources : List Source} {top rest : List Task} {stmts : List Stmt}
    (inner : ∀ task ∈ top, task.isInner = true) :
    Belong sources (top ++ rest) stmts ↔ Belong sources rest stmts := by
  unfold Belong
  rw [outsideCalls_append inner]

theorem owned_append {top rest : List Task} (inner : ∀ task ∈ top, task.isInner = true)
    (sources : List Source) :
    Owned sources (top ++ rest) ↔
      Belong sources rest (top.flatMap Task.stmts) ∧ Owned sources rest := by
  induction top with
  | nil => exact ⟨fun owned => ⟨fun _ => List.forall_mem_nil _, owned⟩, And.right⟩
  | cons task top ih =>
      obtain ⟨first, others⟩ := List.forall_mem_cons.mp inner
      rw [List.cons_append, Owned, Task.outside_of_isInner first, ih others, ← List.cons_append,
        Belong.above inner, List.flatMap_cons, belong_append, and_assoc]

/-- Statements that come from others belong where these do. -/
theorem Belong.of_from {sources : List Source} {tasks : List Task} {stmts whole : List Stmt}
    (belong : Belong sources tasks whole) (comes : ∀ stmt ∈ stmts, stmt.From whole) :
    Belong sources tasks stmts :=
  fun outside stmt held source isInnermost => .of_from (comes stmt held) fun outer among =>
    belong outside outer among source isInnermost

/-! ## Each step -/

/-- A machine that knows which texts are being evaluated. -/
structure Machine.Sourced (sources : List Source) (m : Machine) : Prop where
  based : Based sources m.tasks m.state.context
  owned : Owned sources m.tasks
  phrase : Belong sources m.tasks m.control.stmts
  idle : sources = [] → ∃ outcome, m.control = .give outcome

namespace Machine

variable {files : String → Except Failure String} {m : Machine} {sources : List Source}

/-- An outcome is no statement. -/
theorem belong_give {tasks : List Task} {control : Control}
    (gives : ∃ outcome, control = .give outcome) : Belong sources tasks control.stmts := by
  obtain ⟨outcome, rfl⟩ := gives
  exact fun _ => List.forall_mem_nil _

/-- The evaluation of a file begins. -/
theorem Sourced.starts {source : Source} (sourced : m.Sourced sources)
    (starts : m.starts? files = some source) : (m.advance files).Sourced (source :: sources) := by
  unfold starts? at starts
  split at starts
  · next path place asks =>
      split at starts
      · cases starts
      · next shallow =>
          obtain ⟨loaded, loads, rfl⟩ := Option.map_eq_some_iff.mp starts
          unfold loads? at loads
          rw [asks] at loads
          dsimp only at loads
          split at loads
          · next text read =>
              split at loads
              · next program compiled =>
                  cases loads
                  have active : sources ≠ [] := by
                    intro none
                    obtain ⟨outcome, isGive⟩ := sourced.idle none
                    rw [asks] at isGive
                    cases isGive
                  rw [advance_inclusion asks read compiled, if_neg shallow]
                  refine ⟨⟨rfl, rfl, sourced.based⟩, ⟨fun _ stmt held source isInnermost => ?_,
                    fun _ => List.forall_mem_nil _, sourced.owned⟩, belong_give ⟨_, rfl⟩, nofun⟩
                  cases isInnermost
                  exact .here held
              · cases loads
          · cases loads
  · cases starts

/-- The evaluation of a file is over. -/
theorem Sourced.finishes (sourced : m.Sourced sources) (finishes : m.finishes = true) :
    (m.advance files).Sourced sources.tail := by
  obtain ⟨control, tasks, s⟩ := m
  unfold Machine.finishes at finishes
  split at finishes
  · next outcome context rest isGive isLast =>
      obtain rfl : control = .give outcome := isGive
      obtain rfl : tasks = .finishInclusion context :: rest := isLast
      have stepped : ∃ later, Machine.advance files
          ⟨.give outcome, .finishInclusion context :: rest, s⟩ =
            .giving later rest (s.setContext context) := by
        cases outcome <;> exact ⟨_, rfl⟩
      obtain ⟨later, stepped⟩ := stepped
      rw [stepped]
      cases sources with
      | nil => exact absurd sourced.based (List.cons_ne_nil _ _)
      | cons source outer =>
          exact ⟨sourced.based.2, sourced.owned.2, belong_give ⟨_, rfl⟩, fun _ => ⟨_, rfl⟩⟩
  · cases finishes

/-- The innermost text stays the same. -/
theorem Sourced.stays (sourced : m.Sourced sources) (starts : m.starts? files = none)
    (goesOn : m.finishes = false) : (m.advance files).Sourced sources := by
  cases sources with
  | nil =>
      obtain ⟨outcome, isGive⟩ := sourced.idle rfl
      have ended : m.ending? = some (.outcome outcome) := by
        unfold ending?
        rw [isGive, sourced.based.idle]
      rwa [advance_of_ended ended]
  | cons source outer =>
      obtain ⟨based, owned, phrase, _⟩ := sourced
      cases shift_advance files m with
      | @within top top' rest before after inner inner' same code =>
          rw [before] at based owned phrase
          obtain ⟨held, below⟩ := (owned_append inner _).mp owned
          have based := (based_append inner source outer _).mp based
          have all := belong_append.mpr ⟨(Belong.above inner).mp phrase, held⟩
          have later := belong_append.mp (all.of_from code)
          refine ⟨?_, ?_, ?_, nofun⟩
          · rw [after, same]
            exact (based_append inner' source outer _).mpr based
          · rw [after]
            exact (owned_append inner' _).mpr ⟨later.2, below⟩
          · rw [after]
            exact (Belong.above inner').mpr later.1
      | @next stmt stmts rest before after =>
          rw [before] at based owned
          obtain ⟨held, below⟩ := owned
          have held := belong_append.mp (show Belong _ _ ([stmt] ++ stmts) from held)
          rw [after]
          exact ⟨based, ⟨held.2, below⟩, held.1, nofun⟩
      | @close task rest gave before after restored gives =>
          have outside : task.outside (source :: outer) = source :: outer := by
            obtain ⟨outcome, isGive⟩ := gave
            unfold Machine.finishes at goesOn
            rw [isGive, before] at goesOn
            cases task with
            | finishInclusion context => cases goesOn
            | _ => rfl
          rw [before] at based owned
          refine ⟨?_, ?_, belong_give gives, nofun⟩
          · rw [after, restored, ← outside]
            exact based.2
          · rw [after, ← outside]
            exact owned.2
      | @block body env executes after inside gives =>
          refine ⟨?_, ?_, belong_give gives, nofun⟩
          · rw [after, inside]
            exact ⟨based.base, based.base, based⟩
          · rw [after]
            refine ⟨fun outside stmt held source isInnermost => ?_, fun _ => List.forall_mem_nil _, owned⟩
            have written := phrase outside (.block body) (by rw [executes]; exact List.mem_singleton_self _)
            exact .inside (written source isInnermost) held
      | @enter top rest body line answer env before inner shallow after inside gives =>
          rw [before] at based owned
          have based := (based_append inner source outer _).mp based
          refine ⟨?_, ?_, belong_give gives, nofun⟩
          · rw [after, inside]
            exact ⟨based.base, based.base, based⟩
          · rw [after]
            exact ⟨nofun, nofun, ((owned_append inner _).mp owned).2⟩
      | @inclusion path place text program asks read compiled shallow after =>
          unfold Machine.starts? loads? at starts
          rw [asks] at starts
          dsimp only at starts
          rw [if_neg (Nat.not_le.mpr shallow), read] at starts
          dsimp only at starts
          rw [compiled] at starts
          cases starts

/-- The texts that are being evaluated are known after the next step. -/
theorem Sourced.advance (sourced : m.Sourced sources) :
    (m.advance files).Sourced (m.sourcesAfter files sources) := by
  unfold sourcesAfter
  split
  · next source starts => exact sourced.starts starts
  · next starts =>
      split
      · next finishes => exact sourced.finishes finishes
      · next goesOn => exact sourced.stays starts (Bool.eq_false_iff.mpr goesOn)

end Machine

theorem Evaluates.sourced {sources : List Source} {m : Machine} (evaluates : Evaluates sources m) :
    m.Sourced sources := by
  induction evaluates with
  | fresh output now =>
      exact ⟨rfl, trivial, fun _ => List.forall_mem_nil _, fun _ => ⟨_, rfl⟩⟩
  | begin before compiled ih =>
      refine ⟨⟨rfl, rfl⟩, ⟨fun _ stmt held source isInnermost => ?_, trivial⟩,
        fun _ => List.forall_mem_nil _, nofun⟩
      cases isInnermost
      exact .here held
  | advance files before ih => exact ih.advance
  | pass now output before ih => exact ⟨ih.based, ih.owned, ih.phrase, ih.idle⟩
  | setBase base before ih =>
      exact ⟨rfl, trivial, fun _ => List.forall_mem_nil _, fun _ => ⟨_, rfl⟩⟩

/-! ## Inclusions -/

/-- A text is evaluated in the directory that is in force when a session begins to run it. -/
theorem Session.AtRest.evaluates {session : Session} (atRest : session.AtRest) (now : Float)
    {text : String} {program : Program}
    (compiled : Program.compile session.state.nextReference text = .ok program) :
    Evaluates [⟨session.state.context.base, program.stmts⟩] (session.begin now program) := by
  obtain ⟨past, outcome, reached⟩ := atRest
  obtain ⟨sources, evaluates⟩ := reached.evaluates
  exact (evaluates.pass now session.state.output).begin compiled

/--
Inclusions are read from the directory of the innermost text that is being evaluated: of a text that
is run that is the directory in force, of a script its own directory, and of a file that is included
the directory of that file.  Outside of calls it is the text that the inclusion is written in.
-/
theorem inclusions_are_read_beside_innermost_text :
    (∀ (session : Session) (now : Float) (text : String) (program : Program), session.Reachable →
      Program.compile session.state.nextReference text = .ok program →
      Evaluates [⟨session.state.context.base, program.stmts⟩] (session.begin now program) ∧
      ∀ place directory, Path.parent? place = some directory →
        Evaluates [⟨directory, program.stmts⟩] ((session.setBaseOf place).begin now program)) ∧
    (∀ (past : Past) (m : Machine), Reached past m → ∃ sources, Evaluates sources m) ∧
    ∀ (sources : List Source) (m : Machine) (path : Token), Evaluates sources m →
      m.control = .exec (.inclusion path) → ∃ source outer, sources = source :: outer ∧
        (∀ files, m.advance files =
          ⟨.awaitFile path (Path.join source.directory path.pathText), m.tasks, m.state⟩) ∧
        (outsideCalls m.tasks = true → (Stmt.inclusion path).Written source.stmts) := by
  refine ⟨?_, fun past m reached => reached.evaluates, ?_⟩
  · intro session now text program reachable compiled
    refine ⟨reachable.atRest.evaluates now compiled, fun place directory inside => ?_⟩
    have moved : session.setBaseOf place = session.setBase directory := by
      unfold Session.setBaseOf
      rw [inside]
    have atRest := reachable.atRest.setBaseOf place
    rw [moved] at atRest ⊢
    exact atRest.evaluates now compiled
  · intro sources m path evaluates executes
    obtain ⟨based, owned, phrase, idle⟩ := evaluates.sourced
    cases sources with
    | nil =>
        obtain ⟨outcome, isGive⟩ := idle rfl
        rw [executes] at isGive
        cases isGive
    | cons source outer =>
        refine ⟨source, outer, rfl, fun files => ?_, fun outside => ?_⟩
        · obtain ⟨control, tasks, s⟩ := m
          obtain rfl : control = .exec (.inclusion path) := executes
          rw [← based.base]
          rfl
        · exact phrase outside _ (by rw [executes]; exact List.mem_singleton_self _) source rfl

/-! ## A file in another directory -/

/-- Two files in a directory, one of them with the given text. -/
def filesInSub (library : String) (place : String) : Except Failure String :=
  if place = "sub/lib.lox" then .ok library
  else if place = "sub/x.lox" then .ok "print 1;"
  else .error .missing

/-- Whether some steps lead to an inclusion outside of calls that asks for a file next. -/
def includesAfter (library : String) (steps : Nat) (place : String) (program : Program) : Bool :=
  let m := ((Session.fresh .unlimited .unlimited false).begin 0 program).advanced
    (filesInSub library) steps
  match m.control, (m.advance (filesInSub library)).control with
  | .exec (.inclusion _), .awaitFile _ other => other == place && outsideCalls m.tasks
  | _, _ => false

/-- A file that is included includes another one from its own directory. -/
theorem inclusion_is_read_beside_included_file :
    ∃ (sources : List Source) (m : Machine) (path : Token) (source : Source),
      Evaluates sources m ∧ m.control = .exec (.inclusion path) ∧
      Path.join source.directory path.pathText = "sub/x.lox" ∧
      (Stmt.inclusion path).Written source.stmts := by
  have fresh : (Session.fresh .unlimited .unlimited false).Reachable := .fresh _ _ _
  obtain ⟨program, compiled, includes⟩ := exists_of_compilesTo
    (show compilesTo (includesAfter "include \"x.lox\";" 4 "sub/x.lox")
      "include \"sub/lib.lox\";" = true by decide +kernel)
  obtain ⟨past, started, _⟩ := fresh.atRest.begin 0 compiled
  obtain ⟨past', reached⟩ := started.advanced (filesInSub "include \"x.lox\";") 4
  unfold includesAfter at includes
  dsimp only at includes
  split at includes
  · next path path' place executes asks =>
      obtain ⟨isPlace, outside⟩ := Bool.and_eq_true_iff.mp includes
      obtain ⟨sources, evaluates⟩ := inclusions_are_read_beside_innermost_text.2.1 past' _ reached
      obtain ⟨source, outer, _, next, written⟩ :=
        inclusions_are_read_beside_innermost_text.2.2 sources _ path evaluates executes
      refine ⟨sources, _, path, source, evaluates, executes, ?_, written outside⟩
      rw [next] at asks
      cases asks
      exact eq_of_beq isPlace
  · cases includes

/-- Whether a run ended because a file at the given path is missing. -/
def RunResult.isMissing (path : String) : RunResult → Bool
  | .finished [.runtime 1 (.unreadableInclude other failure)] =>
    other == path && failure == .missing
  | _ => false

/--
A function of a file in another directory includes a file that lies beside its own: it is looked for
beside the text that calls the function, and is not found there.
-/
theorem function_includes_beside_its_caller :
    ((Session.fresh .unlimited .unlimited false).run
      ⟨filesInSub "fun load() \x7b include \"x.lox\"; \x7d", 0, 50⟩
      "include \"sub/lib.lox\"; load();").1 =
        .finished [.runtime 1 (.unreadableInclude "x.lox" .missing)] ∧
    filesInSub "fun load() \x7b include \"x.lox\"; \x7d" "sub/x.lox" = .ok "print 1;" := by
  refine ⟨?_, rfl⟩
  have missing : RunResult.isMissing "x.lox" ((Session.fresh .unlimited .unlimited false).run
      ⟨filesInSub "fun load() \x7b include \"x.lox\"; \x7d", 0, 50⟩
      "include \"sub/lib.lox\"; load();").1 = true := by decide +kernel
  revert missing
  generalize ((Session.fresh .unlimited .unlimited false).run _ _).1 = result
  intro missing
  unfold RunResult.isMissing at missing
  split at missing
  · obtain ⟨isPath, isFailure⟩ := Bool.and_eq_true_iff.mp missing
    rw [eq_of_beq isPath, eq_of_beq isFailure]
  · cases missing

end Lox
