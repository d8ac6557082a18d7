import Lox.Proofs.Leads
import Lox.Proofs.Levels

/-!
# Files that include themselves

An inclusion is a level until it is over, so a file that always comes to include itself again never
gets to its end: sooner or later no level is left.
-/

namespace Lox

/--
A text that is found at some places, and that comes to include one of them whenever it is run in
the directory of one.
-/
structure IncludesItself (files : String → Except Failure String) (text : String)
    (places : String → Prop) : Prop where
  read : ∀ place, places place → files place = .ok text
  compiles : ∃ program, Program.compile 0 text = .ok program
  again : ∀ past place first program tasks s, places place →
    Program.compile first text = .ok program →
    s.context.base = (Path.parent? place).getD "" →
    Reached past ⟨.give .nil, .program program.stmts :: tasks, s⟩ →
    ∃ path next top t, places next ∧
      Machine.Leads files ⟨.give .nil, .program program.stmts :: tasks, s⟩
        ⟨.awaitFile path next, top ++ tasks, t⟩

namespace IncludesItself

variable {files : String → Except Failure String} {text : String} {places : String → Prop}

/-- A text whose first statement includes the file that it stands in. -/
theorem of_first_statement {path : Token} {program : Program} {after : List Stmt}
    (read : ∀ place, places place → files place = .ok text)
    (compiled : Program.compile 0 text = .ok program) (stmts : program.stmts = .inclusion path :: after)
    (closed : ∀ place, places place →
      places (Path.join ((Path.parent? place).getD "") path.pathText)) :
    IncludesItself files text places := by
  refine ⟨read, ⟨program, compiled⟩, fun past place first other tasks s isPlace isProgram base _ => ?_⟩
  have renumbered := Program.compile_renumber 0 first text
  rw [Nat.zero_add, isProgram, compiled] at renumbered
  obtain rfl := Except.ok.inj renumbered
  refine ⟨path, _, [.program (moveBody (.renumber first) after)], s, closed place isPlace, 2, ?_⟩
  rw [← base]
  show Machine.advanced files 2 ⟨.give .nil, .program (moveBody _ program.stmts) :: tasks, s⟩ = _
  rw [stmts]
  rfl

variable (itself : IncludesItself files text places)

include itself

theorem compile_ok (first : Nat) : ∃ program, Program.compile first text = .ok program := by
  obtain ⟨program, compiled⟩ := itself.compiles
  have renumbered := Program.compile_renumber 0 first text
  rw [Nat.zero_add, compiled] at renumbered
  exact ⟨_, renumbered⟩

/-- An inclusion of such a text ends in the error of one that is too deep. -/
theorem leads_overflow (left : Nat) {past : Past} {path : Token} {place : String}
    (isPlace : places place) {tasks : List Task} {s : State}
    (reached : Reached past ⟨.awaitFile path place, tasks, s⟩)
    (enough : maxDepth ≤ levels tasks + left) :
    ∃ line t, Machine.Leads files ⟨.awaitFile path place, tasks, s⟩
      ⟨.give (.failed (.runtime line .stackOverflow)), tasks, t⟩ := by
  obtain ⟨program, compiled⟩ := itself.compile_ok s.nextReference
  have steps : Machine.advance files ⟨.awaitFile path place, tasks, s⟩ = _ :=
    Machine.advance_inclusion rfl (itself.read place isPlace) compiled
  have depth : s.context.depth = levels tasks := reached.depth_eq
  induction left generalizing past path place tasks s program with
  | zero =>
      rw [if_pos (show maxDepth ≤ s.context.depth by omega)] at steps
      exact ⟨path.line, _, 1, steps⟩
  | succ left ih =>
      by_cases deep : maxDepth ≤ s.context.depth
      · rw [if_pos deep] at steps
        exact ⟨path.line, _, 1, steps⟩
      · rw [if_neg deep] at steps
        have entered := reached.advance files
        rw [steps] at entered
        obtain ⟨path', next, top, t, isNext, leads⟩ := itself.again _ place _ program
          (.finishInclusion s.context :: tasks) _ isPlace compiled rfl entered
        obtain ⟨past', comes⟩ := leads.reached entered
        obtain ⟨program', compiled'⟩ := itself.compile_ok t.nextReference
        have deeper : levels (top ++ .finishInclusion s.context :: tasks) =
            levels top + (levels tasks + 1) := by
          rw [levels_append, levels_cons]
          rfl
        obtain ⟨line, u, fails⟩ := ih isNext comes (by omega) program' compiled'
          (Machine.advance_inclusion rfl (itself.read next isNext) compiled') comes.depth_eq
        obtain ⟨line', v, passes⟩ := Machine.leads_failed files line .stackOverflow
          (top ++ [.finishInclusion s.context]) tasks u
        rw [List.append_assoc] at passes
        exact ⟨line', v, .step (steps ▸ leads.trans (fails.trans passes))⟩

end IncludesItself

/-- Such a file ends in this error when it is run. -/
theorem Session.Reachable.run_itself {session : Session} (reachable : session.Reachable)
    {files : String → Except Failure String} {text : String} {places : String → Prop}
    (itself : IncludesItself files text places) {place directory : String} (isPlace : places place)
    (inside : Path.parent? place = some directory) (now : Float) :
    ∃ line bound, ∀ patience, bound ≤ patience → ∃ after,
      session.runFile ⟨files, now, patience⟩ place =
        .ok (.finished [.runtime line .stackOverflow], after) := by
  obtain ⟨program, compiled⟩ := itself.compile_ok (session.setBaseOf place).state.nextReference
  obtain ⟨past, started, _⟩ := (reachable.atRest.setBaseOf place).begin now compiled
  have base : (session.setBaseOf place).state.context.base = (Path.parent? place).getD "" := by
    unfold setBaseOf
    rw [inside]
    rfl
  obtain ⟨path, next, top, t, isNext, leads⟩ :=
    itself.again past place _ program [] (((session.setBaseOf place).setClock now).state.load program)
      isPlace compiled base started
  obtain ⟨past', comes⟩ := leads.reached started
  obtain ⟨line, u, fails⟩ := itself.leads_overflow maxDepth isNext comes (Nat.le_add_left _ _)
  obtain ⟨line', v, passes⟩ := Machine.leads_failed files line .stackOverflow top [] u
  obtain ⟨bound, ran⟩ := (session.setBaseOf place).run_of_leads compiled
    (leads.trans (fails.trans passes))
  refine ⟨line', bound, fun patience enough => ⟨(conclude
    ((session.setBaseOf place).journal.dump program.stmts)
    (.outcome (.failed (.runtime line' .stackOverflow))) v).2, ?_⟩⟩
  rw [Session.runFile_eq]
  dsimp only
  rw [itself.read place isPlace]
  exact congrArg Except.ok (ran patience enough)

end Lox
