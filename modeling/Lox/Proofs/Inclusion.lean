import Lox.Proofs.Inclusion.Locals
import Lox.Proofs.Inclusion.Phases

/-!
# Inclusion is textual inclusion into the globals

What a session makes of an inclusion at the top level is what it makes of the statements of the file
in its place.  Anywhere else an inclusion has the effect that it has at the globals, whatever the
scopes around it hold.
-/

namespace Lox

section Reached

variable {past : Past} {path : Token} {tasks : List Task} {s : State}

/-- One inclusion that a machine executes, and the same one in another environment. -/
def Inclusion.beside (path : Token) (tasks tasks' : List Task) (context : Context) (env : Env) :
    Inclusion :=
  ⟨path, tasks, tasks', context, { context with env := env }, rfl, rfl⟩

theorem Reached.inclusion_runs (reached : Reached past ⟨.exec (.inclusion path), tasks, s⟩)
    {other : Store} (agrees : s.store.Agrees s.store.Global other) (env : Env)
    (tasks' : List Task) :
    ∃ w : Pairing, (Inclusion.beside path tasks tasks' s.context env).Runs (w.onItself.within s.store.Global)
      ⟨.exec (.inclusion path), tasks, s⟩
      ⟨.exec (.inclusion path), tasks',
        { s with store := other, context := { s.context with env := env } }⟩ := by
  obtain ⟨w, related⟩ := reached.matches_itself
  exact ⟨w, .starts (related.states.core.of_agrees agrees _) rfl rfl⟩

theorem Store.agrees_refl (store : Store) (cells : Cell → Prop) : store.Agrees cells store :=
  ⟨fun _ _ made => ⟨made, rfl⟩, fun _ _ made => ⟨made, rfl⟩, rfl⟩

theorem Reached.inclusion_kept (reached : Reached past ⟨.exec (.inclusion path), tasks, s⟩)
    {n : Machine} (above : Machine.RunsAbove tasks ⟨.exec (.inclusion path), tasks, s⟩ n) :
    s.store.Keeps s.store.Global n.state.store ∧
      ∀ top rest, n.tasks = top ++ .program rest :: .finishInclusion s.context :: tasks →
        (contextAfter top n.state.context).env = State.globals := by
  obtain ⟨w, runs⟩ := reached.inclusion_runs (s.store.agrees_refl _) s.context.env tasks
  obtain ⟨w', grows, still⟩ := runs.kept above
  refine ⟨⟨grows.left.frameCount, grows.left.objectCount, fun frame made outside => ?_,
    fun object made outside => ?_⟩, fun top rest inside => still.at_globals inside⟩
  · exact grows.left.bindings frame made fun ⟨_, _, reaches⟩ => outside reaches
  · exact grows.left.fields object made fun ⟨_, _, reaches⟩ => outside reaches

end Reached

/-- A session runs a program as it runs the one in which the file's statements stand in place. -/
theorem Session.Ready.run_spliced {session : Session} (ready : session.Ready)
    {host : Host} {source text : String} {program file : Program} {before after : List Stmt}
    {path : Token} (compiled : Program.compile 0 source = .ok program)
    (stmts : program.stmts = before ++ .inclusion path :: after)
    (readable : host.files (Path.join session.state.context.base path.pathText) = .ok text)
    (compiledFile : Program.compile 0 text = .ok file)
    (calm : ∀ n, ¬ ((session.begin host.now
      (program.move (.renumber session.state.nextReference))).advanced host.files n).Overflows)
    (alike : ReadAlike host.files (moveBody (.renumber session.state.nextReference) after)
      ((session.begin host.now
        (program.move (.renumber session.state.nextReference))).advanced host.files 3)
      (session.begin host.now (program.spliced session.state.nextReference file before after)))
    (patience : Nat) :
    ∃ k, patience ≤ k ∧ k ≤ patience + 5 ∧ ∃ w,
      RanMatch .plain w (session.run { host with patience := k } source)
        (session.runProgram { host with patience := patience }
          (program.spliced session.state.nextReference file before after)) := by
  obtain ⟨w, states⟩ := ready.matches_itself host.now
  have compiledHere := Program.compile_renumber 0 session.state.nextReference source
  rw [Nat.zero_add, compiled, Program.moveCompiled] at compiledHere
  have shallow : (session.setClock host.now).state.context.depth < maxDepth := by
    show session.state.context.depth < maxDepth
    rw [ready.at_globals.2]
    decide
  have keepsUp := states.keepsUp_spliced ready.at_globals.1 shallow
    ⟨(Program.compile_checked compiled).numbered, stmts⟩
    (Program.compile_checked compiledHere).numbered readable compiledFile rfl rfl alike calm
  obtain ⟨k, least, most, w', results⟩ := keepsUp patience
  refine ⟨k, least, most, w', ?_⟩
  rw [Session.run_accepted compiledHere]
  exact Session.runProgram_matches results

/--
Inclusion is textual inclusion into the globals.  If a program includes a file at its top level,
no call or inclusion is too deep, and what is included while the file runs is the same from both
directories, then the run has the errors, the output and the globals that it has with the
statements of the file in place of the inclusion.  An inclusion at any place changes nothing but
what the globals reach, and executes the statements of the file in the scope of the globals; with
other local scopes around it, whatever they hold, it comes to the same.
-/
theorem inclusion_is_textual :
    (∀ (session : Session) (host : Host) (source text : String) (program file : Program)
        (before after : List Stmt) (path : Token), session.Ready →
      Program.compile 0 source = .ok program →
      program.stmts = before ++ .inclusion path :: after →
      host.files (Path.join session.state.context.base path.pathText) = .ok text →
      Program.compile 0 text = .ok file →
      (∀ n, ¬ ((session.begin host.now
        (program.move (.renumber session.state.nextReference))).advanced host.files n).Overflows) →
      ReadAlike host.files (moveBody (.renumber session.state.nextReference) after)
        ((session.begin host.now
          (program.move (.renumber session.state.nextReference))).advanced host.files 3)
        (session.begin host.now
          (program.spliced session.state.nextReference file before after)) →
      (analyze (program.spliced session.state.nextReference file before after).stmts).errors = #[] ∧
      ∀ patience, ∃ k, patience ≤ k ∧ k ≤ patience + 5 ∧
        (session.run { host with patience := k } source).1 =
          (session.runProgram { host with patience := patience }
            (program.spliced session.state.nextReference file before after)).1 ∧
        ∃ w, CoreMatch .plain w (session.run { host with patience := k } source).2.state
          (session.runProgram { host with patience := patience }
            (program.spliced session.state.nextReference file before after)).2.state) ∧
    (∀ (past : Past) (path : Token) (tasks : List Task) (s : State),
      Reached past ⟨.exec (.inclusion path), tasks, s⟩ →
      (∀ n, Machine.RunsAbove tasks ⟨.exec (.inclusion path), tasks, s⟩ n →
        s.store.Keeps s.store.Global n.state.store ∧
        ∀ top rest, n.tasks = top ++ .program rest :: .finishInclusion s.context :: tasks →
          (contextAfter top n.state.context).env = State.globals) ∧
      ∀ (other : Store) (env : Env) (tasks' : List Task) (files : String → Except Failure String)
          (steps : Nat), s.store.Agrees s.store.Global other →
        (∀ k < steps,
          ¬ (Machine.advanced files k ⟨.exec (.inclusion path), tasks, s⟩).Gives tasks) →
        let m := Machine.advanced files steps ⟨.exec (.inclusion path), tasks, s⟩
        let m' := Machine.advanced files steps ⟨.exec (.inclusion path), tasks',
          { s with store := other, context := { s.context with env := env } }⟩
        other.Keeps s.store.Global m'.state.store ∧
          ∃ w, CoreMatch .plain w m.state m'.state ∧
            ∀ outcome, m.control = .give outcome → m.tasks = tasks →
              ∃ outcome', m'.control = .give outcome' ∧ m'.tasks = tasks' ∧
                OutcomeMatch .plain w outcome outcome') := by
  refine ⟨?_, ?_⟩
  · intro session host source text program file before after path ready compiled stmts readable
      compiledFile calm alike
    refine ⟨?_, fun patience => ?_⟩
    · have includes : program.Includes before path after :=
        ⟨(Program.compile_checked compiled).numbered, stmts⟩
      obtain ⟨_, _, sound, isProgram⟩ := Program.compile_ok compiled
      obtain ⟨_, _, soundFile, isFile⟩ := Program.compile_ok compiledFile
      refine Array.toList_eq_nil_iff.mp (includes.sound_spliced ?_ ?_ _)
      · rw [isProgram, sound]
      · rw [isFile, soundFile]
    · obtain ⟨k, least, most, w, ran⟩ := ready.run_spliced compiled stmts readable compiledFile
        calm alike patience
      exact ⟨k, least, most, ran.result.eq.symm, w, ran.state⟩
  · intro past path tasks s reached
    refine ⟨fun n above => reached.inclusion_kept above, ?_⟩
    intro other env tasks' files steps agrees busy m m'
    obtain ⟨w, runs⟩ := reached.inclusion_runs agrees env tasks'
    obtain ⟨w', grows, still⟩ := runs.advanced busy
    refine ⟨⟨grows.stores.right.frameCount, grows.stores.right.objectCount,
      fun frame made outside => ?_, fun object made outside => ?_⟩, w', still.cores,
      fun outcome isGive ended => still.gives isGive ended⟩
    · exact grows.stores.right.bindings frame made fun ⟨_, same, reaches⟩ => outside (same.1 ▸ reaches)
    · exact grows.stores.right.fields object made fun ⟨_, same, reaches⟩ => outside (same.1 ▸ reaches)

/-! ## A file that declares a variable -/

/-- A host all of whose files declare one variable. -/
def declaringHost : Host := ⟨fun _ => .ok "var a = 1;", 0, 20⟩

/-- Whether the machine waits for a file. -/
def Machine.asks (m : Machine) : Bool :=
  match m.control with
  | .awaitFile .. => true
  | _ => false

/-- Whether the machine is not refused for its depth. -/
def Machine.isCalm (m : Machine) : Bool :=
  match m.control with
  | .give (.failed (.runtime _ .stackOverflow)) => false
  | _ => true

theorem Machine.not_overflows_of_calm {m : Machine} (calm : m.isCalm = true) : ¬ m.Overflows := by
  rintro ⟨token, isGive⟩
  unfold isCalm at calm
  rw [isGive] at calm
  cases calm

def mainScript : Session := (Session.fresh .unlimited .unlimited false).setBaseOf "scripts/main"

/-- Whether a program starts with an inclusion, and asks for no other file until it ends. -/
def includesOnce (program : Program) : Bool :=
  match program.stmts with
  | .inclusion _ :: _ =>
    let m := mainScript.begin 0 (program.move (.renumber mainScript.state.nextReference))
    let later := m.advanced declaringHost.files 3
    (m.advanced declaringHost.files 20).ending?.isSome &&
      (later.advanced declaringHost.files 17).ending?.isSome &&
      (List.range 21).all (fun n => (m.advanced declaringHost.files n).isCalm) &&
      (List.range 18).all fun n => !(later.advanced declaringHost.files n).asks
  | _ => false

/-- Whether an inclusion is executed in a block after some steps, and is done after eight more. -/
def includesInBlock (program : Program) : Bool :=
  let m := mainScript.begin 0 program
  match m.advanced declaringHost.files 7 with
  | ⟨.exec (.inclusion path), tasks, s⟩ =>
    decide (s.context.env.frame = 1) &&
      (List.range 8).all fun n =>
        (Machine.advanced declaringHost.files n
          ⟨.exec (.inclusion path), tasks, s⟩).isBusyAbove tasks.length
  | _ => false

/-- A declaration is included at the top level, and in a block. -/
theorem declaration_is_included :
    ∃ (program file : Program) (path path' : Token) (after : List Stmt) (past : Past)
      (tasks : List Task) (s : State),
      Program.compile 0 "include \"f\"; print a;" = .ok program ∧
      program.stmts = .inclusion path :: after ∧
      (∀ patience, ∃ k, patience ≤ k ∧ k ≤ patience + 5 ∧
        (mainScript.run { declaringHost with patience := k } "include \"f\"; print a;").1 =
          (mainScript.runProgram { declaringHost with patience := patience }
            (program.spliced mainScript.state.nextReference file [] after)).1) ∧
      Reached past ⟨.exec (.inclusion path'), tasks, s⟩ ∧ s.context.env.frame = 1 ∧
      s.store.Keeps s.store.Global
        (Machine.advanced declaringHost.files 8 ⟨.exec (.inclusion path'), tasks, s⟩).state.store ∧
      s.store.Keeps s.store.Global
        (Machine.advanced declaringHost.files 8 ⟨.exec (.inclusion path'), [],
          { s with context := { s.context with env := State.globals } }⟩).state.store := by
  have fresh : (Session.fresh .unlimited .unlimited false).Reachable := .fresh _ _ _
  obtain ⟨program, compiled, once⟩ :=
    exists_of_compilesTo (show compilesTo includesOnce "include \"f\"; print a;" = true by decide +kernel)
  obtain ⟨file, compiledFile, _⟩ :=
    exists_of_compilesTo (show compilesTo (fun _ => true) "var a = 1;" = true by decide +kernel)
  obtain ⟨inBlock, compiledBlock, block⟩ := exists_of_compilesTo
    (show compilesTo includesInBlock "\x7b var b = 2; include \"f\"; \x7d" = true by decide +kernel)
  unfold includesOnce at once
  split at once
  · next path after stmts =>
      unfold includesInBlock at block
      dsimp only at block
      split at block
      · next path' tasks s isExec =>
          simp only [Bool.and_eq_true, decide_eq_true_eq, List.all_eq_true, List.mem_range] at block
          obtain ⟨frame, busy⟩ := block
          simp only [Bool.and_eq_true, List.all_eq_true, List.mem_range, Bool.not_eq_true'] at once
          obtain ⟨⟨⟨ends, endsLater⟩, calm⟩, silent⟩ := once
          obtain ⟨_, started, _⟩ := (fresh.atRest.setBaseOf "scripts/main").begin 0 compiledBlock
          obtain ⟨past, reached⟩ := started.advanced declaringHost.files 7
          have reached : Reached past ⟨.exec (.inclusion path'), tasks, s⟩ := isExec ▸ reached
          obtain ⟨kept, beside⟩ := inclusion_is_textual.2 past path' tasks s reached
          have keptBeside := (beside s.store State.globals [] declaringHost.files 8
            (s.store.agrees_refl _) fun k early => Machine.not_gives_of_busy (busy k early)).1
          obtain ⟨_, spliced⟩ := inclusion_is_textual.1 mainScript declaringHost
            "include \"f\"; print a;" "var a = 1;" program file [] after path
            (fresh.ready_setBaseOf _) compiled stmts rfl compiledFile
            (fun n overflows => by
              obtain ⟨early, atMost, same⟩ := Machine.exists_advanced_eq ends n
              have same := (congrArg Machine.Overflows same).mp overflows
              exact Machine.not_overflows_of_calm (calm early (Nat.lt_succ_of_le atMost)) same)
            (fun n path₁ _ place _ _ _ awaits _ => by
              obtain ⟨early, atMost, same⟩ := Machine.exists_advanced_eq endsLater n
              have quiet := silent early (Nat.lt_succ_of_le atMost)
              rw [← same] at quiet
              have asks := (congrArg (fun control => Machine.asks ⟨control, [], s⟩) awaits)
              exact absurd (asks.symm.trans quiet) Bool.noConfusion)
          refine ⟨program, file, path, path', after, past, tasks, s, compiled, stmts,
            fun patience => ?_, reached, frame,
            (kept _ (Machine.runsAbove_advanced busy)).1, keptBeside⟩
          obtain ⟨k, least, most, same, _⟩ := spliced patience
          exact ⟨k, least, most, same⟩
      · cases block
  · cases once

end Lox
