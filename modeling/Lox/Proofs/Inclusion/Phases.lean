import Lox.Proofs.Matching.Sessions
import Lox.Proofs.Inclusion.Programs

/-!
# Inclusion is textual inclusion

At the top level an inclusion does what the statements of the file do in its place, one level deeper
and some steps later.
-/

namespace Lox

/-- What a file may differ in while it is included: it may include from elsewhere, on a level more. -/
def Leeway.included : Leeway := { Leeway.plain with bases := fun _ _ => True, deeper := 1 }

theorem Leeway.plain_within_included : plain.Within included := fun _ _ => id

theorem Leeway.included_within_plain : included.Within plain := fun _ _ => id

/--
As long as the inclusion in front of some statements is being executed by the first machine, the
files that both ask for at the same time are the same.
-/
def ReadAlike (files : String → Except Failure String) (rest : List Stmt) (m m' : Machine) : Prop :=
  ∀ n path path' place place' context,
    [.finishInclusion context, .program rest] <:+ (m.advanced files n).tasks →
    (m.advanced files n).control = .awaitFile path place →
    (m'.advanced files n).control = .awaitFile path' place' → files place = files place'

theorem ReadAlike.advanced {files : String → Except Failure String} {rest : List Stmt}
    {m m' : Machine} (alike : ReadAlike files rest m m') (steps : Nat) :
    ReadAlike files rest (m.advanced files steps) (m'.advanced files steps) := by
  intro n
  rw [← Machine.advanced_add, ← Machine.advanced_add]
  exact alike (steps + n)

namespace Machine

variable {files : String → Except Failure String} {path : Token} {text : String}
  {program : Program} {s : State}

/-- The start of a file that was loaded, in the context that it is included in. -/
def including (path : Token) (program : Program) (tasks : List Task) (s : State) : Machine :=
  ⟨.give .nil, .program program.stmts :: .finishInclusion s.context :: tasks,
    (s.load program).setContext ⟨State.globals,
      (Path.parent? (Path.join s.context.base path.pathText)).getD "", s.context.depth + 1⟩⟩

/-- A file that can be read and compiled is included in two steps, unless it is too deep. -/
theorem advanced_inclusion (tasks : List Task)
    (readable : files (Path.join s.context.base path.pathText) = .ok text)
    (compiled : Program.compile s.nextReference text = .ok program)
    (shallow : s.context.depth < maxDepth) :
    (⟨.exec (.inclusion path), tasks, s⟩ : Machine).advanced files 2 =
      including path program tasks s := by
  show provide (files (Path.join s.context.base path.pathText)) path _ tasks s = _
  rw [readable]
  unfold provide
  dsimp only
  rw [compiled]
  dsimp only
  rw [if_neg (Nat.not_le.mpr shallow)]
  rfl

end Machine

/-! ## The statements of a file, included and in place -/

/-- The first machine includes statements, and in the second they stand in place. -/
def Phase.ofFile (first offset : Nat) (base : String) (rest : List Stmt) (context : Context) :
    Phase .included :=
  ⟨.renumber _ first offset, [], rest, [.finishInclusion context, .program rest], [],
    ⟨State.globals, base, context.depth + 1⟩, context⟩

section Phases

variable {files : String → Except Failure String} {w : Pairing} {t t' : State} {file : Program}
  {offset number : Nat} {after : List Stmt}

/-- What follows the inclusion is the same. -/
theorem StateMatch.keepsUp_after (states : StateMatch .plain w t t')
    (covers : w.Covers (.renumber .plain number number) (actsBody after)) (value value' : Value) :
    KeepsUp files 0 ⟨.give (.value value), [.program (moveBody (.renumber number) after)], t⟩
      ⟨.give (.value value'), [.program (moveBody (.renumber number) after)], t'⟩ := by
  exact (Phase.Runs.start_final (.renumber .plain number number) value value' covers
    states).keepsUp_final files

/-- The file is loaded when it is included; where its statements stand in place it was before. -/
theorem StateMatch.begin_file (states : StateMatch .plain w t t') (same : t'.context = t.context)
    (atTop : t.context.env = State.globals)
    (numbered : (file.move (.renumber t.nextReference)).Numbered t.nextReference)
    (known : ∀ id ∈ file.numbers,
      id + offset < t'.nextReference ∧ t'.hops[id + offset]? = file.hop? id)
    (path : Token) (rest : List Stmt) (value : Value) :
    ∃ w', w.Within w' ∧ (Phase.ofFile t.nextReference offset
        ((Path.parent? (Path.join t.context.base path.pathText)).getD "") rest t.context).Runs w'
      (.including path (file.move (.renumber t.nextReference)) [.program rest] t)
      ⟨.give (.value value), [.program (moveBody (.renumber offset) file.stmts ++ rest)], t'⟩ := by
  have cores := states.core.widen Leeway.plain_within_included
  obtain ⟨w', grows, cores, covers⟩ := cores.loadLeft numbered
    (.renumber _ t.nextReference offset) file.stmts fun id held => by
      obtain ⟨early, found⟩ := known id held
      refine ⟨?_, early, (file.hop?_move (.renumber t.nextReference) id).trans found.symm⟩
      rw [file.numbers_move]
      exact List.mem_map_of_mem held
  refine ⟨w', grows.within, ?_⟩
  let P := Phase.ofFile t.nextReference offset
    ((Path.parent? (Path.join t.context.base path.pathText)).getD "") rest t.context
  have states : StateMatch .included w'
      ((t.load (file.move (.renumber t.nextReference))).setContext P.context) t' := by
    refine ⟨cores.setContext P.context t'.context, ?_, trivial, ?_⟩
    · rw [same, atTop]
      exact .cons cores.store.globals .nil
    · rw [same]
      rfl
  have runs := Phase.Runs.start P .nil value covers states rfl same
  rwa [show P.next = [] from rfl, List.append_nil] at runs

/-- After the inclusion the context is what it was, as it is in the other run all the time. -/
theorem StateMatch.restored (states : StateMatch .included w t t') {context : Context}
    (atTop : context.env = State.globals) (here : t'.context = context) :
    StateMatch .plain w (t.setContext context) t' := by
  subst here
  exact .atGlobals ((states.core.widen Leeway.included_within_plain).setContext _ t'.context) atTop
    atTop rfl rfl

/-- An included file and its statements in place come to the same, and go on with the same. -/
theorem StateMatch.keepsUp_file (states : StateMatch .plain w t t') (same : t'.context = t.context)
    (atTop : t.context.env = State.globals)
    (covers : w.Covers (.renumber .plain number number) (actsBody after))
    (numbered : (file.move (.renumber t.nextReference)).Numbered t.nextReference)
    (known : ∀ id ∈ file.numbers,
      id + offset < t'.nextReference ∧ t'.hops[id + offset]? = file.hop? id)
    (path : Token) (value : Value) {m m' : Machine}
    (isFirst : m = .including path (file.move (.renumber t.nextReference))
      [.program (moveBody (.renumber number) after)] t)
    (isSecond : m' = ⟨.give (.value value),
      [.program (moveBody (.renumber offset) file.stmts ++ moveBody (.renumber number) after)], t'⟩)
    (alike : ReadAlike files (moveBody (.renumber number) after) m m')
    (calm : ∀ n, ¬ (m.advanced files n).Overflows) : KeepsUp files 2 m m' := by
  obtain ⟨w', within, runs⟩ := states.begin_file same atTop numbered known path
    (moveBody (.renumber number) after) value
  rw [← isFirst, ← isSecond] at runs
  refine runs.keepsUp Leeway.included_within_plain (fun n _ still path path' place place' => ?_) calm
    (fun n w'' grows done => ?_) fun n w'' failed => ?_
  · exact fun awaits awaits' =>
      ⟨alike n path path' place place' t.context still.below_suffix awaits awaits', trivial⟩
  · generalize m.advanced files n = k at *
    generalize m'.advanced files n = k' at *
    obtain @⟨_, _, u, u', after, here, here'⟩ := done
    exact ((after.restored atTop here').keepsUp_after (covers.mono (within.trans grows.within)) .nil
      _).of_advanced 2
  · generalize m.advanced files n = k at *
    generalize m'.advanced files n = k' at *
    obtain @⟨_, _, _, stmts, u, u', related, after, here, here'⟩ := failed
    let P := Phase.final (.renumber .plain 0 0) t.context u'.context
    have both : ∀ stmts', P.Failed w'' ⟨_, [.program stmts'], _⟩ ⟨_, [.program stmts], _⟩ :=
      fun stmts' => .intro (related.widen Leeway.included_within_plain) (after.restored atTop here')
        rfl rfl
    exact ((both _).keepsUp rfl rfl files).of_advanced 2

/-- The statements before an inclusion, with the inclusion or the file's statements after them. -/
def Phase.beforeFile (number : Nat) (path : Token) (stmts rest : List Stmt) (context : Context) :
    Phase .plain :=
  ⟨.renumber _ number number, .inclusion path :: rest, stmts ++ rest, [], [], context, context⟩

variable {program : Program} {before : List Stmt} {path : Token} {s : State} {text : String}

/-- From one state a program is begun, and the same with a file's statements in place. -/
theorem StateMatch.begin_spliced (states : StateMatch .plain w s s)
    (includes : program.Includes before path after) (numberedFile : file.Numbered 0)
    (numbered : (program.move (.renumber s.nextReference)).Numbered s.nextReference) :
    ∃ w', (Phase.beforeFile s.nextReference path
        (moveBody (.renumber (s.nextReference + program.width)) file.stmts)
        (moveBody (.renumber s.nextReference) after) s.context).Runs w'
      (.ofProgram (program.move (.renumber s.nextReference)).stmts
        (s.load (program.move (.renumber s.nextReference))))
      (.ofProgram (program.spliced s.nextReference file before after).stmts
        (s.load (program.spliced s.nextReference file before after))) ∧
      w'.Covers (.renumber .plain s.nextReference s.nextReference) (actsBody after) := by
  have numberedBoth := includes.numbered_spliced numberedFile s.nextReference
  obtain ⟨w', grows, cores, covers⟩ := states.core.loadShared numbered numberedBoth
    (.renumber _ s.nextReference s.nextReference) (before ++ after) fun id held => by
      have same := includes.hop?_spliced numberedFile s.nextReference held
      rw [idsOf_actsBody_append] at held
      refine ⟨?_, ?_, (program.hop?_move (.renumber s.nextReference) id).trans same.symm⟩
      · rw [program.numbers_move, includes.numbers]
        exact List.mem_map_of_mem held
      · rw [Program.numbers_spliced, List.mem_append, List.mem_append]
        rcases List.mem_append.mp held with inBefore | inAfter
        · exact .inl (List.mem_map_of_mem inBefore)
        · exact .inr (.inr (List.mem_map_of_mem inAfter))
  rw [actsBody_append, Pairing.covers_append] at covers
  refine ⟨w', ?_, covers.2⟩
  have runs := Phase.Runs.start (.beforeFile s.nextReference path
    (moveBody (.renumber (s.nextReference + program.width)) file.stmts)
    (moveBody (.renumber s.nextReference) after) s.context) .nil .nil covers.1
    ⟨cores, states.context.mono grows.within⟩ rfl rfl
  have stmts : (program.move (.renumber s.nextReference)).stmts =
      moveBody (.renumber s.nextReference) before ++
        .inclusion path :: moveBody (.renumber s.nextReference) after := by
    rw [Program.move, includes.stmts, moveBody_append]
    rfl
  rw [stmts]
  exact runs

/-- The references of statements in place stay known after the program is loaded. -/
theorem Program.Includes.known (includes : program.Includes before path after)
    (numberedFile : file.Numbered 0) (unused : ∀ id, s.nextReference ≤ id → s.hops[id]? = none)
    (later : (s.load (program.spliced s.nextReference file before after)).Extends t') :
    ∀ id ∈ file.numbers, id + (s.nextReference + program.width) < t'.nextReference ∧
      t'.hops[id + (s.nextReference + program.width)]? = file.hop? id := by
  intro id held
  have inside : id + (s.nextReference + program.width) ∈
      (program.spliced s.nextReference file before after).numbers := by
    rw [Program.numbers_spliced, List.mem_append, List.mem_append]
    exact .inr (.inl (List.mem_map_of_mem held))
  obtain ⟨late, early⟩ :=
    (includes.numbered_spliced numberedFile s.nextReference).numbers.range _ inside
  refine ⟨Nat.lt_of_lt_of_le early later.nextReference, ?_⟩
  rw [later.hops _ early, State.hops_load unused late, includes.hop?_spliced_file numberedFile]

/-- A program keeps up with the one in which the statements of the file stand in place. -/
theorem StateMatch.keepsUp_spliced (states : StateMatch .plain w s s)
    (atTop : s.context.env = State.globals) (shallow : s.context.depth < maxDepth)
    (includes : program.Includes before path after)
    (numbered : (program.move (.renumber s.nextReference)).Numbered s.nextReference)
    (readable : files (Path.join s.context.base path.pathText) = .ok text)
    (compiled : Program.compile 0 text = .ok file) {m m' : Machine}
    (isFirst : m = .ofProgram (program.move (.renumber s.nextReference)).stmts
      (s.load (program.move (.renumber s.nextReference))))
    (isSecond : m' = .ofProgram (program.spliced s.nextReference file before after).stmts
      (s.load (program.spliced s.nextReference file before after)))
    (alike : ReadAlike files (moveBody (.renumber s.nextReference) after) (m.advanced files 3) m')
    (calm : ∀ n, ¬ (m.advanced files n).Overflows) : KeepsUp files 5 m m' := by
  have numberedFile := (Program.compile_checked compiled).numbered
  obtain ⟨w', runs, covers⟩ := states.begin_spliced includes numberedFile numbered
  rw [← isFirst, ← isSecond] at runs
  refine runs.keepsUp (fun _ _ => id) (fun _ _ still => still.agree rfl files) calm
    (fun n w'' grows done => ?_) fun n w'' failed => (failed.keepsUp rfl rfl files).mono (Nat.zero_le 5)
  have known : (s.load (program.spliced s.nextReference file before after)).Extends
      (m'.advanced files n).state := by
    have later := grows.right
    rwa [isSecond] at later ⊢
  have alike := alike.advanced n
  have calm : ∀ k, ¬ (((m.advanced files n).advanced files 3).advanced files k).Overflows := by
    intro k
    rw [← Machine.advanced_add, ← Machine.advanced_add]
    exact calm _
  rw [← Machine.advanced_add, Nat.add_comm 3 n, Machine.advanced_add] at alike
  have covers := covers.mono grows.within
  generalize m.advanced files n = k at *
  generalize m'.advanced files n = k' at *
  obtain @⟨value, value', t, t', statesThen, here, here'⟩ := done
  have here : t.context = s.context := here
  have compiled' := Program.compile_renumber 0 t.nextReference text
  rw [Nat.zero_add, compiled, Program.moveCompiled] at compiled'
  have included := Machine.advanced_inclusion
    [.program (moveBody (.renumber s.nextReference) after)] (by rwa [here]) compiled' (by rwa [here])
  exact .of_advanced 3 (statesThen.keepsUp_file (here'.trans here.symm) (by rwa [here]) covers
    (Program.compile_checked compiled').numbered
    (includes.known numberedFile states.core.unused known) path value' included rfl alike calm)

end Phases

end Lox
