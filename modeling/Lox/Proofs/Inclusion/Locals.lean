import Lox.Proofs.Locality.Reach
import Lox.Proofs.Matching.Diagonal

/-!
# Inclusion does not see local scopes

A file that is included from inside of local scopes runs in the scope of the globals.  Two runs that
agree on what the globals reach do the same while they include a file, whatever their local scopes
hold; and no local scope is changed but through what the globals reach.
-/

namespace Lox

/-- One inclusion that is executed by two machines, in any scopes and above any tasks. -/
structure Inclusion where
  path : Token
  tasks : List Task
  tasks' : List Task
  context : Context
  context' : Context
  sameBase : context'.base = context.base
  sameDepth : context'.depth = context.depth

namespace Inclusion

variable (I : Inclusion) (w : Pairing)

/-- How far both have come: at most to the end of the inclusion. -/
inductive Runs : Machine → Machine → Prop where
  | starts {s s' : State} (cores : CoreMatch .plain w s s') (here : s.context = I.context)
      (here' : s'.context = I.context') :
      Runs ⟨.exec (.inclusion I.path), I.tasks, s⟩ ⟨.exec (.inclusion I.path), I.tasks', s'⟩
  | awaits {s s' : State} (cores : CoreMatch .plain w s s') (here : s.context = I.context)
      (here' : s'.context = I.context') :
      Runs ⟨.awaitFile I.path (Path.join I.context.base I.path.pathText), I.tasks, s⟩
        ⟨.awaitFile I.path (Path.join I.context.base I.path.pathText), I.tasks', s'⟩
  | inside {m m' : Machine} {base : String} {depth : Nat}
      (related : MachineMatch .plain w (.finishInclusion I.context :: I.tasks)
        (.finishInclusion I.context' :: I.tasks') m m')
      (above : m.IsAbove (.finishInclusion I.context :: I.tasks) ⟨State.globals, base, depth⟩) :
      Runs m m'
  | done {outcome outcome' : Outcome} {s s' : State}
      (related : OutcomeMatch .plain w outcome outcome') (cores : CoreMatch .plain w s s')
      (here : s.context = I.context) (here' : s'.context = I.context') :
      Runs ⟨.give outcome, I.tasks, s⟩ ⟨.give outcome', I.tasks', s'⟩

end Inclusion

section Steps

variable {I : Inclusion} {w : Pairing} {m m' : Machine} {s s' : State}

open Inclusion

theorem Inclusion.Runs.cores (runs : I.Runs w m m') : CoreMatch .plain w m.state m'.state := by
  cases runs with
  | starts cores => exact cores
  | awaits cores => exact cores
  | inside related above => exact related.states.core
  | done related cores => exact cores

/-- Both are done at the same time, and then with the same outcome. -/
theorem Inclusion.Runs.gives (runs : I.Runs w m m') {outcome : Outcome}
    (isGive : m.control = .give outcome) (ended : m.tasks = I.tasks) :
    ∃ outcome', m'.control = .give outcome' ∧ m'.tasks = I.tasks' ∧
      OutcomeMatch .plain w outcome outcome' := by
  cases runs with
  | starts => cases isGive
  | awaits => cases isGive
  | inside related above =>
      obtain ⟨top, tasks, _⟩ := above
      have length := congrArg List.length (tasks.symm.trans ended)
      simp at length
      omega
  | done related cores =>
      cases isGive
      exact ⟨_, rfl, rfl, related⟩

/-- What a step of both comes to. -/
def Inclusion.Goes (I : Inclusion) (w : Pairing) (s s' : State) (n n' : Machine) : Prop :=
  ∃ w', StateGrows w s s' w' n.state n'.state ∧ I.Runs w' n n'

/-- Both find the file, or none; it is compiled to the same program, and runs at the globals. -/
theorem Inclusion.provide (cores : CoreMatch .plain w s s') (here : s.context = I.context)
    (here' : s'.context = I.context') (answer : Except Failure String) (place : String) :
    I.Goes w s s' (Machine.provide answer I.path place I.tasks s)
      (Machine.provide answer I.path place I.tasks' s') := by
  have fails : ∀ fault, OutcomeMatch .plain w (.failAt I.path fault) (.failAt I.path fault) :=
    fun fault => .failed (.runtime (Leeway.lines_refl _ _) fault)
  unfold Machine.provide
  cases answer with
  | error failure => exact ⟨w, .refl, .done (fails _) cores here here'⟩
  | ok source =>
      dsimp only
      rcases Program.compile_twice s.nextReference s'.nextReference source with
        ⟨errors, rejected, rejected'⟩ | ⟨base, checked, compiled, compiled'⟩
      · rw [rejected, rejected']
        exact ⟨w, .refl, .done (.failed (.inclusion (Leeway.lines_refl _ _) _ errors)) cores here here'⟩
      · rw [compiled, compiled']
        dsimp only
        obtain ⟨w', grows, loaded, covers⟩ := cores.loadText
          (Program.compile_checked compiled).numbered (Program.compile_checked compiled').numbered
        rw [here, here', I.sameDepth]
        split
        · exact ⟨w', grows, .done (.failed (.runtime (Leeway.lines_refl _ _) _)) loaded here here'⟩
        · refine ⟨w', grows.toSimilar ⟨rfl, rfl, rfl, rfl⟩ ⟨rfl, rfl, rfl, rfl⟩,
            .inside ?_ ⟨[_], rfl, rfl⟩⟩
          exact .intro (.give .nil) (.task (.program _ base.stmts covers) .bottom)
            (loaded.inContext ⟨.cons loaded.store.globals .nil, rfl, rfl⟩)

/-- The end of the inclusion brings both back to their own scopes. -/
theorem Inclusion.finish {outcome outcome' : Outcome}
    (related : OutcomeMatch .plain w outcome outcome') (cores : CoreMatch .plain w s s')
    (files : String → Except Failure String) :
    I.Goes w s s'
      (Machine.advance files ⟨.give outcome, .finishInclusion I.context :: I.tasks, s⟩)
      (Machine.advance files ⟨.give outcome', .finishInclusion I.context' :: I.tasks', s'⟩) := by
  have grows : StateGrows w s s' w (s.setContext I.context) (s'.setContext I.context') :=
    StateGrows.refl.toSimilar ⟨rfl, rfl, rfl, rfl⟩ ⟨rfl, rfl, rfl, rfl⟩
  have cores := cores.setContext I.context I.context'
  cases related with
  | value related => exact ⟨w, grows, .done .nil cores rfl rfl⟩
  | returned related => exact ⟨w, grows, .done (.returned related) cores rfl rfl⟩
  | failed related => exact ⟨w, grows, .done (.failed related) cores rfl rfl⟩

theorem Inclusion.Runs.advance (runs : I.Runs w m m') (busy : ¬ m.Gives I.tasks)
    (files : String → Except Failure String) :
    I.Goes w m.state m'.state (m.advance files) (m'.advance files) := by
  cases runs with
  | starts cores here here' =>
      refine ⟨w, .refl, ?_⟩
      show I.Runs w ⟨.awaitFile I.path (Path.join _ I.path.pathText), I.tasks, _⟩
        ⟨.awaitFile I.path (Path.join _ I.path.pathText), I.tasks', _⟩
      rw [here, here', I.sameBase]
      exact .awaits cores here here'
  | awaits cores here here' => exact Inclusion.provide cores here here' _ _
  | done related => exact absurd ⟨_, rfl, rfl⟩ busy
  | inside related above =>
      by_cases gives : m.Gives (.finishInclusion I.context :: I.tasks)
      · obtain ⟨doing, left, states⟩ := related
        obtain ⟨outcome, rfl, rfl⟩ := gives
        obtain rfl := left.bottom_iff.mp rfl
        cases doing with
        | give related => exact Inclusion.finish related states.core files
      · rcases related.advance gives (related.agree rfl files) with ⟨w', grows, next⟩ | ⟨deep, _⟩
        · exact ⟨w', grows, .inside next (above.advance gives files)⟩
        · exact absurd deep (Nat.lt_irrefl 0)

/-- Until the first machine is done both go on side by side. -/
theorem Inclusion.Runs.advanced (runs : I.Runs w m m') {files : String → Except Failure String}
    {steps : Nat} (busy : ∀ k < steps, ¬ (m.advanced files k).Gives I.tasks) :
    I.Goes w m.state m'.state (m.advanced files steps) (m'.advanced files steps) := by
  induction steps with
  | zero => exact ⟨w, .refl, runs⟩
  | succ steps ih =>
      obtain ⟨w', grows, still⟩ := ih fun k early => busy k (Nat.lt_succ_of_lt early)
      obtain ⟨w'', later, next⟩ := still.advance (busy steps (Nat.lt_succ_self steps)) files
      rw [Machine.advanced_succ, Machine.advanced_succ]
      exact ⟨w'', grows.trans later, next⟩

theorem Inclusion.Runs.pass (runs : I.Runs w m m') (now : Float) (output : Sink) :
    I.Runs w (m.pass now output) (m'.pass now output) := by
  have passed : ∀ {s s' : State}, CoreMatch .plain w s s' →
      CoreMatch .plain w { s with now := now, output := output }
        { s' with now := now, output := output } := fun cores =>
    ⟨cores.store, cores.references, cores.unused, cores.unused', rfl, rfl⟩
  cases runs with
  | starts cores here here' => exact .starts (passed cores) here here'
  | awaits cores here here' => exact .awaits (passed cores) here here'
  | inside related above => exact .inside (related.pass now output) above
  | done related cores here here' => exact .done related (passed cores) here here'

/-- Whatever the hosts answer, an inclusion touches only what was paired at its start. -/
theorem Inclusion.Runs.kept (runs : I.Runs w m m) {n : Machine}
    (above : Machine.RunsAbove I.tasks m n) :
    ∃ w', StoreGrows w m.state.store m.state.store w' n.state.store n.state.store ∧
      I.Runs w' n n := by
  induction above with
  | start => exact ⟨w, .refl, runs⟩
  | advance files _ unfinished ih =>
      obtain ⟨w', grows, still⟩ := ih
      obtain ⟨w'', later, next⟩ := still.advance unfinished files
      exact ⟨w'', grows.trans later.stores, next⟩
  | pass now output _ ih =>
      obtain ⟨w', grows, still⟩ := ih
      exact ⟨w', grows, still.pass now output⟩

/-- The statements of the file are executed at the globals, whatever they open scopes for. -/
theorem Inclusion.Runs.at_globals (runs : I.Runs w m m') {top : List Task} {rest : List Stmt}
    (tasks : m.tasks = top ++ .program rest :: .finishInclusion I.context :: I.tasks) :
    (contextAfter top m.state.context).env = State.globals := by
  have higher : m.tasks ≠ I.tasks := by
    intro same
    have length := congrArg List.length (tasks.symm.trans same)
    simp at length
    omega
  cases runs with
  | starts => exact absurd rfl higher
  | awaits => exact absurd rfl higher
  | done => exact absurd rfl higher
  | inside related above =>
      obtain ⟨above, inside, after⟩ := above
      have split : above = top ++ [.program rest] := by
        refine List.append_cancel_right (inside.symm.trans (tasks.trans ?_))
        rw [List.append_assoc]
        rfl
      rw [split, contextAfter_append] at after
      exact congrArg Context.env after

end Steps

/-! ## What is reached from the globals -/

/-- What the globals reach in a store, whatever scopes are open. -/
def Store.Global (store : Store) : Cell → Prop := store.Reaches State.globals.Roots

/-- A store that holds the same as another one in some cells, and anything in all others. -/
structure Store.Agrees (cells : Cell → Prop) (store other : Store) : Prop where
  frames : ∀ frame, cells (.frame frame) → frame < store.frames.size →
    frame < other.frames.size ∧ other.bindings frame = store.bindings frame
  objects : ∀ object, cells (.object object) → object < store.objects.size →
    object < other.objects.size ∧ other.fields object = store.fields object
  identities : other.nextIdentity = store.nextIdentity

theorem Store.closed_global (store : Store) : store.Closed store.Global :=
  Store.closed_reaches (.inr rfl)

/-- Stores that agree on what the globals reach match there. -/
theorem CoreMatch.of_agrees {w : Pairing} {s s' : State} {other : Store}
    (cores : CoreMatch .plain w s s') (agrees : s.store.Agrees s.store.Global other)
    (context : Context) :
    CoreMatch .plain (w.onItself.within s.store.Global) s
      { s with store := other, context := context } := by
  obtain ⟨⟨globals, frames, objects, identities, values, fields⟩, references, unused, unused',
    output, now⟩ := cores.onItself.within s.store.closed_global
  have frameOf : ∀ {frame frame'}, (w.onItself.within s.store.Global).frames frame frame' →
      frame' = frame ∧ frame < other.frames.size ∧
        other.bindings frame = s.store.bindings frame := fun paired =>
    ⟨paired.1.1, agrees.frames _ paired.2 (frames.lt paired).1⟩
  have objectOf : ∀ {object object'}, (w.onItself.within s.store.Global).objects object object' →
      object' = object ∧ object < other.objects.size ∧
        other.fields object = s.store.fields object := fun paired =>
    ⟨paired.1.1, agrees.objects _ paired.2 (objects.lt paired).1⟩
  refine ⟨⟨globals, ⟨fun paired => ?_, frames.iff⟩, ⟨fun paired => ?_, objects.iff⟩, ?_,
    fun paired name => ?_, fun paired name => ?_⟩, references, unused, unused', rfl, rfl⟩
  · obtain ⟨rfl, there, _⟩ := frameOf paired
    exact ⟨(frames.lt paired).1, there⟩
  · obtain ⟨rfl, there, _⟩ := objectOf paired
    exact ⟨(objects.lt paired).1, there⟩
  · show OneToOne _ s.store.nextIdentity other.nextIdentity
    rw [agrees.identities]
    exact identities
  · have related := values paired name
    obtain ⟨rfl, _, same⟩ := frameOf paired
    show Option.Rel _ _ ((other.bindings _).find? name)
    rw [same]
    exact related
  · have related := fields paired name
    obtain ⟨rfl, _, same⟩ := objectOf paired
    show Option.Rel _ _ ((other.fields _).find? name)
    rw [same]
    exact related

end Lox
