import Lox.Proofs.Simulation.Steps

/-!
# Runs of corresponding machines

Programs that are loaded while the machines run are the same for both: the scope of a respelling
does not belong to them.  So every step keeps machines in correspondence, and a whole run does.
-/

namespace Lox

open World

variable {r : Respelling} {w w' : World}

/-- A compiled program without the scope of a respelling is fit to be executed. -/
theorem Program.Checked.fit {first : Nat} {program : Program} (checked : program.Checked first)
    (foreign : r.target.getLast? ≠ some first) :
    ∀ event ∈ program.events first, event.Fit r := by
  intro event walked
  have rooted : event.spot.Rooted first :=
    walkBody_rooted rfl Spot.Rooted.root 0 program.stmts event walked
  refine ⟨checked.sound event walked, checked.proper event walked, fun name _ site opened here => ?_,
    fun name _ => Respelling.spellHere_of_rooted rooted foreign name.lexeme⟩
  rw [← here] at foreign
  exact absurd (rooted site opened) foreign

/-- The world in which a program was loaded. -/
def World.load (w : World) (loaded : Loaded) : World :=
  { w with
    known := fun event => w.known event ∨ event ∈ loaded.events
    used := loaded.first + loaded.program.width }

theorem World.grows_load (loaded : Loaded) (store : Store) :
    Grows w store (w.load loaded) store :=
  ⟨List.prefix_rfl, fun _ isKnown => .inl isKnown, fun _ _ bound => bound, fun _ _ bound => bound⟩

/-- States correspond after programs were loaded that differ in their statements only. -/
theorem StateRel.load {s s' : State} (states : StateRel r w s s') {program program' : Program}
    (checked : program.Checked s.nextReference)
    (fit : ∀ event ∈ program.events s.nextReference, event.Fit r)
    (sameHops : program'.hops = program.hops) (sameWidth : program'.width = program.width) :
    StateRel r (w.load ⟨s.nextReference, program⟩) (s.load program) (s'.load program') := by
  obtain ⟨stores, context, hops, nextReference, output, now, located, fits, _⟩ := states
  have grows := w.grows_load ⟨s.nextReference, program⟩ s.store
  refine ⟨⟨stores.made, stores.made', stores.objects, stores.identities, stores.globals,
    fun frame site made => ?_, fun object name => ?_⟩, context, ?_, ?_, output, now,
    located.load checked, fun event isKnown => ?_, Nat.le_refl _⟩
  · exact (stores.bindings frame site made).mono fun _ _ value => value.mono grows
  · exact optionRel_mono (fun _ _ value => value.mono grows) (stores.fields object name)
  · unfold State.load
    rw [sameHops, hops]
  · unfold State.load
    rw [sameWidth, nextReference]
  · rcases isKnown with before | walked
    · exact fits event before
    · exact fit event walked

/-- What a step comes to: corresponding machines in a world that has grown just so. -/
structure Follows (r : Respelling) (w : World) (store : Store) (opened : List Opener)
    (loaded : Option Loaded) (w' : World) (n n' : Machine) : Prop where
  grows : Grows w store w' n.state.store
  sites : w'.sites.map Site.opener = w.sites.map Site.opener ++ opened
  known : ∀ event, w'.known event ↔
    w.known event ∨ ∃ program, loaded = some program ∧ event ∈ program.events
  used : w.used ≤ w'.used
  latest : ∀ program, loaded = some program → program.first < w'.used
  related : MachineRel r w' n n'

/-- A step that loads nothing. -/
theorem Advances.follows {store : Store} {opened : List Opener} {n n' : Machine}
    (advances : Advances r w store opened n n') :
    ∃ w', Follows r w store opened none w' n n' := by
  obtain ⟨w', ⟨known, used⟩, grows, sites, related⟩ := advances
  refine ⟨w', grows, sites, fun event => ?_, Nat.le_of_eq used.symm,
    fun _ none => (Option.some_ne_none _ none.symm).elim, related⟩
  rw [known]
  simp

/-- A file is included: it is loaded if it is a program, and run outside of all functions. -/
theorem Poised.provide {p : Spot} {tasks tasks' : List Task} {s s' : State}
    (poised : Poised r w p tasks tasks' s s') (files : String → Except Failure String)
    (path : Token) (place : String)
    (foreign : ∀ loaded, Machine.loads? files ⟨.awaitFile path place, tasks, s⟩ = some loaded →
      r.target.getLast? ≠ some loaded.first) :
    ∃ w', Follows r w s.store [] (Machine.loads? files ⟨.awaitFile path place, tasks, s⟩) w'
      (Machine.provide (files place) path place tasks s)
      (Machine.provide (files place) path place tasks' s') := by
  unfold Machine.loads? at foreign ⊢
  unfold Machine.provide
  dsimp only at foreign ⊢
  cases read : files place with
  | error failure => exact (Advances.still (poised.failAt ..) .refl).follows
  | ok source =>
      dsimp only
      rw [read] at foreign
      dsimp only at foreign
      rw [poised.states.nextReference]
      cases compiled : Program.compile s.nextReference source with
      | error errors => exact (Advances.still (poised.failed (.same _)) .refl).follows
      | ok program =>
          rw [compiled] at foreign
          have foreign : r.target.getLast? ≠ some s.nextReference := foreign _ rfl
          have checked := Program.compile_checked compiled
          have fit := checked.fit foreign
          have states := poised.states.load checked fit rfl rfl
          have grows := w.grows_load ⟨s.nextReference, program⟩ s.store
          have stands := poised.stands.mono grows
          have left := poised.left.mono grows
          have known : ∀ event, (w.load ⟨s.nextReference, program⟩).known event ↔
              w.known event ∨ ∃ loaded, some (Loaded.mk s.nextReference program) = some loaded ∧
                event ∈ loaded.events := by
            intro event
            simp [World.load]
          have used : w.used ≤ (w.load ⟨s.nextReference, program⟩).used :=
            Nat.le_add_right_of_le poised.states.used
          have latest : ∀ loaded, some (Loaded.mk s.nextReference program) = some loaded →
              loaded.first < (w.load ⟨s.nextReference, program⟩).used := by
            rintro loaded ⟨⟩
            exact Nat.lt_add_of_pos_right (Program.width_pos compiled)
          refine ⟨w.load ⟨s.nextReference, program⟩, ?_⟩
          dsimp only
          rw [poised.states.context]
          split
          · exact ⟨grows, (List.append_nil _).symm, known, used, latest,
              MachineRel.failing (s := s.load program) stands.opens left states (.same _)⟩
          · have inside : (w.load ⟨s.nextReference, program⟩).Knows
                (walkBody [s.nextReference] .root 0 program.stmts) := fun event walked => .inr walked
            have same : respellBody r [s.nextReference] .root 0 program.stmts = program.stmts :=
              respellBody_of_rooted rfl Spot.Rooted.root foreign 0 program.stmts
            have first : TaskRel r (w.load ⟨s.nextReference, program⟩) s.store .root
                (.program program.stmts) (.program program.stmts) := by
              have read : TaskRel r (w.load ⟨s.nextReference, program⟩) s.store .root
                  (.program program.stmts) _ := .program Spot.settled_root rfl inside
              rwa [same] at read
            have outside :
                ((Task.program program.stmts).spotAfter .root).around.inFunction = false := by
              rw [Task.spotAfter_around]
              rfl
            have run := StackRel.task first (.finishInclusion outside stands left)
            exact ⟨grows, (List.append_nil _).symm, known, used, latest,
              .intro .globals (.value (.root rfl) .nil) run (states.setContext _)⟩

/-- Corresponding stacks are both empty, or both have a first task. -/
theorem StackRel.empty_or_cons {store : Store} {p : Spot} {tasks tasks' : List Task}
    (left : StackRel r w store p tasks tasks') :
    (tasks = [] ∧ tasks' = []) ∨
      ∃ task rest task' rest', tasks = task :: rest ∧ tasks' = task' :: rest' := by
  cases left with
  | nil => exact .inl ⟨rfl, rfl⟩
  | _ => exact .inr ⟨_, _, _, _, rfl, rfl⟩

namespace MachineRel

variable {m m' : Machine}

/-- A step keeps machines in correspondence. -/
theorem advance (related : MachineRel r w m m') (proper : r.Proper) (inside : r.target ≠ [])
    (files : String → Except Failure String)
    (foreign : ∀ loaded, m.loads? files = some loaded → r.target.getLast? ≠ some loaded.first) :
    ∃ w', Follows r w m.state.store m.opens (m.loads? files) w' (m.advance files)
      (m'.advance files) := by
  obtain @⟨p, q, control, control', tasks, tasks', s, s', opens, doing, left, states⟩ := related
  cases doing with
  | eval holds known =>
      have poised : Poised r w p tasks tasks' s s' := ⟨opens, holds, left, states⟩
      exact (poised.evaluate inside proper known).follows
  | exec holds settled known =>
      exact (Poised.execute opens holds settled inside proper known left states).follows
  | value holds related =>
      rcases left.empty_or_cons with ⟨rfl, rfl⟩ | ⟨task, rest, task', rest', rfl, rfl⟩
      · exact (Advances.still (.intro opens (.value holds related) left states) .refl).follows
      · exact (left.resume opens holds inside proper related states).follows
  | returned within related =>
      rcases left.empty_or_cons with ⟨rfl, rfl⟩ | ⟨task, rest, task', rest', rfl, rfl⟩
      · exact (Advances.still (.intro opens (.returned within related) left states) .refl).follows
      · obtain ⟨unwound, same⟩ := left.unwind opens proper within related states
        exact (Advances.still unwound (same.symm ▸ .refl)).follows
  | failed related =>
      rcases left.empty_or_cons with ⟨rfl, rfl⟩ | ⟨task, rest, task', rest', rfl, rfl⟩
      · exact (Advances.still (.intro opens (.failed related) left states) .refl).follows
      · obtain ⟨abandoned, same⟩ := left.abandon opens related states
        exact (Advances.still abandoned (same.symm ▸ .refl)).follows
  | awaitFile holds =>
      have poised : Poised r w p tasks tasks' s s' := ⟨opens, holds, left, states⟩
      exact poised.provide files _ _ foreign
  | exited code =>
      exact (Advances.still (.intro opens (.exited code) left states) .refl).follows

end MachineRel

end Lox
