import Mathlib.Algebra.Order.BigOperators.Group.List
import Mathlib.Algebra.Order.Ring.Nat
import Lox.Proofs.Session
import Lox.Proofs.Simulation.Runs

/-!
# Histories

The past of a machine is told by the programs that were loaded and by the scopes that frames
were made for, in their order.  It spans all the runs of a session.  A machine whose past is
known corresponds to itself, in the world of its past.
-/

namespace Lox

/-- What happened since a session was fresh. -/
structure Past where
  loaded : List Loaded
  /-- For each frame what it was made for. -/
  opened : List Opener

namespace Past

/-- Events of the programs that were loaded. -/
def Knows (past : Past) (event : Event) : Prop := ∃ loaded ∈ past.loaded, event ∈ loaded.events

/-- The past of a machine after its next step. -/
def after (files : String → Except Failure String) (m : Machine) (past : Past) : Past :=
  ⟨past.loaded ++ (m.loads? files).toList, past.opened ++ m.opens⟩

/-- A number with which no program starts. -/
def unused (past : Past) : Nat := (past.loaded.map Loaded.first).sum + 1

theorem first_ne_unused {past : Past} {loaded : Loaded} (held : loaded ∈ past.loaded) :
    loaded.first ≠ past.unused := by
  have bounded := List.le_sum_of_mem (List.mem_map_of_mem (f := Loaded.first) held)
  unfold unused
  omega

end Past

/--
The machines that a session gets to, each with its past.  Between runs a machine is at rest, and
then a compiled program may be started or the directory of inclusions changed.  The host may look
at the clock and use the output at any time, and its files may change.
-/
inductive Reached : Past → Machine → Prop where
  | fresh (output : Sink) (now : Float) :
      Reached ⟨[], [.globals]⟩ ⟨.give .nil, [], .initial output now⟩
  | begin {past : Past} {outcome : Outcome} {s : State} {source : String} {program : Program}
      (before : Reached past ⟨.give outcome, [], s⟩)
      (compiled : Program.compile s.nextReference source = .ok program) :
      Reached ⟨past.loaded ++ [⟨s.nextReference, program⟩], past.opened⟩
        (.ofProgram program.stmts (s.load program))
  | advance {past : Past} {m : Machine} (files : String → Except Failure String)
      (before : Reached past m) : Reached (past.after files m) (m.advance files)
  | pass {past : Past} {m : Machine} (now : Float) (output : Sink) (before : Reached past m) :
      Reached past (m.pass now output)
  | setBase {past : Past} {outcome : Outcome} {s : State} (base : String)
      (before : Reached past ⟨.give outcome, [], s⟩) :
      Reached past ⟨.give outcome, [], { s with context := { s.context with base := base } }⟩

/-! ## Machines correspond to themselves -/

/-- A respelling in a program that starts with the given number. -/
def Respelling.apart (number : Nat) : Respelling := ⟨[number], "", "-"⟩

namespace Respelling

theorem apart_proper (number : Nat) : (apart number).Proper := by
  constructor <;> simp [apart]

theorem apart_inside (number : Nat) : (apart number).target ≠ [] := by simp [apart]

theorem apart_foreign {number first : Nat} (other : first ≠ number) :
    (apart number).target.getLast? ≠ some first := by
  simp [apart, other.symm]

end Respelling

/-- The globals of a fresh session are functions of the system. -/
theorem State.exists_native {name : String} {value : Value}
    (found : natives.find? name = some value) : ∃ native, value = .native native := by
  have listed : (name, value) ∈ [("clock", Value.native .clock), ("exit", .native .exit),
      ("print", .native .print)] := Bindings.mem_of_find? found
  simp only [List.mem_cons, Prod.mk.injEq, List.not_mem_nil, or_false] at listed
  rcases listed with ⟨_, same⟩ | ⟨_, same⟩ | ⟨_, same⟩ <;> exact ⟨_, same⟩

theorem natives_related (r : Respelling) (w : World) (store : Store) (name : String) :
    Option.Rel (ValueRel r w store) (State.natives.find? name) (State.natives.find? name) := by
  cases found : State.natives.find? name with
  | none => exact .none
  | some value =>
      obtain ⟨native, rfl⟩ := State.exists_native found
      exact .some (.native native)

/-- The world of a fresh session. -/
def World.fresh : World := ⟨[globalsSite], fun _ => False, 0⟩

theorem MachineRel.fresh {r : Respelling} (inside : r.target ≠ []) (output : Sink) (now : Float) :
    MachineRel r .fresh ⟨.give .nil, [], .initial output now⟩
      ⟨.give .nil, [], .initial output now⟩ := by
  have stores : StoreRel r .fresh (State.initial output now).store
      (State.initial output now).store := by
    refine ⟨rfl, rfl, rfl, rfl, rfl, fun frame site made spelled => ?_, fun object name => .none⟩
    cases frame with
    | zero =>
        cases made
        rw [Respelling.unspell_of_ne fun path => inside path.symm]
        exact natives_related r _ _ spelled
    | succ frame => cases made
  refine .intro (p := .root) .globals (.value (.root rfl) .nil) (.nil rfl rfl)
    ⟨stores, rfl, rfl, rfl, rfl, rfl, ⟨fun id _ => ?_, ?_, ?_⟩, ?_, Nat.le_refl 0⟩
  · simp [State.initial]
  · exact fun _ none => none.elim
  · exact fun _ none => none.elim
  · exact fun _ none => none.elim

/-- A compiled program is started by machines at rest that correspond. -/
theorem MachineRel.begin {r : Respelling} {w : World} {outcome outcome' : Outcome} {s s' : State}
    (related : MachineRel r w ⟨.give outcome, [], s⟩ ⟨.give outcome', [], s'⟩)
    {program program' : Program} (checked : program.Checked s.nextReference)
    (fit : ∀ event ∈ program.events s.nextReference, event.Fit r)
    (respelled : program'.stmts = respellProgram r s.nextReference program.stmts)
    (sameHops : program'.hops = program.hops) (sameWidth : program'.width = program.width) :
    MachineRel r (w.load ⟨s.nextReference, program⟩) (.ofProgram program.stmts (s.load program))
      (.ofProgram program'.stmts (s'.load program')) := by
  obtain @⟨p, q, _, _, _, _, _, _, opens, doing, left, states⟩ := related
  obtain ⟨outermost, outside⟩ := left
  have same : p.sites = [] := by cases doing <;> exact outermost
  have loaded := states.load checked fit sameHops sameWidth
  have inside : (w.load ⟨s.nextReference, program⟩).Knows
      (walkBody [s.nextReference] .root 0 program.stmts) := fun event walked => .inr walked
  have first : TaskRel r (w.load ⟨s.nextReference, program⟩) s.store .root
      (.program program.stmts) (.program program'.stmts) := by
    rw [respelled]
    exact .program Spot.settled_root rfl inside
  have ended : StackRel r (w.load ⟨s.nextReference, program⟩) s.store
      ((Task.program program.stmts).spotAfter .root) [] [] :=
    .nil (Task.spotAfter_sites _ _) (by rw [Task.spotAfter_around]; rfl)
  refine .intro (p := .root) ?_ (.value (.root rfl) .nil) (.task first ended) loaded
  rw [same] at opens
  exact opens.mono (w.grows_load ⟨s.nextReference, program⟩ s.store)

theorem MachineRel.used_le {r : Respelling} {w : World} {m m' : Machine}
    (related : MachineRel r w m m') : w.used ≤ m.state.nextReference := by
  obtain ⟨_, _, _, states⟩ := related
  exact states.used

theorem MachineRel.pass {r : Respelling} {w : World} {m m' : Machine}
    (related : MachineRel r w m m') (now : Float) (output : Sink) :
    MachineRel r w (m.pass now output) (m'.pass now output) := by
  obtain @⟨p, q, control, control', tasks, tasks', s, s', opens, doing, left, states⟩ := related
  exact .intro opens doing left (states.pass now output)

/-- The directory of inclusions may change between runs. -/
theorem MachineRel.setBase {r : Respelling} {w : World} {outcome outcome' : Outcome}
    {s s' : State}
    (related : MachineRel r w ⟨.give outcome, [], s⟩ ⟨.give outcome', [], s'⟩) (base : String) :
    MachineRel r w ⟨.give outcome, [], { s with context := { s.context with base := base } }⟩
      ⟨.give outcome', [], { s' with context := { s'.context with base := base } }⟩ := by
  obtain @⟨p, q, control, control', tasks, tasks', _, _, opens, doing, left, states⟩ := related
  have moved := states.setContext { s.context with base := base }
  rw [states.context]
  exact .intro opens doing left moved

/--
A machine corresponds to itself, in the world of its past, if no program was loaded that has the
scope of the respelling.
-/
theorem Reached.related_of_foreign {past : Past} {m : Machine} (reached : Reached past m)
    {r : Respelling} (proper : r.Proper) (inside : r.target ≠ [])
    (foreign : ∀ loaded ∈ past.loaded, r.target.getLast? ≠ some loaded.first) :
    ∃ w : World, w.sites.map Site.opener = past.opened ∧ (∀ event, w.known event ↔ past.Knows event) ∧
      (∀ loaded ∈ past.loaded, loaded.first < w.used) ∧ MachineRel r w m m := by
  induction reached with
  | fresh output now =>
      refine ⟨.fresh, rfl, fun event => ?_, fun _ none => (List.not_mem_nil none).elim,
        .fresh inside output now⟩
      simp [World.fresh, Past.Knows]
  | @begin past outcome s source program before compiled ih =>
      obtain ⟨w, sites, known, used, related⟩ := ih fun loaded held =>
        foreign loaded (List.mem_append_left _ held)
      have foreign := foreign ⟨s.nextReference, program⟩ (by simp)
      have checked := Program.compile_checked compiled
      have same : respellProgram r s.nextReference program.stmts = program.stmts :=
        respellBody_of_rooted rfl Spot.Rooted.root foreign 0 program.stmts
      refine ⟨w.load ⟨s.nextReference, program⟩, sites, fun event => ?_, fun loaded held => ?_,
        related.begin checked (checked.fit foreign) same.symm rfl rfl⟩
      · simp [World.load, Past.Knows, known, or_and_right, exists_or]
      · have new := Program.width_pos compiled
        show loaded.first < s.nextReference + program.width
        rcases List.mem_append.mp held with before | here
        · have := used loaded before
          have := related.used_le
          dsimp only at this
          omega
        · rw [List.mem_singleton.mp here]
          exact Nat.lt_add_of_pos_right new
  | @advance past m files before ih =>
      obtain ⟨w, sites, known, used, related⟩ := ih fun loaded held =>
        foreign loaded (List.mem_append_left _ held)
      obtain ⟨w', follows⟩ := related.advance proper inside files fun loaded isNext =>
        foreign loaded (by simp [Past.after, isNext])
      refine ⟨w', by rw [follows.sites, sites]; rfl, fun event => ?_, fun loaded held => ?_,
        follows.related⟩
      · rw [follows.known, known]
        simp [Past.Knows, Past.after, or_and_right, exists_or]
      · rcases List.mem_append.mp held with before | latest
        · exact Nat.lt_of_lt_of_le (used loaded before) follows.used
        · exact follows.latest loaded (Option.mem_toList.mp latest)
  | pass now output before ih =>
      obtain ⟨w, sites, known, used, related⟩ := ih foreign
      exact ⟨w, sites, known, used, related.pass now output⟩
  | setBase base before ih =>
      obtain ⟨w, sites, known, used, related⟩ := ih foreign
      exact ⟨w, sites, known, used, related.setBase base⟩

/-- A machine corresponds to itself, in the world of its past. -/
theorem Reached.related {past : Past} {m : Machine} (reached : Reached past m) {number : Nat}
    (apart : ∀ loaded ∈ past.loaded, loaded.first ≠ number) :
    ∃ w : World, w.sites.map Site.opener = past.opened ∧ (∀ event, w.known event ↔ past.Knows event) ∧
      MachineRel (.apart number) w m m := by
  obtain ⟨w, sites, known, _, related⟩ :=
    reached.related_of_foreign (Respelling.apart_proper number) (Respelling.apart_inside number)
      fun loaded held => Respelling.apart_foreign (apart loaded held)
  exact ⟨w, sites, known, related⟩

/-- All programs that were loaded have lower numbers than the next one. -/
theorem Reached.first_lt {past : Past} {m : Machine} (reached : Reached past m) :
    ∀ loaded ∈ past.loaded, loaded.first < m.state.nextReference := by
  intro loaded held
  obtain ⟨w, _, _, used, related⟩ :=
    reached.related_of_foreign (Respelling.apart_proper past.unused)
      (Respelling.apart_inside past.unused)
      fun loaded held => Respelling.apart_foreign (Past.first_ne_unused held)
  exact Nat.lt_of_lt_of_le (used loaded held) related.used_le

/-- Every frame was made for something. -/
theorem Reached.length_opened {past : Past} {m : Machine} (reached : Reached past m) :
    past.opened.length = m.state.store.frames.size := by
  obtain ⟨w, sites, _, related⟩ := reached.related fun _ => Past.first_ne_unused
  obtain @⟨p, q, control, control', tasks, tasks', s, s', _, doing, left, states⟩ := related
  rw [← sites, List.length_map]
  exact states.store.made.symm

/-! ## Sessions -/

namespace Session

/-- The session is at rest, with some past. -/
def AtRest (session : Session) : Prop :=
  ∃ past outcome, Reached past ⟨.give outcome, [], session.state⟩

theorem AtRest.setClock {session : Session} (atRest : session.AtRest) (now : Float) :
    (session.setClock now).AtRest := by
  obtain ⟨past, outcome, reached⟩ := atRest
  exact ⟨past, outcome, reached.pass now session.state.output⟩

/-- A compiled source is started by a session at rest. -/
theorem AtRest.begin {session : Session} (atRest : session.AtRest) (now : Float) {source : String}
    {program : Program}
    (compiled : Program.compile session.state.nextReference source = .ok program) :
    ∃ past, Reached past (session.begin now program) ∧
      ⟨session.state.nextReference, program⟩ ∈ past.loaded := by
  obtain ⟨past, outcome, reached⟩ := atRest.setClock now
  exact ⟨_, reached.begin compiled, List.mem_append_right _ List.mem_cons_self⟩

/-- What a compiled source comes to is at rest. -/
theorem AtRest.reached {session : Session} (atRest : session.AtRest) {host : Host}
    {source : String} {program : Program} {outcome : Outcome}
    (compiled : Program.compile session.state.nextReference source = .ok program)
    (ended : ((session.begin host.now program).run host.files host.patience).1 =
      .outcome outcome) :
    ∃ past, Reached past
      ⟨.give outcome, [], ((session.begin host.now program).run host.files host.patience).2⟩ := by
  obtain ⟨past, started, _⟩ := atRest.begin host.now compiled
  exact Machine.run_outcome (P := fun m => ∃ past, Reached past m)
    (fun _ before _ => before.elim fun past reached => ⟨_, reached.advance host.files⟩)
    ⟨past, started⟩ ended

/-- Whatever comes of a run that is over, the session is at rest again. -/
theorem AtRest.run {host : Host} {source : String} {session after : Session}
    {errors : List Error} (atRest : session.AtRest)
    (ran : session.run host source = (.finished errors, after)) : after.AtRest := by
  rcases run_finished ran with ⟨_, same⟩ | ⟨program, outcome, compiled, ended, same⟩
  · obtain ⟨past, outcome, reached⟩ := atRest.setClock host.now
    exact ⟨past, outcome, same ▸ reached⟩
  · obtain ⟨past, reached⟩ := atRest.reached compiled ended
    exact ⟨past, outcome, same ▸ reached⟩

theorem AtRest.setBaseOf {session : Session} (atRest : session.AtRest) (path : String) :
    (session.setBaseOf path).AtRest := by
  obtain ⟨past, outcome, reached⟩ := atRest
  unfold Session.setBaseOf
  split
  · next directory _ => exact ⟨past, outcome, reached.setBase directory⟩
  · exact ⟨past, outcome, reached⟩

/-- Every reachable session is at rest. -/
theorem Reachable.atRest {session : Session} (reachable : session.Reachable) :
    session.AtRest := by
  induction reachable with
  | fresh output diagnostics debug => exact ⟨_, _, .fresh output 0⟩
  | run before host source ran ih => exact ih.run ran
  | runFile before host path ran ih =>
      obtain ⟨source, ran⟩ := runFile_ok ran
      exact (ih.setBaseOf path).run ran
  | clearMarks before ih => exact ih
  | setDebug before debug ih => exact ih
  | @say session before text ih =>
      obtain ⟨past, outcome, reached⟩ := ih
      exact ⟨past, outcome, reached.pass session.state.now (session.state.output.put [text])⟩

end Session

end Lox
