import Lox.Proofs.History
import Lox.Proofs.Matching.Runs

/-!
# Sessions match themselves

All that a session has come to refers to frames, objects and references that were made before; so
what a session holds matches itself, if each thing is its own counterpart.
-/

namespace Lox

/-- Runs that differ in nothing but the numbers that things are known by. -/
def Leeway.plain : Leeway where
  moves left right := left = id ∧ right = id
  same := ⟨rfl, rfl⟩
  zero stay _ := by rw [stay.1, stay.2]
  bases := Eq
  deeper := 0

theorem Leeway.eq_of_plain {line line' : Nat} (lines : plain.lines line line') : line' = line := by
  obtain ⟨left, right, original, ⟨rfl, rfl⟩, rfl, rfl⟩ := lines
  rfl

/-- Without leeway errors are the same. -/
theorem ErrorMatch.eq {error error' : Error} (related : ErrorMatch .plain error error') :
    error' = error := by
  cases related with
  | runtime lines fault => exact congrArg (Error.runtime · fault) (Leeway.eq_of_plain lines)
  | inclusion lines path causes =>
      exact congrArg (Error.inclusion · path causes) (Leeway.eq_of_plain lines)

/-- Only the globals were made so far. -/
def Pairing.fresh : Pairing :=
  ⟨fun frame frame' => frame = 0 ∧ frame' = 0, fun _ _ => False, fun _ _ => False,
    fun _ _ => False⟩

theorem natives_match (σ : Leeway) (w : Pairing) (name : String) :
    Option.Rel (ValueMatch σ w) (State.natives.find? name) (State.natives.find? name) := by
  cases found : State.natives.find? name with
  | none => exact .none
  | some value =>
      obtain ⟨native, rfl⟩ := State.exists_native found
      exact .some (.native native)

theorem CoreMatch.fresh (σ : Leeway) (output : Sink) (now : Float) :
    CoreMatch σ .fresh (.initial output now) (.initial output now) := by
  refine ⟨⟨⟨rfl, rfl⟩, ⟨?_, ?_⟩, ⟨False.elim, fun none => none.elim⟩,
    ⟨False.elim, fun none => none.elim⟩, ?_, fun none => none.elim⟩, fun none => none.elim,
    fun id _ => ?_, fun id _ => ?_, rfl, rfl⟩
  · rintro _ _ ⟨rfl, rfl⟩
    exact ⟨Nat.one_pos, Nat.one_pos⟩
  · rintro _ _ _ _ ⟨rfl, rfl⟩ ⟨rfl, rfl⟩
    exact Iff.rfl
  · rintro _ _ ⟨rfl, rfl⟩ name
    exact natives_match σ .fresh name
  · exact Std.TreeMap.getElem?_emptyc
  · exact Std.TreeMap.getElem?_emptyc

namespace StateMatch

variable {σ : Leeway} {w : Pairing} {s s' : State}

/-- Between the programs of a session both are at the globals. -/
theorem atGlobals (cores : CoreMatch σ w s s') (env : s.context.env = State.globals)
    (env' : s'.context.env = State.globals) (base : σ.bases s.context.base s'.context.base)
    (depth : s.context.depth = s'.context.depth + σ.deeper) : StateMatch σ w s s' := by
  refine ⟨cores, ?_, base, depth⟩
  rw [env, env']
  exact .cons cores.store.globals .nil

end StateMatch

theorem MachineMatch.pass {σ : Leeway} {w : Pairing} {below below' : List Task} {m m' : Machine}
    (related : MachineMatch σ w below below' m m') (now : Float) (output : Sink) :
    MachineMatch σ w below below' (m.pass now output) (m'.pass now output) := by
  obtain ⟨doing, left, states⟩ := related
  have cores := states.core
  exact .intro doing left ⟨⟨cores.store, cores.references, cores.unused, cores.unused', rfl, rfl⟩,
    states.context⟩

/-- A text is started by matching machines that are at rest. -/
theorem CoreMatch.begin {σ : Leeway} {w : Pairing} {s : State} (states : StateMatch σ w s s)
    {source : String} {program : Program}
    (compiled : Program.compile s.nextReference source = .ok program) :
    ∃ w', MachineMatch σ w' [] [] (.ofProgram program.stmts (s.load program))
      (.ofProgram program.stmts (s.load program)) := by
  rcases Program.compile_twice s.nextReference s.nextReference source with
    ⟨errors, rejected, _⟩ | ⟨base, checked, same, _⟩
  · rw [compiled] at rejected
    cases rejected
  · obtain rfl : program = base.move (.renumber s.nextReference) :=
      Except.ok.inj (compiled.symm.trans same)
    have numbered := (Program.compile_checked compiled).numbered
    obtain ⟨w', grows, cores, covers⟩ := states.core.loadText numbered numbered
    exact ⟨w', .intro (.give .nil)
      (.task (.program (.renumber σ s.nextReference s.nextReference) base.stmts covers) .bottom)
      ⟨cores, states.context.mono grows.within⟩⟩

/-- Whatever machine a session gets to matches itself. -/
theorem Reached.matches_itself {past : Past} {m : Machine} (reached : Reached past m) :
    ∃ w, MachineMatch .plain w [] [] m m := by
  induction reached with
  | fresh output now =>
      exact ⟨.fresh, .intro (.give .nil) .bottom
        (.atGlobals (.fresh .plain output now) rfl rfl rfl rfl)⟩
  | begin before compiled ih =>
      obtain ⟨w, _, _, states⟩ := ih
      exact CoreMatch.begin states compiled
  | @advance past m files before ih =>
      obtain ⟨w, related⟩ := ih
      by_cases ended : m.Gives []
      · obtain ⟨ending, isEnding⟩ := Option.isSome_iff_exists.mp (Machine.ending?_isSome_of_gives ended)
        rw [Machine.advance_of_ended isEnding]
        exact ⟨w, related⟩
      · rcases related.advance ended (related.agree rfl files) with ⟨w', _, later⟩ | ⟨deep, _⟩
        · exact ⟨w', later⟩
        · exact absurd deep (Nat.lt_irrefl 0)
  | pass now output before ih =>
      obtain ⟨w, related⟩ := ih
      exact ⟨w, related.pass now output⟩
  | setBase base before ih =>
      obtain ⟨w, doing, left, states⟩ := ih
      refine ⟨w, .intro ?_ left (states.core.inContext ⟨states.context.env, rfl, rfl⟩)⟩
      cases doing with
      | give related => exact .give related

theorem Reached.advanced {past : Past} {m : Machine} (reached : Reached past m)
    (files : String → Except Failure String) (steps : Nat) :
    ∃ past', Reached past' (m.advanced files steps) := by
  induction steps with
  | zero => exact ⟨past, reached⟩
  | succ steps ih =>
      obtain ⟨past', before⟩ := ih
      rw [Machine.advanced_succ]
      exact ⟨_, before.advance files⟩

/-- What a session holds between its runs matches itself. -/
theorem Session.Reachable.matches_itself {session : Session} (reachable : session.Reachable) :
    ∃ w, CoreMatch .plain w session.state session.state := by
  obtain ⟨past, outcome, reached⟩ := reachable.atRest
  obtain ⟨w, _, _, states⟩ := reached.matches_itself
  exact ⟨w, states.core⟩

end Lox
