import Lox.Proofs.History

/-!
# What a session gets to next

A machine that a session has come to is followed by others: later ones of the same run, and those
of later runs.  Nothing of the past is ever taken back, so frames are only ever added.
-/

namespace Lox

/-- The machines that a session gets to from one with a known past, each with its own. -/
inductive Sequel (past : Past) (m : Machine) : Past → Machine → Prop where
  | here : Sequel past m past m
  | begin {past' : Past} {outcome : Outcome} {s : State} {source : String} {program : Program}
      (before : Sequel past m past' ⟨.give outcome, [], s⟩)
      (compiled : Program.compile s.nextReference source = .ok program) :
      Sequel past m ⟨past'.loaded ++ [⟨s.nextReference, program⟩], past'.opened⟩
        (.ofProgram program.stmts (s.load program))
  | advance {past' : Past} {n : Machine} (files : String → Except Failure String)
      (before : Sequel past m past' n) : Sequel past m (past'.after files n) (n.advance files)
  | pass {past' : Past} {n : Machine} (now : Float) (output : Sink)
      (before : Sequel past m past' n) : Sequel past m past' (n.pass now output)
  | setBase {past' : Past} {outcome : Outcome} {s : State} (base : String)
      (before : Sequel past m past' ⟨.give outcome, [], s⟩) :
      Sequel past m past' ⟨.give outcome, [], { s with context := { s.context with base := base } }⟩

namespace Sequel

variable {past past' : Past} {m n : Machine}

/-- What follows a machine that follows another one follows this one too. -/
theorem trans {past'' : Past} {o : Machine} (first : Sequel past m past' n)
    (next : Sequel past' n past'' o) : Sequel past m past'' o := by
  induction next with
  | here => exact first
  | begin _ compiled ih => exact ih.begin compiled
  | advance files _ ih => exact ih.advance files
  | pass now output _ ih => exact ih.pass now output
  | setBase base _ ih => exact ih.setBase base

/-- What follows a machine that is reached is reached. -/
theorem reached (sequel : Sequel past m past' n) (before : Reached past m) : Reached past' n := by
  induction sequel with
  | here => exact before
  | begin _ compiled ih => exact ih.begin compiled
  | advance files _ ih => exact ih.advance files
  | pass now output _ ih => exact ih.pass now output
  | setBase base _ ih => exact ih.setBase base

/-- The machine after some steps follows. -/
theorem of_stepped (steps : Nat) : ∃ past', Sequel past m past' (m.stepped steps) := by
  induction steps with
  | zero => exact ⟨past, .here⟩
  | succ steps ih =>
      obtain ⟨past', sequel⟩ := ih
      rw [Machine.stepped, Function.iterate_succ_apply']
      exact ⟨_, .advance _ sequel⟩

theorem opened (sequel : Sequel past m past' n) : past.opened <+: past'.opened := by
  induction sequel with
  | here => exact List.prefix_rfl
  | begin _ _ ih => exact ih
  | advance files _ ih => exact ih.trans (List.prefix_append _ _)
  | pass now output _ ih => exact ih
  | setBase base _ ih => exact ih

theorem loaded (sequel : Sequel past m past' n) : past.loaded <+: past'.loaded := by
  induction sequel with
  | here => exact List.prefix_rfl
  | begin _ _ ih => exact ih.trans (List.prefix_append _ _)
  | advance files _ ih => exact ih.trans (List.prefix_append _ _)
  | pass now output _ ih => exact ih
  | setBase base _ ih => exact ih

/-- Frames are only ever added. -/
theorem frames_le (sequel : Sequel past m past' n) (before : Reached past m) :
    m.state.store.frames.size ≤ n.state.store.frames.size := by
  rw [← before.length_opened, ← (sequel.reached before).length_opened]
  exact sequel.opened.length_le

end Sequel

end Lox
