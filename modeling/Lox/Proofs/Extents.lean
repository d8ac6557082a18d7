import Lox.Proofs.Stack

/-!
# The environments of an activation

While a body runs, and is not busy with a call or an inclusion, the environment is that of the body
or one inside of it: blocks put frames in front of it, and take them away again.  So the functions
that are declared there keep an environment that ends with the one of the body.
-/

namespace Lox

namespace Env

variable {env outer outermost : Env}

/-- An environment that ends with another one. -/
def Extends (env outer : Env) : Prop := ∃ inner, env.chain = inner ++ outer.chain

theorem Extends.refl (env : Env) : env.Extends env := ⟨[], rfl⟩

theorem Extends.trans (first : env.Extends outer) (second : outer.Extends outermost) :
    env.Extends outermost := by
  obtain ⟨inner, chain⟩ := first
  obtain ⟨between, chain'⟩ := second
  exact ⟨inner ++ between, by rw [chain, chain', List.append_assoc]⟩

theorem Extends.branch (extends' : env.Extends outer) (frame : Nat) :
    (env.branch frame).Extends outer := by
  obtain ⟨inner, chain⟩ := extends'
  exact ⟨frame :: inner, by rw [chain_branch, chain, List.cons_append]⟩

/-- As many frames are left for the innermost frame of the outer one as it has fewer frames. -/
theorem Extends.ancestor?_eq (extends' : env.Extends outer) {distance : Nat}
    (away : env.chain.length = distance + outer.chain.length) :
    env.ancestor? distance = some outer.frame := by
  obtain ⟨inner, chain⟩ := extends'
  have length : inner.length = distance := by
    rw [chain, List.length_append] at away
    omega
  rw [ancestor?, chain, ← length, List.getElem?_append_right (Nat.le_refl _), Nat.sub_self]
  rfl

end Env

/-- Whether a task is part of the body that it waits in, and not the end of another one. -/
def Task.isOfBody : Task → Bool
  | .finishCall _ _ _ => false
  | .finishInclusion _ => false
  | _ => true

/-- Once the bodies above have ended, the environments in force end with the given one. -/
def StaysIn (outer : Env) : List Task → Context → Prop
  | [], current => current.env.Extends outer
  | .leave saved :: above, current =>
      StaysIn outer above saved ∧
        (above.all Task.isOfBody = true → current.env.Extends outer)
  | task :: above, current => StaysIn outer above (task.restores current)

namespace StaysIn

variable {outer : Env} {above : List Task} {current : Context}

theorem extends_of_isOfBody (stays : StaysIn outer above current)
    (ofBody : above.all Task.isOfBody = true) : current.env.Extends outer := by
  induction above with
  | nil => exact stays
  | cons task above ih =>
      obtain ⟨first, rest⟩ := Bool.and_eq_true_iff.mp ofBody
      cases task with
      | leave saved => exact stays.2 rest
      | finishCall saved line answer => cases first
      | finishInclusion saved => cases first
      | _ => exact ih stays rest

theorem tail {task : Task} (stays : StaysIn outer (task :: above) current) :
    StaysIn outer above (task.restores current) := by
  cases task with
  | leave saved => exact stays.1
  | _ => exact stays

theorem pushed {tasks : List Task} (stays : StaysIn outer above current)
    (plain : tasks.all Task.isPlain = true) : StaysIn outer (tasks ++ above) current := by
  induction tasks with
  | nil => exact stays
  | cons task tasks ih =>
      obtain ⟨first, rest⟩ := Bool.and_eq_true_iff.mp plain
      cases task with
      | leave saved => cases first
      | finishCall saved line answer => cases first
      | finishInclusion saved => cases first
      | _ => exact ih rest

end StaysIn

namespace Machine

/-- The machine is busy above some tasks, in environments that end with the given one. -/
def StaysAbove (waiting : List Task) (outer : Env) (m : Machine) : Prop :=
  ∃ above, m.tasks = above ++ waiting ∧ StaysIn outer above m.state.context

variable {waiting above : List Task} {outer : Env} {context : Context} {m n : Machine}

theorem Shifts.staysAbove (shifts : m.Shifts (above ++ waiting) context)
    (stays : StaysIn outer above context) : m.StaysAbove waiting outer := by
  cases shifts with
  | goes pushed plain same =>
      exact ⟨pushed ++ above, (List.append_assoc ..).symm, by rw [same]; exact stays.pushed plain⟩
  | @opens control s body frame branched =>
      refine ⟨.body body :: .leave context :: above, rfl, stays, fun ofBody => ?_⟩
      change s.context.env.Extends outer
      rw [branched]
      exact (stays.extends_of_isOfBody ofBody).branch frame
  | enters => exact ⟨_ :: _ :: above, rfl, stays⟩
  | includes => exact ⟨_ :: _ :: above, rfl, stays⟩

theorem StaysAbove.advance (stays : m.StaysAbove waiting outer) (busy : ¬ m.Gives waiting)
    (files : String → Except Failure String) : (m.advance files).StaysAbove waiting outer := by
  obtain ⟨above, isTasks, within⟩ := stays
  rcases m.advance_shifts files with shifts | ⟨outcome, task, rest, given, waits, shifts⟩
  · rw [isTasks] at shifts
    exact shifts.staysAbove within
  · cases above with
    | nil => exact absurd ⟨outcome, given, isTasks⟩ busy
    | cons first above =>
        obtain ⟨rfl, rfl⟩ := List.cons.inj (waits.symm.trans isTasks)
        exact shifts.staysAbove within.tail

theorem RunsAbove.staysAbove (runs : RunsAbove waiting m n) (stays : m.StaysAbove waiting outer) :
    n.StaysAbove waiting outer := by
  induction runs with
  | start => exact stays
  | advance files busy unfinished ih => exact ih.advance unfinished files
  | pass now output busy ih => exact ih

/-- What runs above some tasks is in the body that it started in, and not in one that this calls or
includes. -/
def RunsWithin (waiting : List Task) (m n : Machine) : Prop :=
  RunsAbove waiting m n ∧ ∃ above, n.tasks = above ++ waiting ∧ above.all Task.isOfBody = true

/-- In the body that runs the environment of the start is only extended. -/
theorem RunsWithin.extends_env (runs : RunsWithin waiting m n) (tasks : List Task)
    (starts : m.tasks = tasks ++ waiting) (plain : tasks.all Task.isPlain = true) :
    n.state.context.env.Extends m.state.context.env := by
  obtain ⟨runs, above, isAbove, ofBody⟩ := runs
  have stays : m.StaysAbove waiting m.state.context.env := by
    refine ⟨tasks, starts, ?_⟩
    rw [← List.append_nil tasks]
    exact StaysIn.pushed (.refl _) plain
  obtain ⟨others, isTasks, within⟩ := runs.staysAbove stays
  rw [isAbove] at isTasks
  rw [← List.append_cancel_right isTasks] at within
  exact within.extends_of_isOfBody ofBody

end Machine

end Lox
