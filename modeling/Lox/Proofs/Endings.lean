import Lox.Proofs.Waiting

/-!
# How phrases end

A phrase ends with an outcome, which is given to what waits for it, or with the end of the whole
run, if the program asks for it.  What waits makes no difference before.  So the end of a run that
is busy with a phrase is told by the end of the phrase and by what becomes of its outcome.
-/

namespace Lox

namespace Machine

variable {files : String → Except Failure String} {steps : Nat} {m : Machine} {ending : Ending}
  {after : State}

/-- A run of the machine has ended after at most some steps. -/
def EndsIn (files : String → Except Failure String) (steps : Nat) (m : Machine) (ending : Ending)
    (after : State) : Prop :=
  m.run files steps = (ending, after) ∧ ending ≠ .unfinished

/-- A run of the machine ends at some time. -/
def Ends (files : String → Except Failure String) (m : Machine) (ending : Ending) (after : State) :
    Prop :=
  ∃ steps, EndsIn files steps m ending after

theorem ending?_ne_unfinished : m.ending? ≠ some .unfinished := by
  unfold ending?
  split <;> simp

theorem endsIn_iff_advanced : EndsIn files steps m ending after ↔
    (m.advanced files steps).ending? = some ending ∧ (m.advanced files steps).state = after := by
  unfold EndsIn
  rw [run_eq_advanced, Prod.mk.injEq]
  cases last : (m.advanced files steps).ending? with
  | none =>
      constructor
      · rintro ⟨⟨rfl, _⟩, other⟩
        exact absurd rfl other
      · rintro ⟨none, _⟩
        cases none
  | some other =>
      rw [Option.getD_some, Option.some_inj]
      refine ⟨And.left, fun both => ⟨both, ?_⟩⟩
      rintro rfl
      exact ending?_ne_unfinished (last.trans (congrArg some both.1))

theorem Ends.ne_unfinished (ends : Ends files m ending after) : ending ≠ .unfinished := by
  obtain ⟨steps, _, finished⟩ := ends
  exact finished

theorem ends_of_ending? (ended : m.ending? = some ending) : Ends files m ending m.state :=
  ⟨0, endsIn_iff_advanced.mpr ⟨ended, rfl⟩⟩

/-- A machine that has ended has no other end. -/
theorem Ends.eq_of_ending? {other : Ending} (ends : Ends files m ending after)
    (ended : m.ending? = some other) : ending = other ∧ after = m.state := by
  obtain ⟨steps, ends⟩ := ends
  rw [endsIn_iff_advanced, advanced_of_ended ended, ended] at ends
  exact ⟨(Option.some.inj ends.1).symm, ends.2.symm⟩

theorem Ends.of_advance (ends : Ends files (m.advance files) ending after) :
    Ends files m ending after := by
  obtain ⟨steps, ends⟩ := ends
  rw [endsIn_iff_advanced] at ends
  exact ⟨steps + 1, endsIn_iff_advanced.mpr ends⟩

/-- A machine that goes on ends after one more step than the next one. -/
theorem EndsIn.advance (ends : EndsIn files steps m ending after) (going : m.ending? = none) :
    ∃ fewer, steps = fewer + 1 ∧ EndsIn files fewer (m.advance files) ending after := by
  cases steps with
  | zero =>
      rw [endsIn_iff_advanced, advanced_zero, going] at ends
      cases ends.1
  | succ fewer =>
      rw [endsIn_iff_advanced] at ends
      exact ⟨fewer, rfl, endsIn_iff_advanced.mpr ends⟩

theorem ends_iff_advance (going : m.ending? = none) :
    Ends files m ending after ↔ Ends files (m.advance files) ending after := by
  refine ⟨?_, .of_advance⟩
  rintro ⟨steps, ends⟩
  obtain ⟨fewer, _, ends⟩ := ends.advance going
  exact ⟨fewer, ends⟩

end Machine

open Machine

/-- How a phrase ends that is looked at in a state. -/
def Control.Comes (files : String → Except Failure String) (control : Control) (s : State)
    (ending : Ending) (after : State) : Prop :=
  Ends files ⟨control, [], s⟩ ending after

section Phrases

variable {files : String → Except Failure String} {control : Control} {s after : State}
  {ending : Ending} {task : Task} {tasks : List Task}

/-- Within some steps a phrase comes to a first outcome, or it does not give any. -/
theorem Machine.first_outcome (files : String → Except Failure String) (m : Machine)
    (steps : Nat) :
    (∃ first ≤ steps, (∀ n < first, ¬ (m.advanced files n).Gives []) ∧
      ∃ outcome, (m.advanced files first).ending? = some (.outcome outcome)) ∨
      ∀ n ≤ steps, ¬ (m.advanced files n).Gives [] := by
  have ended {n : Nat} (gives : (m.advanced files n).Gives []) :
      ∃ outcome, (m.advanced files n).ending? = some (.outcome outcome) := by
    obtain ⟨outcome, given, waits⟩ := gives
    exact ⟨outcome, ending?_eq_outcome.mpr (by rw [← given, ← waits])⟩
  induction steps with
  | zero =>
      by_cases gives : (m.advanced files 0).Gives []
      · exact .inl ⟨0, Nat.le_refl 0, fun _ none => absurd none (Nat.not_lt_zero _), ended gives⟩
      · exact .inr fun n none => Nat.le_zero.mp none ▸ gives
  | succ steps ih =>
      rcases ih with ⟨first, early, busy, outcome⟩ | busy
      · exact .inl ⟨first, Nat.le_succ_of_le early, busy, outcome⟩
      · by_cases gives : (m.advanced files (steps + 1)).Gives []
        · exact .inl ⟨steps + 1, Nat.le_refl _, fun n before => busy n (Nat.le_of_lt_succ before),
            ended gives⟩
        · refine .inr fun n before => ?_
          rcases Nat.le_or_eq_of_le_succ before with earlier | rfl
          · exact busy n earlier
          · exact gives

/-- A machine that ends while something waits has ended the whole run. -/
theorem Machine.exited_of_above {m : Machine} (busy : ¬ m.Gives [])
    (ended : (m.above (task :: tasks)).ending? = some ending) :
    m.ending? = some ending ∧ ∃ code, ending = .exited code := by
  obtain ⟨control, own, s⟩ := m
  cases control with
  | exited code =>
      cases ended
      exact ⟨rfl, code, rfl⟩
  | give outcome => cases own <;> cases ended
  | _ => cases own <;> cases ended

/-- Above what waits for it, a phrase ends the run, or it ends with an outcome that is given to
what waits. -/
theorem Machine.EndsIn.phrase {steps : Nat}
    (ends : EndsIn files steps ⟨control, task :: tasks, s⟩ ending after) :
    (∃ code, ending = .exited code ∧ control.Comes files s ending after) ∨
      ∃ outcome between fewer, fewer ≤ steps ∧
        control.Comes files s (.outcome outcome) between ∧
        EndsIn files fewer ⟨.give outcome, task :: tasks, between⟩ ending after := by
  rw [endsIn_iff_advanced] at ends
  rcases first_outcome files ⟨control, [], s⟩ steps with ⟨first, early, busy, outcome, ended⟩ | busy
  · obtain ⟨fewer, rfl⟩ := Nat.exists_eq_add_of_le early
    have above : advanced files first ⟨control, task :: tasks, s⟩ = _ :=
      advanced_above busy (task :: tasks)
    rw [ending?_eq_outcome.mp ended] at above
    rw [advanced_add, above] at ends
    exact .inr ⟨outcome, _, fewer, Nat.le_add_left _ _,
      ⟨first, endsIn_iff_advanced.mpr ⟨ended, rfl⟩⟩, endsIn_iff_advanced.mpr ends⟩
  · have above : advanced files steps ⟨control, task :: tasks, s⟩ = _ :=
      advanced_above (fun n before => busy n (Nat.le_of_lt before)) (task :: tasks)
    rw [above] at ends
    obtain ⟨ended, code, isExit⟩ := exited_of_above (busy steps (Nat.le_refl steps)) ends.1
    exact .inl ⟨code, isExit, steps, endsIn_iff_advanced.mpr ⟨ended, ends.2⟩⟩

/-- The outcome of a phrase is given to what waits for it. -/
theorem Control.Comes.ends {outcome : Outcome} {between : State}
    (comes : control.Comes files s (.outcome outcome) between)
    (rest : Ends files ⟨.give outcome, tasks, between⟩ ending after) :
    Ends files ⟨control, tasks, s⟩ ending after := by
  obtain ⟨steps, comes⟩ := comes
  obtain ⟨more, rest⟩ := rest
  rw [endsIn_iff_advanced] at comes rest
  obtain ⟨ended, rfl⟩ := comes
  have last := ending?_eq_outcome.mp ended
  rcases first_outcome files ⟨control, [], s⟩ steps with ⟨first, early, busy, other, ended'⟩ | busy
  · have same : advanced files steps ⟨control, [], s⟩ = advanced files first ⟨control, [], s⟩ := by
      obtain ⟨late, rfl⟩ := Nat.exists_eq_add_of_le early
      rw [advanced_add, advanced_of_ended ended']
    have above : advanced files first ⟨control, tasks, s⟩ = _ := advanced_above busy tasks
    rw [← same, last] at above
    refine ⟨first + more, endsIn_iff_advanced.mpr ?_⟩
    rw [advanced_add, above]
    exact rest
  · exact absurd ⟨outcome, by rw [last], by rw [last]⟩ (busy steps (Nat.le_refl steps))

/-- A phrase that ends the run does so above whatever waits for it. -/
theorem Control.Comes.exits {code : UInt8} (comes : control.Comes files s (.exited code) after)
    (tasks : List Task) : Ends files ⟨control, tasks, s⟩ (.exited code) after := by
  obtain ⟨steps, comes⟩ := comes
  rw [endsIn_iff_advanced] at comes
  obtain ⟨ended, rfl⟩ := comes
  rcases first_outcome files ⟨control, [], s⟩ steps with ⟨first, early, _, other, ended'⟩ | busy
  · obtain ⟨late, rfl⟩ := Nat.exists_eq_add_of_le early
    rw [advanced_add, advanced_of_ended ended', ended'] at ended
    cases ended
  · have above : advanced files steps ⟨control, tasks, s⟩ = _ :=
      advanced_above (fun n before => busy n (Nat.le_of_lt before)) tasks
    refine ⟨steps, endsIn_iff_advanced.mpr ?_⟩
    rw [above]
    generalize advanced files steps ⟨control, [], s⟩ = m at ended
    obtain ⟨control', own, t⟩ := m
    cases control' with
    | exited other => exact ⟨ended, rfl⟩
    | give outcome => cases own <;> cases ended
    | _ => cases own <;> cases ended

/-- How a run ends that is busy with a phrase, whatever waits for it. -/
theorem Machine.ends_iff_phrase : Ends files ⟨control, tasks, s⟩ ending after ↔
    (∃ code, ending = .exited code ∧ control.Comes files s ending after) ∨
      ∃ outcome between, control.Comes files s (.outcome outcome) between ∧
        Ends files ⟨.give outcome, tasks, between⟩ ending after := by
  constructor
  · intro ends
    cases tasks with
    | nil =>
        cases ending with
        | outcome outcome => exact .inr ⟨outcome, after, ends, ends_of_ending? rfl⟩
        | exited code => exact .inl ⟨code, rfl, ends⟩
        | unfinished => exact absurd rfl ends.ne_unfinished
    | cons task tasks =>
        obtain ⟨steps, ends⟩ := ends
        rcases ends.phrase with exits | ⟨outcome, between, fewer, _, comes, rest⟩
        · exact .inl exits
        · exact .inr ⟨outcome, between, comes, fewer, rest⟩
  · rintro (⟨code, rfl, comes⟩ | ⟨outcome, between, comes, rest⟩)
    · exact comes.exits tasks
    · exact comes.ends rest

end Phrases

end Lox
