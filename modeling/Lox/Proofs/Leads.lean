import Lox.Proofs.Matching.Sessions

/-!
# What machines come to

A machine comes to another one if some steps lead there.  That is how parts of a run are put
together: what an expression comes to, what a body comes to, and at last what the run comes to.
-/

namespace Lox

namespace Machine

variable {files : String → Except Failure String} {m n o : Machine}

/-- A machine comes to another one after some steps. -/
def Leads (files : String → Except Failure String) (m n : Machine) : Prop :=
  ∃ steps, m.advanced files steps = n

namespace Leads

theorem refl (m : Machine) : Leads files m m := ⟨0, rfl⟩

theorem trans (first : Leads files m n) (second : Leads files n o) : Leads files m o := by
  obtain ⟨steps, rfl⟩ := first
  obtain ⟨more, rfl⟩ := second
  exact ⟨steps + more, advanced_add more steps⟩

theorem step (rest : Leads files (m.advance files) n) : Leads files m n :=
  .trans ⟨1, rfl⟩ rest

theorem reached {past : Past} (leads : Leads files m n) (before : Reached past m) :
    ∃ past', Reached past' n := by
  obtain ⟨steps, rfl⟩ := leads
  exact before.advanced files steps

/-- A run that is patient enough comes to the end that its machine comes to. -/
theorem run_eq (leads : Leads files m n) {ending : Ending} (ended : n.ending? = some ending) :
    ∃ bound, ∀ patience, bound ≤ patience → m.run files patience = (ending, n.state) := by
  obtain ⟨bound, rfl⟩ := leads
  refine ⟨bound, fun patience enough => ?_⟩
  obtain ⟨more, rfl⟩ := Nat.exists_eq_add_of_le enough
  rw [run_eq_advanced, advanced_add, advanced_of_ended ended, ended]
  rfl

end Leads

/-- An error of a run passes through all tasks, and gets a line on the way if it has none. -/
theorem leads_failed (files : String → Except Failure String) (line : Nat) (fault : RuntimeFault)
    (top tasks : List Task) (s : State) :
    ∃ line' t, Leads files ⟨.give (.failed (.runtime line fault)), top ++ tasks, s⟩
      ⟨.give (.failed (.runtime line' fault)), tasks, t⟩ := by
  induction top generalizing line s with
  | nil => exact ⟨line, s, .refl _⟩
  | cons task top ih =>
      obtain ⟨line', t, isNext⟩ : ∃ line' t,
          Machine.advance files ⟨.give (.failed (.runtime line fault)), task :: (top ++ tasks), s⟩ =
            ⟨.give (.failed (.runtime line' fault)), top ++ tasks, t⟩ := by
        cases task with
        | finishCall context known answer => cases line <;> exact ⟨_, _, rfl⟩
        | _ => exact ⟨_, _, rfl⟩
      obtain ⟨last, u, leads⟩ := ih line' t
      exact ⟨last, u, .step (isNext ▸ leads)⟩

end Machine

/-- What a patient session makes of a text whose machine comes to an outcome. -/
theorem Session.run_of_leads (session : Session) {source : String} {program : Program}
    {files : String → Except Failure String} {now : Float} {outcome : Outcome} {s : State}
    (compiled : Program.compile session.state.nextReference source = .ok program)
    (leads : Machine.Leads files (session.begin now program) ⟨.give outcome, [], s⟩) :
    ∃ bound, ∀ patience, bound ≤ patience → session.run ⟨files, now, patience⟩ source =
      conclude (session.journal.dump program.stmts) (.outcome outcome) s := by
  obtain ⟨bound, ran⟩ := leads.run_eq rfl
  refine ⟨bound, fun patience enough => ?_⟩
  rw [run_accepted compiled]
  unfold runProgram
  dsimp only
  rw [ran patience enough]

end Lox
