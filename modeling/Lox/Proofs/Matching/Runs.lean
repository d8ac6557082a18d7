import Lox.Proofs.Matching.Steps

/-!
# Runs of matching machines

Two programs that share some statements run these side by side, whatever comes after them and
whatever they run above of.  The phase in which they do so goes on for ever, or it is over: the
statements are done or one of them failed, for both at the same time.
-/

namespace Lox

namespace Machine

variable {files : String → Except Failure String} {m : Machine}

/-- The machine after some steps, with the files of a host. -/
def advanced (files : String → Except Failure String) (steps : Nat) (m : Machine) : Machine :=
  (advance files)^[steps] m

@[simp] theorem advanced_zero : m.advanced files 0 = m := rfl

theorem advanced_succ (steps : Nat) :
    m.advanced files (steps + 1) = (m.advanced files steps).advance files :=
  Function.iterate_succ_apply' _ steps m

theorem advanced_add (more steps : Nat) :
    m.advanced files (steps + more) = (m.advanced files steps).advanced files more := by
  rw [Nat.add_comm]
  exact Function.iterate_add_apply _ more steps m

/-- A machine that has ended takes no more steps. -/
theorem advance_of_ended {ending : Ending} (ended : m.ending? = some ending) :
    m.advance files = m := by
  obtain ⟨control, tasks, s⟩ := m
  cases control with
  | give outcome =>
      cases tasks with
      | nil => cases outcome <;> rfl
      | cons task tasks => cases ended
  | exited code => rfl
  | _ => cases tasks <;> cases ended

theorem advanced_of_ended {ending : Ending} (ended : m.ending? = some ending) (steps : Nat) :
    m.advanced files steps = m :=
  Function.iterate_fixed (advance_of_ended ended) steps

/-- A machine that ends within some steps comes to nothing that it did not come to by then. -/
theorem exists_advanced_eq {bound : Nat} (ends : (m.advanced files bound).ending?.isSome)
    (steps : Nat) : ∃ early ≤ bound, m.advanced files steps = m.advanced files early := by
  rcases Nat.le_total steps bound with early | late
  · exact ⟨steps, early, rfl⟩
  · obtain ⟨more, rfl⟩ := Nat.exists_eq_add_of_le late
    obtain ⟨ending, ended⟩ := Option.isSome_iff_exists.mp ends
    refine ⟨bound, Nat.le_refl bound, ?_⟩
    rw [advanced_add, advanced_of_ended ended]

/-- Whether a machine is not yet done above some tasks, of which only the number is known. -/
def isBusyAbove (height : Nat) (m : Machine) : Bool :=
  match m.control with
  | .give _ => decide (height < m.tasks.length)
  | _ => true

theorem not_gives_of_busy {waiting : List Task} (busy : m.isBusyAbove waiting.length = true) :
    ¬ m.Gives waiting := by
  rintro ⟨outcome, isGive, ended⟩
  unfold isBusyAbove at busy
  rw [isGive, ended] at busy
  exact Nat.lt_irrefl _ (of_decide_eq_true busy)

theorem runsAbove_advanced {waiting : List Task} {steps : Nat}
    (busy : ∀ n < steps, (m.advanced files n).isBusyAbove waiting.length = true) :
    RunsAbove waiting m (m.advanced files steps) := by
  induction steps with
  | zero => exact .start
  | succ steps ih =>
      rw [advanced_succ]
      exact .advance files (ih fun n early => busy n (Nat.lt_succ_of_lt early))
        (not_gives_of_busy (busy steps (Nat.lt_succ_self steps)))

/-- A run comes to what the machine comes to after all its steps. -/
theorem run_eq_advanced (files : String → Except Failure String) (steps : Nat) (m : Machine) :
    run files steps m =
      ((m.advanced files steps).ending?.getD .unfinished, (m.advanced files steps).state) := by
  induction steps generalizing m with
  | zero => rfl
  | succ steps ih =>
      rw [run_succ]
      cases ended : m.ending? with
      | some ending =>
          rw [advanced_of_ended ended, ended]
          rfl
      | none =>
          refine (ih (m.advance files)).trans ?_
          rw [show m.advanced files (steps + 1) = (m.advance files).advanced files steps from rfl]

end Machine

/-- Statements that two programs share, what follows them in each, and what both run above of. -/
structure Phase (σ : Leeway) where
  twin : Twin σ
  next : List Stmt
  next' : List Stmt
  below : List Task
  below' : List Task
  context : Context
  context' : Context

namespace Phase

variable {σ : Leeway} (P : Phase σ) (w : Pairing)

/-- What is waiting while a shared statement is executed. -/
def stack (rest : List Stmt) : List Task :=
  .program (moveBody P.twin.left rest ++ P.next) :: P.below

def stack' (rest : List Stmt) : List Task :=
  .program (moveBody P.twin.right rest ++ P.next') :: P.below'

/-- Both run the shared statements: they are between two of them, or inside of one. -/
inductive Runs : Machine → Machine → Prop where
  | between (rest : List Stmt) (covers : w.Covers P.twin (actsBody rest)) {value value' : Value}
      {s s' : State} (states : StateMatch σ w s s') (here : s.context = P.context)
      (here' : s'.context = P.context') :
      Runs ⟨.give (.value value), P.stack rest, s⟩ ⟨.give (.value value'), P.stack' rest, s'⟩
  | inside (rest : List Stmt) (covers : w.Covers P.twin (actsBody rest)) {m m' : Machine}
      (related : MachineMatch σ w (P.stack rest) (P.stack' rest) m m')
      (above : m.IsAbove (P.stack rest) P.context)
      (above' : m'.IsAbove (P.stack' rest) P.context') : Runs m m'

/-- Both are done with the shared statements. -/
inductive Done : Machine → Machine → Prop where
  | intro {value value' : Value} {s s' : State} (states : StateMatch σ w s s')
      (here : s.context = P.context) (here' : s'.context = P.context') :
      Done ⟨.give (.value value), .program P.next :: P.below, s⟩
        ⟨.give (.value value'), .program P.next' :: P.below', s'⟩

/-- A shared statement has failed for both. -/
inductive Failed : Machine → Machine → Prop where
  | intro {error error' : Error} {stmts stmts' : List Stmt} {s s' : State}
      (related : ErrorMatch σ error error') (states : StateMatch σ w s s')
      (here : s.context = P.context) (here' : s'.context = P.context') :
      Failed ⟨.give (.failed error), .program stmts :: P.below, s⟩
        ⟨.give (.failed error'), .program stmts' :: P.below', s'⟩

end Phase

/-! ## One step -/

section Bottom

variable {σ : Leeway} {w : Pairing} {below below' tasks tasks' : List Task}

theorem StackMatch.exists_above (left : StackMatch σ w below below' tasks tasks') :
    ∃ above above', tasks = above ++ below ∧ tasks' = above' ++ below' ∧
      above'.length = above.length := by
  induction left with
  | bottom => exact ⟨[], [], rfl, rfl, rfl⟩
  | task _ _ ih =>
      obtain ⟨above, above', rfl, rfl, same⟩ := ih
      exact ⟨_ :: above, _ :: above', rfl, rfl, congrArg (· + 1) same⟩

/-- Both machines have come to the bottom, or none. -/
theorem StackMatch.bottom_iff (left : StackMatch σ w below below' tasks tasks') :
    tasks = below ↔ tasks' = below' := by
  obtain ⟨above, above', rfl, rfl, same⟩ := left.exists_above
  rw [List.append_left_eq_self, List.append_left_eq_self, ← List.length_eq_zero_iff,
    ← List.length_eq_zero_iff, same]

theorem MachineMatch.gives_iff {m m' : Machine} (related : MachineMatch σ w below below' m m') :
    m.Gives below ↔ m'.Gives below' := by
  obtain ⟨doing, left, states⟩ := related
  constructor
  · rintro ⟨outcome, isGive, bottom⟩
    cases doing with
    | give related => exact ⟨_, rfl, left.bottom_iff.mp bottom⟩
    | _ => cases isGive
  · rintro ⟨outcome, isGive, bottom⟩
    cases doing with
    | give related => exact ⟨_, rfl, left.bottom_iff.mpr bottom⟩
    | _ => cases isGive

end Bottom

namespace Phase

variable {σ : Leeway} {P : Phase σ} {w w' : Pairing} {m m' : Machine}
  {files : String → Except Failure String}

/-- How a phase goes on with the next step, if it is not over. -/
def Proceeds (P : Phase σ) (w : Pairing) (files : String → Except Failure String)
    (m m' : Machine) : Prop :=
  (∃ w', StateGrows w m.state m'.state w' (m.advance files).state (m'.advance files).state ∧
    P.Runs w' (m.advance files) (m'.advance files)) ∨
  (0 < σ.deeper ∧ (m.advance files).Overflows)

/-- Between two statements the next one is started, unless there is none. -/
theorem between_advance (rest : List Stmt) (covers : w.Covers P.twin (actsBody rest))
    {value value' : Value} {s s' : State} (states : StateMatch σ w s s')
    (here : s.context = P.context) (here' : s'.context = P.context') :
    P.Done w ⟨.give (.value value), P.stack rest, s⟩ ⟨.give (.value value'), P.stack' rest, s'⟩ ∨
      P.Proceeds w files ⟨.give (.value value), P.stack rest, s⟩
        ⟨.give (.value value'), P.stack' rest, s'⟩ := by
  cases rest with
  | nil => exact .inl (.intro states here here')
  | cons stmt rest =>
      obtain ⟨ofStmt, others⟩ := Pairing.covers_append.mp covers
      have related : MachineMatch σ w (P.stack rest) (P.stack' rest)
          ⟨.exec (stmt.move P.twin.left), P.stack rest, s⟩
          ⟨.exec (stmt.move P.twin.right), P.stack' rest, s'⟩ :=
        .intro (.exec P.twin stmt ofStmt) .bottom states
      exact .inr (.inl ⟨w, .refl, .inside rest others related ⟨[], rfl, here⟩ ⟨[], rfl, here'⟩⟩)

theorem Runs.advance (runs : P.Runs w m m') (agree : Agree σ files m m') :
    P.Done w m m' ∨ P.Failed w m m' ∨ P.Proceeds w files m m' := by
  cases runs with
  | between rest covers states here here' =>
      rcases between_advance rest covers states here here' with done | proceeds
      · exact .inl done
      · exact .inr (.inr proceeds)
  | inside rest covers related above above' =>
      by_cases gives : m.Gives (P.stack rest)
      · obtain @⟨control, control', tasks, tasks', s, s', doing, left, states⟩ := related
        obtain ⟨outcome, isGive, bottom⟩ := gives
        obtain rfl : tasks = P.stack rest := bottom
        obtain rfl := left.bottom_iff.mp rfl
        have here := above.context_eq rfl
        have here' := above'.context_eq rfl
        cases doing with
        | give related =>
            cases related with
            | value related =>
                rcases between_advance rest covers states here here' with done | proceeds
                · exact .inl done
                · exact .inr (.inr proceeds)
            | returned related =>
                exact .inr (.inr (.inl ⟨w, .refl, .between rest covers states here here'⟩))
            | failed related => exact .inr (.inl (.intro related states here here'))
        | _ => cases isGive
      · have gives' : ¬ m'.Gives (P.stack' rest) := fun gives' => gives (related.gives_iff.mpr gives')
        rcases related.advance gives agree with ⟨w', grows, later⟩ | overflows
        · exact .inr (.inr (.inl ⟨w', grows, .inside rest (covers.mono grows.within) later
            (above.advance gives files) (above'.advance gives' files)⟩))
        · exact .inr (.inr (.inr overflows))

/-- Phases that include from the same directory include the same. -/
theorem Runs.agree (runs : P.Runs w m m') (sameBases : σ.bases = Eq)
    (files : String → Except Failure String) : Agree σ files m m' := by
  cases runs with
  | between => rintro _ _ _ _ ⟨⟩
  | inside rest covers related above above' => exact related.agree sameBases files

/-! ## Many steps -/

/-- What runs a shared statement is above what both run above of. -/
theorem Runs.not_gives (runs : P.Runs w m m') : ¬ m.Gives P.below := by
  rintro ⟨outcome, _, bottom⟩
  cases runs with
  | between rest => exact List.cons_ne_self _ _ bottom
  | inside rest covers related above above' =>
      obtain ⟨top, tasks, _⟩ := above
      have length := congrArg List.length (tasks.symm.trans bottom)
      simp [stack] at length
      omega

/-- The phase goes on for some steps at least. -/
def Lasts (P : Phase σ) (w : Pairing) (files : String → Except Failure String) (m m' : Machine)
    (steps : Nat) : Prop :=
  ∀ n ≤ steps, ∃ w', StateGrows w m.state m'.state w' (m.advanced files n).state
    (m'.advanced files n).state ∧ P.Runs w' (m.advanced files n) (m'.advanced files n)

/-- How a phase may be over after some steps. -/
inductive Over (P : Phase σ) (w : Pairing) (files : String → Except Failure String)
    (m m' : Machine) (steps : Nat) : Prop where
  | done {w' : Pairing} (grows : StateGrows w m.state m'.state w' (m.advanced files steps).state
        (m'.advanced files steps).state)
      (done : P.Done w' (m.advanced files steps) (m'.advanced files steps))
  | failed {w' : Pairing} (grows : StateGrows w m.state m'.state w' (m.advanced files steps).state
        (m'.advanced files steps).state)
      (failed : P.Failed w' (m.advanced files steps) (m'.advanced files steps))
  | overflows (deep : 0 < σ.deeper) (overflows : (m.advanced files steps).Overflows)

/-- A phase lasts, or it is over after some steps at the latest. -/
theorem Runs.advanced (runs : P.Runs w m m')
    (agree : ∀ n w', P.Runs w' (m.advanced files n) (m'.advanced files n) →
      Agree σ files (m.advanced files n) (m'.advanced files n)) (steps : Nat) :
    P.Lasts w files m m' steps ∨ ∃ n ≤ steps, P.Over w files m m' n := by
  induction steps with
  | zero =>
      refine .inl fun n none => ?_
      obtain rfl := Nat.le_zero.mp none
      exact ⟨w, .refl, runs⟩
  | succ steps ih =>
      rcases ih with lasts | ⟨n, early, isOver⟩
      · obtain ⟨w', grows, last⟩ := lasts steps (Nat.le_refl _)
        rcases last.advance (agree steps w' last) with done | failed | ⟨w'', later, next⟩ | ⟨deep, overflows⟩
        · exact .inr ⟨steps, Nat.le_succ _, .done grows done⟩
        · exact .inr ⟨steps, Nat.le_succ _, .failed grows failed⟩
        · rw [← Machine.advanced_succ, ← Machine.advanced_succ] at later next
          refine .inl fun n atMost => ?_
          rcases Nat.le_succ_iff.mp atMost with early | rfl
          · exact lasts n early
          · exact ⟨w'', grows.trans later, next⟩
        · rw [← Machine.advanced_succ] at overflows
          exact .inr ⟨steps + 1, Nat.le_refl _, .overflows deep overflows⟩
      · exact .inr ⟨n, Nat.le_succ_of_le early, isOver⟩

end Phase

/-! ## How runs end -/

inductive EndingMatch (σ : Leeway) (w : Pairing) : Machine.Ending → Machine.Ending → Prop where
  | outcome {outcome outcome' : Outcome} (related : OutcomeMatch σ w outcome outcome') :
      EndingMatch σ w (.outcome outcome) (.outcome outcome')
  | exited (code : UInt8) : EndingMatch σ w (.exited code) (.exited code)
  | unfinished : EndingMatch σ w .unfinished .unfinished

/-- What runs come to matches: how they have ended, if they have, and their states. -/
structure ResultMatch (σ : Leeway) (w : Pairing) (result result' : Machine.Ending × State) :
    Prop where
  ending : EndingMatch σ w result.1 result'.1
  state : CoreMatch σ w result.2 result'.2

/-- What a machine comes to if it takes no more steps. -/
def Machine.result (m : Machine) : Machine.Ending × State :=
  (m.ending?.getD .unfinished, m.state)

namespace Phase

variable {σ : Leeway} {P : Phase σ} {w w' : Pairing} {m m' : Machine}
  {files : String → Except Failure String}

theorem Runs.core (runs : P.Runs w m m') : CoreMatch σ w m.state m'.state := by
  cases runs with
  | between rest covers states here here' => exact states.core
  | inside rest covers related above above' =>
      obtain ⟨_, _, states⟩ := related
      exact states.core

/-- While tasks are left no machine has ended, unless the program has asked for it. -/
theorem MachineMatch.ending {task task' : Task} {below below' : List Task}
    (related : MachineMatch σ w (task :: below) (task' :: below') m m') :
    EndingMatch σ w m.result.1 m'.result.1 := by
  obtain ⟨doing, left, states⟩ := related
  cases doing with
  | give related => cases left <;> exact .unfinished
  | exited code => cases left <;> exact .exited code
  | _ => cases left <;> exact .unfinished

/-- Machines that are about to run shared statements, whatever came before. -/
theorem Runs.start (P : Phase σ) (value value' : Value) {stmts : List Stmt} {s s' : State}
    (covers : w.Covers P.twin (actsBody stmts)) (states : StateMatch σ w s s')
    (here : s.context = P.context) (here' : s'.context = P.context') :
    P.Runs w
      ⟨.give (.value value), .program (moveBody P.twin.left stmts ++ P.next) :: P.below, s⟩
      ⟨.give (.value value'), .program (moveBody P.twin.right stmts ++ P.next') :: P.below', s'⟩ :=
  .between stmts covers states here here'

/-- What is waiting below the shared statements stays there. -/
theorem Runs.below_suffix (runs : P.Runs w m m') : P.below <:+ m.tasks := by
  cases runs with
  | between rest => exact List.suffix_cons _ _
  | inside rest covers related above above' =>
      obtain ⟨top, tasks, _⟩ := above
      rw [tasks]
      exact (List.suffix_cons _ _).trans (List.suffix_append _ _)

theorem Runs.result (runs : P.Runs w m m') : ResultMatch σ w m.result m'.result := by
  refine ⟨?_, runs.core⟩
  cases runs with
  | between rest covers states here here' => exact .unfinished
  | inside rest covers related above above' => exact MachineMatch.ending related

/-- Shared statements with which two programs end, at the top level of both. -/
def final (t : Twin σ) (context context' : Context) : Phase σ := ⟨t, [], [], [], [], context, context'⟩

/-- A machine that has one more step to take. -/
theorem advanced_of_last {outcome : Outcome} {s : State} {m : Machine}
    (next : m.advance files = ⟨.give outcome, [], s⟩) (more : Nat) :
    m.advanced files (more + 1) = ⟨.give outcome, [], s⟩ := by
  rw [Nat.add_comm, Machine.advanced_add]
  refine (congrArg (Machine.advanced files more) next).trans ?_
  exact Machine.advanced_of_ended rfl more

variable {t : Twin σ} {context context' : Context}

/-- Machines that are about to run the statements with which both end. -/
theorem Runs.start_final (t : Twin σ) (value value' : Value) {stmts : List Stmt} {s s' : State}
    (covers : w.Covers t (actsBody stmts)) (states : StateMatch σ w s s') :
    (Phase.final t s.context s'.context).Runs w
      ⟨.give (.value value), [.program (moveBody t.left stmts)], s⟩
      ⟨.give (.value value'), [.program (moveBody t.right stmts)], s'⟩ := by
  have runs := Runs.start (.final t s.context s'.context) value value' covers states rfl rfl
  unfold final at runs
  rwa [List.append_nil, List.append_nil] at runs

theorem Done.final_result (done : (Phase.final t context context').Done w m m')
    (files : String → Except Failure String) (more : Nat) :
    StateGrows w m.state m'.state w (m.advanced files more).state (m'.advanced files more).state ∧
      ResultMatch σ w (m.advanced files more).result (m'.advanced files more).result := by
  obtain ⟨states, here, here'⟩ := done
  cases more with
  | zero => exact ⟨.refl, .unfinished, states.core⟩
  | succ more =>
      rw [advanced_of_last rfl more, advanced_of_last rfl more]
      exact ⟨.refl, .outcome .nil, states.core⟩

theorem Failed.final_result (failed : P.Failed w m m') (bottom : P.below = [])
    (bottom' : P.below' = []) (files : String → Except Failure String) (more : Nat) :
    StateGrows w m.state m'.state w (m.advanced files more).state (m'.advanced files more).state ∧
      ResultMatch σ w (m.advanced files more).result (m'.advanced files more).result := by
  obtain ⟨related, states, here, here'⟩ := failed
  rw [bottom, bottom']
  cases more with
  | zero => exact ⟨.refl, .unfinished, states.core⟩
  | succ more =>
      rw [advanced_of_last rfl more, advanced_of_last rfl more]
      exact ⟨.refl, .outcome (.failed related), states.core⟩

/-- Programs that end with shared statements come to the same after each number of steps. -/
theorem Runs.final_result (runs : (Phase.final t context context').Runs w m m')
    (sameBases : σ.bases = Eq) (level : σ.deeper = 0) (files : String → Except Failure String)
    (steps : Nat) :
    ∃ w', StateGrows w m.state m'.state w' (m.advanced files steps).state
        (m'.advanced files steps).state ∧
      ResultMatch σ w' (m.advanced files steps).result (m'.advanced files steps).result := by
  rcases runs.advanced (fun _ _ runs => runs.agree sameBases files) steps with
    lasts | ⟨n, early, isOver⟩
  · obtain ⟨w', grows, last⟩ := lasts steps (Nat.le_refl _)
    exact ⟨w', grows, last.result⟩
  · obtain ⟨more, rfl⟩ := Nat.exists_eq_add_of_le early
    rw [Machine.advanced_add, Machine.advanced_add]
    cases isOver with
    | @done w' grows done =>
        obtain ⟨later, results⟩ := done.final_result files more
        exact ⟨w', grows.trans later, results⟩
    | @failed w' grows failed =>
        obtain ⟨later, results⟩ := failed.final_result rfl rfl files more
        exact ⟨w', grows.trans later, results⟩
    | overflows deep => exact absurd level (Nat.ne_of_gt deep)

end Phase

end Lox
