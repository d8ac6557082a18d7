import Lox.Parse.Statement
import Lox.Proofs.Endings

/-!
# What a loop with clauses means

A loop with clauses runs its first clause once, in a scope of its own.  Then it repeats: it ends
where the condition is false, and otherwise runs the body and, behind a body that ended normally,
the last clause.  The tree that is made of such a loop, a `while` statement in two kinds of blocks,
ends just as the loop does, whichever of the clauses are there.
-/

namespace Lox

open Machine

/-- The clauses of a loop, and what it repeats. -/
structure ForClauses where
  init : Option Stmt
  condition : Option Expr
  increment : Option Expr
  body : Stmt

namespace ForClauses

/-- The statement that the parser makes of a loop. -/
def statement (clauses : ForClauses) : Stmt :=
  Parse.forLoop clauses.init clauses.condition clauses.increment clauses.body

/-- What the statement repeats: the body, and the last clause in a block with it. -/
def iteration (clauses : ForClauses) : Stmt :=
  match clauses.increment with
  | none => clauses.body
  | some increment => .block [clauses.body, .expression increment]

/-- The condition that the statement tests. -/
def test (clauses : ForClauses) : Expr := clauses.condition.getD (.literal (.bool true))

/-- The statement behind the first clause. -/
def loop (clauses : ForClauses) : Stmt := .whileLoop clauses.test clauses.iteration

theorem statement_eq_loop {clauses : ForClauses} (none : clauses.init = none) :
    clauses.statement = clauses.loop := by
  rw [statement, none]
  rfl

theorem statement_eq_block {clauses : ForClauses} {init : Stmt}
    (isInit : clauses.init = some init) : clauses.statement = .block [init, clauses.loop] := by
  rw [statement, isInit]
  rfl

end ForClauses

/-! ## Scopes and endings -/

/-- The context in a scope, for which the given frame is put in front of the environment. -/
def Context.inside (frame : Nat) (outside : Context) : Context :=
  { outside with env := outside.env.branch frame }

/-- Open a scope in a context: make an empty frame, which was not there before. -/
def State.openScope (outside : Context) (s : State) : State :=
  { s with
    store := (s.store.newFrame []).2
    context := outside.inside s.store.frames.size }

/-- Leave a scope with what ended in it.  At the end of a run no scope is left. -/
def State.leaveScope (outside : Context) (ending : Ending) (s : State) : State :=
  match ending with
  | .outcome _ => s.setContext outside
  | _ => s

namespace Machine.Ending

/-- Whether what stands behind goes on. -/
def isNormal : Ending → Bool
  | .outcome (.value _) => true
  | _ => false

/-- A block that ends normally has no value. -/
def ofBlock : Ending → Ending
  | .outcome (.value _) => .outcome .nil
  | ending => ending

theorem ofBlock_of_interrupts {ending : Ending} (interrupts : ending.isNormal = false) :
    ending.ofBlock = ending := by
  unfold ofBlock
  split
  · cases interrupts
  · rfl

end Machine.Ending

/-! ## The meaning of a loop -/

section Meaning

variable (files : String → Except Failure String) (clauses : ForClauses)

namespace ForClauses

/-- What the condition comes to, in the context of the loop.  A missing condition holds. -/
inductive Tests (c : Context) (s : State) : Ending → State → Prop where
  | omitted (none : clauses.condition = none) : Tests c s (.outcome (.value (.bool true))) s
  | given {condition : Expr} {ending : Ending} {after : State}
      (isCondition : clauses.condition = some condition)
      (comes : (Control.eval condition).Comes files (s.setContext c) ending after) :
      Tests c s ending after

/--
What the body comes to, and the last clause behind a body that ended normally.  If there is such a
clause, both stand in a scope of this iteration.
-/
inductive Iterates (c : Context) (s : State) : Ending → State → Prop where
  | bare {ending : Ending} {after : State} (none : clauses.increment = none)
      (comes : (Control.exec clauses.body).Comes files (s.setContext c) ending after) :
      Iterates c s ending after
  | interrupted {increment : Expr} {ending : Ending} {after : State}
      (isIncrement : clauses.increment = some increment)
      (comes : (Control.exec clauses.body).Comes files (s.openScope c) ending after)
      (interrupts : ending.isNormal = false) :
      Iterates c s ending (after.leaveScope c ending)
  | completed {increment : Expr} {value : Value} {last : Ending} {between after : State}
      (isIncrement : clauses.increment = some increment)
      (comes : (Control.exec clauses.body).Comes files (s.openScope c) (.outcome (.value value))
        between)
      (steps : (Control.eval increment).Comes files
        (between.setContext (c.inside s.store.frames.size)) last after) :
      Iterates c s last.ofBlock (after.leaveScope c last)

/-- What the repetition comes to, each time in the same context. -/
inductive Repeats (c : Context) : State → Ending → State → Prop where
  | failed {s : State} {ending : Ending} {after : State}
      (tests : clauses.Tests files c s ending after) (interrupts : ending.isNormal = false) :
      Repeats c s ending after
  | stops {s : State} {value : Value} {after : State}
      (tests : clauses.Tests files c s (.outcome (.value value)) after)
      (falsy : value.isTruthy = false) : Repeats c s (.outcome .nil) after
  | interrupted {s : State} {value : Value} {ending : Ending} {between after : State}
      (tests : clauses.Tests files c s (.outcome (.value value)) between)
      (truthy : value.isTruthy = true) (iterates : clauses.Iterates files c between ending after)
      (interrupts : ending.isNormal = false) : Repeats c s ending after
  | again {s : State} {value given : Value} {last : Ending} {between later after : State}
      (tests : clauses.Tests files c s (.outcome (.value value)) between)
      (truthy : value.isTruthy = true)
      (iterates : clauses.Iterates files c between (.outcome (.value given)) later)
      (repeats : Repeats c later last after) : Repeats c s last after

/-- What a loop comes to: the first clause runs once, in a scope that all iterations share. -/
inductive Loops (s : State) : Ending → State → Prop where
  | bare {ending : Ending} {after : State} (none : clauses.init = none)
      (repeats : clauses.Repeats files s.context s ending after) : Loops s ending after
  | interrupted {init : Stmt} {ending : Ending} {after : State} (isInit : clauses.init = some init)
      (comes : (Control.exec init).Comes files (s.openScope s.context) ending after)
      (interrupts : ending.isNormal = false) :
      Loops s ending (after.leaveScope s.context ending)
  | initialized {init : Stmt} {value : Value} {last : Ending} {between after : State}
      (isInit : clauses.init = some init)
      (comes : (Control.exec init).Comes files (s.openScope s.context) (.outcome (.value value))
        between)
      (repeats : clauses.Repeats files (s.context.inside s.store.frames.size) between last after) :
      Loops s last (after.leaveScope s.context last)

end ForClauses

end Meaning

/-! ## How blocks and statements end -/

section Statements

variable {files : String → Except Failure String} {s after : State} {ending : Ending}

/-- A phrase that ends with an outcome leaves the context as it was. -/
theorem Control.Comes.context_eq {control : Control} {outcome : Outcome}
    (comes : control.Comes files s (.outcome outcome) after) : after.context = s.context := by
  obtain ⟨steps, ran, _⟩ := comes
  have runs := runsAbove_run (congrArg Prod.fst ran)
  have same : (run files steps ⟨control, [], s⟩).2 = after := congrArg Prod.snd ran
  rw [same] at runs
  exact (runs.isAbove ⟨[], rfl, rfl⟩).context_eq rfl

theorem Control.Comes.setContext_eq {control : Control} {outcome : Outcome}
    (comes : control.Comes files s (.outcome outcome) after) :
    after.setContext s.context = after := by
  rw [← comes.context_eq]
  rfl

theorem Machine.Ending.exists_of_isNormal (normal : ending.isNormal = true) :
    ∃ value, ending = .outcome (.value value) := by
  unfold isNormal at normal
  split at normal
  · exact ⟨_, rfl⟩
  · cases normal

/-- An outcome that the last task passes on ends the run. -/
theorem ends_passed {outcome : Outcome} {task : Task} {t t' : State}
    (passes : Machine.advance files ⟨.give outcome, [task], t⟩ = ⟨.give outcome, [], t'⟩) :
    Ends files ⟨.give outcome, [task], t⟩ ending after ↔
      ending = .outcome outcome ∧ after = t' := by
  rw [ends_iff_advance rfl, passes]
  exact ⟨fun ends => ends.eq_of_ending? rfl, by rintro ⟨rfl, rfl⟩; exact ends_of_ending? rfl⟩

/-- An outcome that is no value passes by the rest of a body and leaves the block. -/
theorem ends_leave {outcome : Outcome} {rest : List Stmt} {outside : Context} {t : State}
    (interrupts : (Ending.outcome outcome).isNormal = false) :
    Ends files ⟨.give outcome, [.body rest, .leave outside], t⟩ ending after ↔
      ending = .outcome outcome ∧ after = t.setContext outside := by
  cases outcome with
  | value value => cases interrupts
  | returned value => exact (ends_iff_advance rfl).trans (ends_passed rfl)
  | failed error => exact (ends_iff_advance rfl).trans (ends_passed rfl)

/-- How a block ends that is busy with a statement: with the statement, if that does not end
normally, or else with what stands behind it. -/
theorem ends_in_block {stmt : Stmt} {rest : List Stmt} {outside : Context} :
    Ends files ⟨.exec stmt, [.body rest, .leave outside], s⟩ ending after ↔
      (∃ t, (Control.exec stmt).Comes files s ending t ∧ ending.isNormal = false ∧
        after = t.leaveScope outside ending) ∨
      ∃ value between, (Control.exec stmt).Comes files s (.outcome (.value value)) between ∧
        Ends files ⟨.give (.value value), [.body rest, .leave outside], between⟩ ending after := by
  rw [ends_iff_phrase]
  constructor
  · rintro (⟨code, rfl, comes⟩ | ⟨outcome, between, comes, rest⟩)
    · exact .inl ⟨after, comes, rfl, rfl⟩
    · cases outcome with
      | value value => exact .inr ⟨value, between, comes, rest⟩
      | returned value =>
          obtain ⟨rfl, rfl⟩ := (ends_leave rfl).mp rest
          exact .inl ⟨between, comes, rfl, rfl⟩
      | failed error =>
          obtain ⟨rfl, rfl⟩ := (ends_leave rfl).mp rest
          exact .inl ⟨between, comes, rfl, rfl⟩
  · rintro (⟨t, comes, interrupts, rfl⟩ | ⟨value, between, comes, rest⟩)
    · cases ending with
      | outcome outcome =>
          exact .inr ⟨outcome, t, comes, (ends_leave interrupts).mpr ⟨rfl, rfl⟩⟩
      | exited code => exact .inl ⟨code, rfl, comes⟩
      | unfinished => exact absurd rfl comes.ne_unfinished
    · exact .inr ⟨_, between, comes, rest⟩

/-- A block is entered in a scope of its own. -/
theorem advance_block (body : List Stmt) (tasks : List Task) :
    Machine.advance files ⟨.exec (.block body), tasks, s⟩ =
      ⟨.give .nil, .body body :: .leave s.context :: tasks, s.openScope s.context⟩ := by
  cases s
  rfl

/-- How a block of two statements ends: with the first, if that does not end normally, or else with
the second. -/
theorem comes_block {first second : Stmt} :
    (Control.exec (.block [first, second])).Comes files s ending after ↔
      (∃ t, (Control.exec first).Comes files (s.openScope s.context) ending t ∧
        ending.isNormal = false ∧ after = t.leaveScope s.context ending) ∨
      ∃ value between last t,
        (Control.exec first).Comes files (s.openScope s.context) (.outcome (.value value)) between ∧
        (Control.exec second).Comes files between last t ∧ ending = last.ofBlock ∧
          after = t.leaveScope s.context last := by
  have ends : (Control.exec (.block [first, second])).Comes files s ending after ↔
      Ends files ⟨.exec first, [.body [second], .leave s.context], s.openScope s.context⟩
        ending after := by
    unfold Control.Comes
    rw [ends_iff_advance rfl, advance_block, ends_iff_advance rfl]
    rfl
  have behind (value : Value) (between : State) :
      Ends files ⟨.give (.value value), [.body [second], .leave s.context], between⟩ ending after ↔
        ∃ last t, (Control.exec second).Comes files between last t ∧ ending = last.ofBlock ∧
          after = t.leaveScope s.context last := by
    rw [ends_iff_advance rfl]
    change Ends files ⟨.exec second, [.body [], .leave s.context], between⟩ ending after ↔ _
    rw [ends_in_block]
    constructor
    · rintro (⟨t, comes, interrupts, rfl⟩ | ⟨value, t, comes, rest⟩)
      · exact ⟨ending, t, comes, (Ending.ofBlock_of_interrupts interrupts).symm, rfl⟩
      · rw [ends_iff_advance rfl, ends_iff_advance rfl] at rest
        obtain ⟨rfl, rfl⟩ := rest.eq_of_ending? rfl
        exact ⟨_, t, comes, rfl, rfl⟩
    · rintro ⟨last, t, comes, rfl, rfl⟩
      cases normal : last.isNormal with
      | false =>
          rw [Ending.ofBlock_of_interrupts normal]
          exact .inl ⟨t, comes, normal, rfl⟩
      | true =>
          obtain ⟨value, rfl⟩ := Ending.exists_of_isNormal normal
          refine .inr ⟨value, t, comes, ?_⟩
          rw [ends_iff_advance rfl, ends_iff_advance rfl]
          exact ends_of_ending? rfl
  rw [ends, ends_in_block]
  simp only [behind]
  constructor
  · rintro (interrupted | ⟨value, between, comes, last, t, rest⟩)
    · exact .inl interrupted
    · exact .inr ⟨value, between, last, t, comes, rest⟩
  · rintro (interrupted | ⟨value, between, last, t, comes, rest⟩)
    · exact .inl interrupted
    · exact .inr ⟨value, between, comes, last, t, rest⟩

/-- An expression as a statement ends as the expression does. -/
theorem comes_expression {expr : Expr} :
    (Control.exec (.expression expr)).Comes files s ending after ↔
      (Control.eval expr).Comes files s ending after :=
  ends_iff_advance rfl

theorem comes_literal {value : Literal} :
    (Control.eval (.literal value)).Comes files s ending after ↔
      ending = .outcome (.value (.ofLiteral value)) ∧ after = s := by
  unfold Control.Comes
  rw [ends_iff_advance rfl]
  constructor
  · exact fun ends => ends.eq_of_ending? rfl
  · rintro ⟨rfl, rfl⟩
    exact ends_of_ending? rfl

end Statements

/-! ## The statement of a loop -/

section Loop

variable {files : String → Except Failure String} {clauses : ForClauses} {s after : State}
  {ending : Ending}

theorem comes_test : (Control.eval clauses.test).Comes files s ending after ↔
    clauses.Tests files s.context s ending after := by
  constructor
  · intro comes
    cases given : clauses.condition with
    | none =>
        rw [ForClauses.test, given] at comes
        obtain ⟨rfl, rfl⟩ := comes_literal.mp comes
        exact .omitted given
    | some condition =>
        rw [ForClauses.test, given] at comes
        exact .given given comes
  · rintro (omitted | ⟨given, comes⟩)
    · rw [ForClauses.test, omitted]
      exact comes_literal.mpr ⟨rfl, rfl⟩
    · rw [ForClauses.test, given]
      exact comes

theorem comes_iteration : (Control.exec clauses.iteration).Comes files s ending after ↔
    clauses.Iterates files s.context s ending after := by
  cases given : clauses.increment with
  | none =>
      rw [ForClauses.iteration, given]
      constructor
      · exact fun comes => .bare given comes
      · rintro (⟨_, comes⟩ | ⟨other, _, _⟩ | ⟨other, _, _, _⟩)
        · exact comes
        · cases given.symm.trans other
        · cases given.symm.trans other
  | some increment =>
      rw [ForClauses.iteration, given, comes_block]
      constructor
      · rintro (⟨t, comes, interrupts, rfl⟩ | ⟨value, between, last, t, comes, steps, rfl, rfl⟩)
        · exact .interrupted given comes interrupts
        · refine .completed given comes ?_
          have same : between.setContext (s.context.inside s.store.frames.size) = between :=
            comes.setContext_eq
          rw [same]
          exact comes_expression.mp steps
      · rintro (⟨other, _⟩ | ⟨isIncrement, comes, interrupts⟩ | ⟨isIncrement, comes, steps⟩)
        · cases given.symm.trans other
        · exact .inl ⟨_, comes, interrupts, rfl⟩
        · obtain rfl := Option.some.inj (given.symm.trans isIncrement)
          have same : State.setContext (s.context.inside s.store.frames.size) _ = _ :=
            comes.setContext_eq
          rw [same] at steps
          exact .inr ⟨_, _, _, _, comes, comes_expression.mpr steps, rfl, rfl⟩

/-- An outcome that is no value ends a loop, whether the condition came to it or an iteration. -/
theorem ends_loop {outcome : Outcome} {task : Task} {t : State}
    (interrupts : (Ending.outcome outcome).isNormal = false)
    (repeats : task = .loopBody clauses.test clauses.iteration ∨
      task = .loopAgain clauses.test clauses.iteration) :
    Ends files ⟨.give outcome, [task], t⟩ ending after ↔ ending = .outcome outcome ∧ after = t := by
  refine ends_passed ?_
  cases outcome with
  | value value => cases interrupts
  | _ => rcases repeats with rfl | rfl <;> rfl

/-- So does the end of a run. -/
theorem Control.Comes.ends_loop {control : Control} {task : Task}
    (comes : control.Comes files s ending after) (interrupts : ending.isNormal = false)
    (repeats : task = .loopBody clauses.test clauses.iteration ∨
      task = .loopAgain clauses.test clauses.iteration) :
    Ends files ⟨control, [task], s⟩ ending after := by
  cases ending with
  | outcome outcome => exact comes.ends ((Lox.ends_loop interrupts repeats).mpr ⟨rfl, rfl⟩)
  | exited code => exact comes.exits _
  | unfinished => exact absurd rfl comes.ne_unfinished

/-- A condition that holds starts an iteration. -/
theorem advance_truthy {value : Value} (truthy : value.isTruthy = true) (condition : Expr)
    (body : Stmt) (tasks : List Task) :
    advance files ⟨.give (.value value), .loopBody condition body :: tasks, s⟩ =
      ⟨.exec body, .loopAgain condition body :: tasks, s⟩ :=
  if_pos truthy

/-- A condition that does not hold ends the loop. -/
theorem advance_falsy {value : Value} (falsy : value.isTruthy = false) (condition : Expr)
    (body : Stmt) (tasks : List Task) :
    advance files ⟨.give (.value value), .loopBody condition body :: tasks, s⟩ =
      giving .nil tasks s :=
  if_neg (Bool.eq_false_iff.mp falsy)

/-- A machine that tests the condition of a loop, and ends, has repeated the loop.  The induction is
on the steps: each iteration leaves fewer of them for the next ones. -/
theorem repeats_of_endsIn {steps : Nat} (ends : EndsIn files steps
      ⟨.eval clauses.test, [.loopBody clauses.test clauses.iteration], s⟩ ending after) :
    clauses.Repeats files s.context s ending after := by
  induction steps using Nat.strongRecOn generalizing s with
  | ind steps ih =>
      rcases ends.phrase with ⟨code, rfl, comes⟩ | ⟨outcome, between, tested, few, comes, rest⟩
      · exact .failed (comes_test.mp comes) rfl
      have tests := comes_test.mp comes
      cases outcome with
      | value value =>
          obtain ⟨fewer, rfl, next⟩ := rest.advance rfl
          cases holds : value.isTruthy with
          | false =>
              rw [advance_falsy holds] at next
              obtain ⟨rfl, rfl⟩ := Ends.eq_of_ending? ⟨fewer, next⟩ rfl
              exact .stops tests holds
          | true =>
              rw [advance_truthy holds] at next
              have same := comes.context_eq
              rcases next.phrase with ⟨code, rfl, runs⟩ | ⟨given, later, iterated, less, runs, rest⟩
              · rw [comes_iteration, same] at runs
                exact .interrupted tests holds runs rfl
              have iterates := comes_iteration.mp runs
              rw [same] at iterates
              cases given with
              | value given =>
                  obtain ⟨last, rfl, again⟩ := rest.advance rfl
                  have repeats := ih last (by omega) again
                  rw [runs.context_eq, same] at repeats
                  exact .again tests holds iterates repeats
              | _ =>
                  obtain ⟨rfl, rfl⟩ := (ends_loop rfl (.inr rfl)).mp ⟨iterated, rest⟩
                  exact .interrupted tests holds iterates rfl
      | _ =>
          obtain ⟨rfl, rfl⟩ := (ends_loop rfl (.inl rfl)).mp ⟨tested, rest⟩
          exact .failed tests rfl

/-- The machine repeats a loop as often as the loop says.  The induction is on its iterations. -/
theorem ends_of_repeats {c : Context} (repeats : clauses.Repeats files c s ending after)
    (inside : s.context = c) :
    Ends files ⟨.eval clauses.test, [.loopBody clauses.test clauses.iteration], s⟩ ending
      after := by
  induction repeats with
  | failed tests interrupts =>
      subst inside
      exact (comes_test.mpr tests).ends_loop interrupts (.inl rfl)
  | stops tests falsy =>
      subst inside
      refine (comes_test.mpr tests).ends (.of_advance ?_)
      rw [advance_falsy falsy]
      exact ends_of_ending? rfl
  | interrupted tests truthy iterates interrupts =>
      subst inside
      have comes := comes_test.mpr tests
      refine comes.ends (.of_advance ?_)
      rw [advance_truthy truthy]
      rw [← comes.context_eq] at iterates
      exact (comes_iteration.mpr iterates).ends_loop interrupts (.inr rfl)
  | again tests truthy iterates repeats ih =>
      subst inside
      have comes := comes_test.mpr tests
      refine comes.ends (.of_advance ?_)
      rw [advance_truthy truthy]
      rw [← comes.context_eq] at iterates
      have runs := comes_iteration.mpr iterates
      exact runs.ends (.of_advance (ih (runs.context_eq.trans comes.context_eq)))

theorem comes_loop : (Control.exec clauses.loop).Comes files s ending after ↔
    clauses.Repeats files s.context s ending after := by
  refine (ends_iff_advance rfl).trans ⟨?_, fun repeats => ends_of_repeats repeats rfl⟩
  exact fun ⟨_, ends⟩ => repeats_of_endsIn ends

/-- The repetition ends normally without a value. -/
theorem ForClauses.Repeats.ofBlock_eq {c : Context}
    (repeats : clauses.Repeats files c s ending after) : ending.ofBlock = ending := by
  induction repeats with
  | failed tests interrupts => exact Ending.ofBlock_of_interrupts interrupts
  | stops tests falsy => rfl
  | interrupted tests truthy iterates interrupts => exact Ending.ofBlock_of_interrupts interrupts
  | again tests truthy iterates repeats ih => exact ih

/-- The statement that is made of a loop comes to what the loop comes to. -/
theorem comes_statement : (Control.exec clauses.statement).Comes files s ending after ↔
    clauses.Loops files s ending after := by
  cases first : clauses.init with
  | none =>
      rw [ForClauses.statement_eq_loop first, comes_loop]
      constructor
      · exact fun repeats => .bare first repeats
      · rintro (⟨_, repeats⟩ | ⟨other, _, _⟩ | ⟨other, _, _⟩)
        · exact repeats
        · cases first.symm.trans other
        · cases first.symm.trans other
  | some init =>
      rw [ForClauses.statement_eq_block first, comes_block]
      constructor
      · rintro (⟨t, comes, interrupts, rfl⟩ | ⟨value, between, last, t, comes, loops, rfl, rfl⟩)
        · exact .interrupted first comes interrupts
        · have repeats := comes_loop.mp loops
          rw [repeats.ofBlock_eq]
          rw [comes.context_eq] at repeats
          exact .initialized first comes repeats
      · rintro (⟨other, _⟩ | ⟨isInit, comes, interrupts⟩ | ⟨isInit, comes, repeats⟩)
        · cases first.symm.trans other
        · obtain rfl := Option.some.inj (first.symm.trans isInit)
          exact .inl ⟨_, comes, interrupts, rfl⟩
        · obtain rfl := Option.some.inj (first.symm.trans isInit)
          have last := repeats.ofBlock_eq.symm
          have same : _ = s.context.inside s.store.frames.size := comes.context_eq
          rw [← same] at repeats
          exact .inr ⟨_, _, _, _, comes, comes_loop.mpr repeats, last, rfl⟩

end Loop

end Lox
