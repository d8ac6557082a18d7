import Lox.Proofs.Activations
import Lox.Proofs.Returns

/-!
# Arguments are evaluated in their order

A call is only ever made for a call expression, once its callee and then its arguments have been
evaluated, each in the state that the one before it has left.  This is traced by the tasks that
wait for them: each of these is put there by the step that begins to evaluate what it waits for.
-/

namespace Lox

/-- Whether a task waits for the callee or for an argument of a call. -/
def Task.isArgument : Task → Bool
  | .firstArgument .. => true
  | .nextArgument .. => true
  | _ => false

/-- The tasks that wait for a callee or for an argument, each with those below it. -/
def argumentStacks : List Task → List (List Task)
  | [] => []
  | task :: rest =>
    if task.isArgument then (task :: rest) :: argumentStacks rest else argumentStacks rest

theorem suffix_of_mem_argumentStacks {stack tasks : List Task}
    (held : stack ∈ argumentStacks tasks) : stack <:+ tasks := by
  induction tasks with
  | nil => cases held
  | cons task rest ih =>
      rw [argumentStacks] at held
      split at held
      · rcases List.mem_cons.mp held with rfl | below
        · exact List.suffix_rfl
        · exact (ih below).trans (List.suffix_cons _ _)
      · exact (ih held).trans (List.suffix_cons _ _)

namespace Machine

/-! ## Most steps leave these tasks alone -/

section Steps

variable (tasks : List Task) (s : State)

theorem argumentStacks_getProperty (object : Value) (name : Token) :
    argumentStacks (getProperty object name tasks s).tasks = argumentStacks tasks := by
  unfold getProperty
  split
  · split
    · rfl
    · split <;> rfl
  · rfl

theorem argumentStacks_getSuper (keyword : Reference) (method : Token) :
    argumentStacks (getSuper keyword method tasks s).tasks = argumentStacks tasks := by
  unfold getSuper
  split
  · rfl
  · split <;> rfl

theorem argumentStacks_invoke (callee : Value) (args : List Value) (paren : Token) :
    argumentStacks (invoke callee args paren tasks s).tasks = argumentStacks tasks := by
  unfold invoke
  split
  · unfold callNative
    split <;> rfl
  · rfl
  · unfold instantiate
    dsimp only
    split <;> rfl
  · rfl

theorem argumentStacks_call (callee : Value) (args : List Value) (paren : Token) :
    argumentStacks (call callee args paren tasks s).tasks = argumentStacks tasks := by
  rw [call_eq]
  split
  · rfl
  · exact argumentStacks_invoke ..

theorem argumentStacks_execute (stmt : Stmt) :
    argumentStacks (execute stmt tasks s).tasks = argumentStacks tasks := by
  cases stmt with
  | classDecl name superclass methods =>
      cases superclass with
      | none => rfl
      | some reference =>
          unfold execute
          dsimp only
          split <;> rfl
  | ret keyword value => cases value <;> rfl
  | varDecl name init => cases init <;> rfl
  | _ => rfl

theorem argumentStacks_resume (value : Value) {task : Task} (other : task.isArgument = false) :
    argumentStacks (resume value task tasks s).tasks = argumentStacks tasks := by
  cases task with
  | firstArgument paren args => cases other
  | nextArgument callee before paren args => cases other
  | decide operator right =>
      unfold resume
      dsimp only
      split <;> rfl
  | get name => exact argumentStacks_getProperty ..
  | storedValue name stored => cases value <;> rfl
  | choose thenBranch elseBranch =>
      unfold resume
      dsimp only
      split
      · rfl
      · split <;> rfl
  | loopBody condition body =>
      unfold resume
      dsimp only
      split <;> rfl
  | body stmts => cases stmts <;> rfl
  | program stmts => cases stmts <;> rfl
  | _ => rfl

theorem argumentStacks_provide (answer : Except Failure String) (path : Token) (place : String) :
    argumentStacks (provide answer path place tasks s).tasks = argumentStacks tasks := by
  unfold provide
  split
  · rfl
  · split
    · rfl
    · dsimp only
      split <;> rfl

end Steps

/-- The steps that begin to evaluate a callee or an argument, and what then waits for its value. -/
inductive Asks : Machine → Machine → List Task → Prop where
  | callee {callee : Expr} {paren : Token} {args : List Expr} {rest : List Task} {s : State} :
      Asks ⟨.eval (.call callee paren args), rest, s⟩
        ⟨.eval callee, .firstArgument paren args :: rest, s⟩ (.firstArgument paren args :: rest)
  | first {callee : Value} {paren : Token} {arg : Expr} {args : List Expr} {rest : List Task}
      {s : State} :
      Asks ⟨.give (.value callee), .firstArgument paren (arg :: args) :: rest, s⟩
        ⟨.eval arg, .nextArgument callee [] paren args :: rest, s⟩
        (.nextArgument callee [] paren args :: rest)
  | next {callee value : Value} {before : List Value} {paren : Token} {arg : Expr}
      {args : List Expr} {rest : List Task} {s : State} :
      Asks ⟨.give (.value value), .nextArgument callee before paren (arg :: args) :: rest, s⟩
        ⟨.eval arg, .nextArgument callee (value :: before) paren args :: rest, s⟩
        (.nextArgument callee (value :: before) paren args :: rest)

section Advance

variable {m : Machine} {stack rest : List Task}

/-- What belongs below the top task is not what the top task waits for. -/
theorem not_gives_of_below {task : Task} (waits : m.tasks = task :: rest)
    (held : stack ∈ argumentStacks rest) : ¬ m.Gives stack := by
  rintro ⟨_, _, same⟩
  have fewer := (suffix_of_mem_argumentStacks held).length_le
  rw [← same, waits] at fewer
  exact Nat.not_succ_le_self _ fewer

theorem mem_argumentStacks_cons {task : Task} (held : stack ∈ argumentStacks rest) :
    stack ∈ argumentStacks (task :: rest) := by
  rw [argumentStacks]
  split
  · exact List.mem_cons_of_mem _ held
  · exact held

/-- What waits for an argument once the top task is given a value waited below, or begins to. -/
theorem argumentStacks_resume_cases {value : Value} {task : Task} {s : State}
    (held : stack ∈ argumentStacks (resume value task rest s).tasks) :
    stack ∈ argumentStacks rest ∨
      Asks ⟨.give (.value value), task :: rest, s⟩ (resume value task rest s) stack := by
  cases task with
  | firstArgument paren args =>
      cases args with
      | nil =>
          rw [← argumentStacks_call rest s value [] paren]
          exact .inl held
      | cons arg args =>
          rcases List.mem_cons.mp held with rfl | below
          · exact .inr .first
          · exact .inl below
  | nextArgument callee before paren args =>
      cases args with
      | nil =>
          rw [← argumentStacks_call rest s callee (value :: before).reverse paren]
          exact .inl held
      | cons arg args =>
          rcases List.mem_cons.mp held with rfl | below
          · exact .inr .next
          · exact .inl below
  | _ =>
      rw [argumentStacks_resume rest s value rfl] at held
      exact .inl held

/-- A task that waits for an argument stays until it is given a value, or begins to wait. -/
theorem argumentStacks_advance (files : String → Except Failure String)
    (held : stack ∈ argumentStacks (m.advance files).tasks) :
    (stack ∈ argumentStacks m.tasks ∧ ¬ m.Gives stack) ∨ Asks m (m.advance files) stack := by
  obtain ⟨control, tasks, s⟩ := m
  have phrase
      (same : argumentStacks (advance files ⟨control, tasks, s⟩).tasks = argumentStacks tasks)
      (busy : ∀ outcome, control ≠ .give outcome) :
      stack ∈ argumentStacks tasks ∧ ¬ Gives stack ⟨control, tasks, s⟩ :=
    ⟨same ▸ held, fun ⟨outcome, given, _⟩ => busy outcome given⟩
  cases control with
  | eval expr =>
      cases expr with
      | call callee paren args =>
          rcases List.mem_cons.mp held with rfl | below
          · exact .inr .callee
          · exact .inl ⟨below, nofun⟩
      | super keyword method =>
          exact .inl (phrase (argumentStacks_getSuper tasks s keyword method) nofun)
      | _ => exact .inl (phrase rfl nofun)
  | exec stmt => exact .inl (phrase (argumentStacks_execute tasks s stmt) nofun)
  | awaitFile path place =>
      exact .inl (phrase (argumentStacks_provide tasks s (files place) path place) nofun)
  | exited code => exact .inl (phrase rfl nofun)
  | give outcome =>
      cases tasks with
      | nil => cases outcome <;> cases held
      | cons task rest =>
          have below (within : stack ∈ argumentStacks rest) :
              stack ∈ argumentStacks (task :: rest) ∧
                ¬ Gives stack ⟨.give outcome, task :: rest, s⟩ :=
            ⟨mem_argumentStacks_cons within, not_gives_of_below rfl within⟩
          cases outcome with
          | value value =>
              rcases argumentStacks_resume_cases held with within | asks
              · exact .inl (below within)
              · exact .inr asks
          | returned value => cases task <;> exact .inl (below held)
          | failed error => cases task <;> exact .inl (below held)

end Advance

/-! ## What has been evaluated -/

/-- Evaluated above some tasks, an expression has a value. -/
def HasValue (waiting : List Task) (expr : Expr) (s : State) (value : Value) (after : State) :
    Prop :=
  RunsAbove waiting ⟨.eval expr, waiting, s⟩ ⟨.give (.value value), waiting, after⟩

/--
Some of the arguments of a call have been evaluated from the left, each in the state that the one
before it has left.  Their values stand with the last one first, and behind them the arguments that
are left.
-/
inductive InTurn (callee : Value) (paren : Token) (rest : List Task) (args : List Expr)
    (s : State) : List Value → List Expr → State → Prop where
  | none : InTurn callee paren rest args s [] args s
  | next {before : List Value} {arg : Expr} {left : List Expr} {between after : State}
      {value : Value} (earlier : InTurn callee paren rest args s before (arg :: left) between)
      (evaluated :
        HasValue (.nextArgument callee before paren left :: rest) arg between value after) :
      InTurn callee paren rest args s (value :: before) left after

/-- A call expression was looked at above some tasks, and its callee has been evaluated. -/
def Begun (callee : Value) (paren : Token) (args : List Expr) (rest : List Task) (after : State) :
    Prop :=
  ∃ past expr s, Reached past ⟨.eval (.call expr paren args), rest, s⟩ ∧
    HasValue (.firstArgument paren args :: rest) expr s callee after

/-- All tasks that wait for a callee or an argument do so since it began to be evaluated. -/
structure AsksInTurn (m : Machine) : Prop where
  callee : ∀ {paren args rest}, .firstArgument paren args :: rest ∈ argumentStacks m.tasks →
    ∃ past expr s, Reached past ⟨.eval (.call expr paren args), rest, s⟩ ∧
      RunsAbove (.firstArgument paren args :: rest)
        ⟨.eval expr, .firstArgument paren args :: rest, s⟩ m
  argument : ∀ {callee before paren left rest},
    .nextArgument callee before paren left :: rest ∈ argumentStacks m.tasks →
      ∃ args arg s between, Begun callee paren args rest s ∧
        InTurn callee paren rest args s before (arg :: left) between ∧
        RunsAbove (.nextArgument callee before paren left :: rest)
          ⟨.eval arg, .nextArgument callee before paren left :: rest, between⟩ m

section Tracing

variable {past : Past} {m : Machine}

theorem AsksInTurn.advance (asked : AsksInTurn m) (reached : Reached past m)
    (files : String → Except Failure String) : AsksInTurn (m.advance files) := by
  constructor
  · intro paren args rest held
    rcases argumentStacks_advance files held with ⟨before, busy⟩ | asks
    · obtain ⟨past', expr, s, began, runs⟩ := asked.callee before
      exact ⟨past', expr, s, began, runs.advance files busy⟩
    · generalize m.advance files = n at asks ⊢
      cases asks with
      | callee => exact ⟨past, _, _, reached, .start⟩
  · intro callee before paren left rest held
    rcases argumentStacks_advance files held with ⟨earlier, busy⟩ | asks
    · obtain ⟨args, arg, s, between, begun, inTurn, runs⟩ := asked.argument earlier
      exact ⟨args, arg, s, between, begun, inTurn, runs.advance files busy⟩
    · generalize m.advance files = n at asks ⊢
      cases asks with
      | first =>
          obtain ⟨past', expr, s, began, evaluated⟩ := asked.callee List.mem_cons_self
          exact ⟨_, _, _, _, ⟨past', expr, s, began, evaluated⟩, .none, .start⟩
      | next =>
          obtain ⟨args, arg, s, between, begun, inTurn, evaluated⟩ :=
            asked.argument List.mem_cons_self
          exact ⟨args, _, s, _, begun, .next inTurn evaluated, .start⟩

/-- Whatever a session gets to, what waits for arguments has them evaluated in their order. -/
theorem asksInTurn (reached : Reached past m) : AsksInTurn m := by
  induction reached with
  | fresh output now => exact ⟨nofun, nofun⟩
  | begin before compiled ih => exact ⟨nofun, nofun⟩
  | advance files before ih => exact ih.advance before files
  | pass now output before ih =>
      constructor
      · intro paren args rest held
        obtain ⟨past', expr, s, began, runs⟩ := ih.callee held
        exact ⟨past', expr, s, began, runs.pass now output⟩
      · intro callee before paren left rest held
        obtain ⟨args, arg, s, between, begun, inTurn, runs⟩ := ih.argument held
        exact ⟨args, arg, s, between, begun, inTurn, runs.pass now output⟩
  | setBase base before ih => exact ⟨nofun, nofun⟩

/-- When a call is made, its callee and then all its arguments have been evaluated in order. -/
theorem evaluated_of_calling (reached : Reached past m) {calling : Calling}
    (calls : m.calling? = some calling) :
    ∃ args s, Begun calling.callee calling.paren args calling.rest s ∧
      InTurn calling.callee calling.paren calling.rest args s calling.args.reverse [] m.state := by
  have asked := asksInTurn reached
  unfold calling? at calls
  split at calls
  · cases calls
    obtain ⟨past', expr, s, began, evaluated⟩ := asked.callee List.mem_cons_self
    exact ⟨[], _, ⟨past', expr, s, began, evaluated⟩, .none⟩
  · cases calls
    obtain ⟨args, arg, s, between, begun, inTurn, evaluated⟩ := asked.argument List.mem_cons_self
    rw [List.reverse_reverse]
    exact ⟨args, s, begun, .next inTurn evaluated⟩
  · cases calls

end Tracing

end Machine

end Lox
