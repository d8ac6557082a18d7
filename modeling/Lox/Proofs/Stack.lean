import Mathlib.Logic.Function.Iterate
import Lox.Machine.Run
import Lox.Proofs.Natives

/-!
# The stack of tasks

A step takes at most the top task away and puts new tasks on the others.  Whenever it changes the
context, one of the new tasks brings the former one back.  So the context that will be in force once
the tasks above some place are done is the same before and after each step; and whoever waits at
that place finds the context that it left.
-/

namespace Lox

namespace Task

/-- The context in force once a task is done. -/
def restores (task : Task) (current : Context) : Context :=
  match task with
  | .leave saved => saved
  | .finishCall saved _ _ => saved
  | .finishInclusion saved => saved
  | _ => current

/-- Whether a task leaves the context in force. -/
def isPlain : Task → Bool
  | .leave _ => false
  | .finishCall _ _ _ => false
  | .finishInclusion _ => false
  | _ => true

theorem restores_of_isPlain {task : Task} (plain : task.isPlain = true) (current : Context) :
    task.restores current = current := by
  cases task with
  | leave saved => cases plain
  | finishCall saved line answer => cases plain
  | finishInclusion saved => cases plain
  | _ => rfl

end Task

/-- The context in force once all of some tasks are done, the first of them first. -/
def contextAfter (tasks : List Task) (current : Context) : Context :=
  tasks.foldl (fun context task => task.restores context) current

@[simp] theorem contextAfter_nil (current : Context) : contextAfter [] current = current := rfl

@[simp] theorem contextAfter_cons (task : Task) (tasks : List Task) (current : Context) :
    contextAfter (task :: tasks) current = contextAfter tasks (task.restores current) := rfl

@[simp] theorem contextAfter_append (above below : List Task) (current : Context) :
    contextAfter (above ++ below) current = contextAfter below (contextAfter above current) :=
  List.foldl_append

theorem contextAfter_of_isPlain {tasks : List Task} (plain : tasks.all Task.isPlain = true)
    (current : Context) : contextAfter tasks current = current := by
  induction tasks with
  | nil => rfl
  | cons task tasks ih =>
      obtain ⟨first, rest⟩ := Bool.and_eq_true_iff.mp plain
      rw [contextAfter_cons, Task.restores_of_isPlain first, ih rest]

namespace Machine

/--
What a step may put on some tasks, in which context: tasks that leave the context in force; or those
of a block, of a call or of an inclusion, the last of which brings the context back.
-/
inductive Shifts (tasks : List Task) (context : Context) : Machine → Prop where
  | goes {control : Control} {s : State} (pushed : List Task)
      (plain : pushed.all Task.isPlain = true) (same : s.context = context) :
      Shifts tasks context ⟨control, pushed ++ tasks, s⟩
  | opens {control : Control} {s : State} {body : List Stmt} (frame : Nat)
      (branched : s.context.env = context.env.branch frame) :
      Shifts tasks context ⟨control, .body body :: .leave context :: tasks, s⟩
  | enters {control : Control} {s : State} {body : List Stmt} {line : Nat} {answer : Answer} :
      Shifts tasks context ⟨control, .body body :: .finishCall context line answer :: tasks, s⟩
  | includes {control : Control} {s : State} {stmts : List Stmt} :
      Shifts tasks context ⟨control, .program stmts :: .finishInclusion context :: tasks, s⟩

/--
The machine is busy above the given tasks, and once it is done there, the given context is in
force.
-/
def IsAbove (below : List Task) (context : Context) (m : Machine) : Prop :=
  ∃ above, m.tasks = above ++ below ∧ contextAfter above m.state.context = context

/-- Once the new tasks are done, the context is in force that was in force before. -/
theorem Shifts.isAbove {tasks : List Task} {context : Context} {m : Machine}
    (shifts : m.Shifts tasks context) : m.IsAbove tasks context := by
  cases shifts with
  | goes pushed plain same => exact ⟨pushed, rfl, (contextAfter_of_isPlain plain _).trans same⟩
  | opens frame branched => exact ⟨[_, _], rfl, rfl⟩
  | enters => exact ⟨[_, _], rfl, rfl⟩
  | includes => exact ⟨[_, _], rfl, rfl⟩

theorem giving_shifts {outcome : Outcome} {tasks : List Task} {s : State} {context : Context}
    (same : s.context = context) : (giving outcome tasks s).Shifts tasks context :=
  .goes [] rfl same

/-- What is above more tasks is above fewer of them. -/
theorem IsAbove.below {m : Machine} {above below : List Task} {context : Context}
    (isAbove : m.IsAbove (above ++ below) context) :
    m.IsAbove below (contextAfter above context) := by
  obtain ⟨top, tasks, after⟩ := isAbove
  refine ⟨top ++ above, by rw [tasks, List.append_assoc], ?_⟩
  rw [contextAfter_append, after]

/-! ## Looking at phrases -/

theorem getProperty_shifts (object : Value) (name : Token) (tasks : List Task) (s : State) :
    (getProperty object name tasks s).Shifts tasks s.context := by
  unfold getProperty
  split
  · split
    · exact giving_shifts rfl
    · split
      · exact giving_shifts rfl
      · exact giving_shifts rfl
  · exact giving_shifts rfl

theorem getSuper_shifts (keyword : Reference) (method : Token) (tasks : List Task) (s : State) :
    (getSuper keyword method tasks s).Shifts tasks s.context := by
  unfold getSuper
  split
  · exact giving_shifts rfl
  · split
    · exact giving_shifts rfl
    · exact giving_shifts rfl

/-- Entering a body saves the context of the caller for the end of the call. -/
theorem enter_shifts (closure : Closure) (args : List Value) (line : Nat) (answer : Answer)
    (tasks : List Task) {s : State} {context : Context} (same : s.context = context) :
    (enter closure args line answer tasks s).Shifts tasks context := by
  subst same
  exact .enters

theorem callNative_shifts (native : Native) (args : List Value) (line : Nat) (tasks : List Task)
    (s : State) : (callNative native args line tasks s).Shifts tasks s.context := by
  have calls := callNative_calls native args line tasks s
  generalize callNative native args line tasks s = m at calls ⊢
  cases calls with
  | exits code => exact .goes [] rfl rfl
  | answers isPlain output => exact giving_shifts rfl
  | fails isFault output => exact giving_shifts rfl

theorem instantiate_shifts (cls : Class) (args : List Value) (line : Nat) (tasks : List Task)
    (s : State) : (instantiate cls args line tasks s).Shifts tasks s.context := by
  unfold instantiate
  dsimp only
  split
  · exact giving_shifts rfl
  · exact enter_shifts _ _ _ _ _ rfl

theorem invoke_shifts (callee : Value) (args : List Value) (paren : Token) (tasks : List Task)
    (s : State) : (invoke callee args paren tasks s).Shifts tasks s.context := by
  unfold invoke
  split
  · exact callNative_shifts ..
  · exact enter_shifts _ _ _ _ _ rfl
  · exact instantiate_shifts ..
  · exact giving_shifts rfl

theorem call_shifts (callee : Value) (args : List Value) (paren : Token) (tasks : List Task)
    (s : State) : (call callee args paren tasks s).Shifts tasks s.context := by
  unfold call
  split
  · exact giving_shifts rfl
  · split
    · exact giving_shifts rfl
    · split
      · exact giving_shifts rfl
      · exact invoke_shifts ..
  · split
    · exact giving_shifts rfl
    · exact invoke_shifts ..

theorem evaluate_shifts (expr : Expr) (tasks : List Task) (s : State) :
    (evaluate expr tasks s).Shifts tasks s.context := by
  cases expr with
  | assign target value => exact .goes [.assign target] rfl rfl
  | binary left operator right => exact .goes [.rightOperand operator right] rfl rfl
  | call callee paren args => exact .goes [.firstArgument paren args] rfl rfl
  | get object name => exact .goes [.get name] rfl rfl
  | grouping inner => exact .goes [] rfl rfl
  | literal value => exact giving_shifts rfl
  | logical left operator right => exact .goes [.decide operator right] rfl rfl
  | set object name value => exact .goes [.storedValue name value] rfl rfl
  | super keyword method => exact getSuper_shifts ..
  | this keyword => exact giving_shifts rfl
  | unary operator operand => exact .goes [.operateUnary operator] rfl rfl
  | var name => exact giving_shifts rfl

theorem declareClass_context (name : Token) (superclass : Option Class) (methods : List FunDecl)
    (s : State) : (s.declareClass name superclass methods).context = s.context := by
  cases superclass <;> rfl

/-- Declaring a class leaves the context alone, also while the frame of `super` is made. -/
theorem giving_declareClass_shifts (name : Token) (superclass : Option Class)
    (methods : List FunDecl) (tasks : List Task) (s : State) :
    (giving .nil tasks (s.declareClass name superclass methods)).Shifts tasks s.context :=
  giving_shifts (declareClass_context name superclass methods s)

theorem execute_shifts (stmt : Stmt) (tasks : List Task) (s : State) :
    (execute stmt tasks s).Shifts tasks s.context := by
  cases stmt with
  | block body => exact .opens _ rfl
  | classDecl name superclass methods =>
      cases superclass with
      | none => exact giving_declareClass_shifts ..
      | some reference =>
          simp only [execute]
          split
          · exact giving_declareClass_shifts ..
          · exact giving_shifts rfl
          · exact giving_shifts rfl
  | expression expr => exact .goes [] rfl rfl
  | funDecl decl => exact giving_shifts rfl
  | ifElse condition thenBranch elseBranch => exact .goes [.choose thenBranch elseBranch] rfl rfl
  | inclusion path => exact .goes [] rfl rfl
  | print value => exact .goes [.print value.mainLine] rfl rfl
  | ret keyword value =>
      cases value with
      | none => exact giving_shifts rfl
      | some value => exact .goes [.ret] rfl rfl
  | varDecl name init =>
      cases init with
      | none => exact giving_shifts rfl
      | some init => exact .goes [.define name] rfl rfl
  | whileLoop condition body => exact .goes [.loopBody condition body] rfl rfl

/-! ## Carrying out tasks -/

/-- A task that is done with a value leaves the context that it restores. -/
theorem resume_shifts (value : Value) (task : Task) (tasks : List Task) (s : State) :
    (resume value task tasks s).Shifts tasks (task.restores s.context) := by
  cases task with
  | assign target =>
      simp only [resume, State.assign_eq]
      exact giving_shifts rfl
  | rightOperand operator right => exact .goes [.operate value operator] rfl rfl
  | operate left operator => exact giving_shifts rfl
  | operateUnary operator => exact giving_shifts rfl
  | decide operator right =>
      simp only [resume]
      split
      · exact giving_shifts rfl
      · exact .goes [] rfl rfl
  | firstArgument paren args =>
      cases args with
      | nil => exact call_shifts ..
      | cons arg args => exact .goes [.nextArgument value [] paren args] rfl rfl
  | nextArgument callee before paren args =>
      cases args with
      | nil => exact call_shifts ..
      | cons arg args => exact .goes [.nextArgument callee (value :: before) paren args] rfl rfl
  | get name => exact getProperty_shifts ..
  | storedValue name stored =>
      cases value with
      | inst inst => exact .goes [.set inst name] rfl rfl
      | _ => exact giving_shifts rfl
  | set inst name => exact giving_shifts rfl
  | define name => exact giving_shifts rfl
  | print line =>
      simp only [resume, State.writeLine_eq]
      exact giving_shifts rfl
  | ret => exact giving_shifts rfl
  | choose thenBranch elseBranch =>
      simp only [resume]
      split
      · exact .goes [] rfl rfl
      · split
        · exact .goes [] rfl rfl
        · exact giving_shifts rfl
  | loopBody condition body =>
      simp only [resume]
      split
      · exact .goes [.loopAgain condition body] rfl rfl
      · exact giving_shifts rfl
  | loopAgain condition body => exact .goes [.loopBody condition body] rfl rfl
  | body stmts =>
      cases stmts with
      | nil => exact giving_shifts rfl
      | cons stmt stmts => exact .goes [.body stmts] rfl rfl
  | program stmts =>
      cases stmts with
      | nil => exact giving_shifts rfl
      | cons stmt stmts => exact .goes [.program stmts] rfl rfl
  | leave context => exact .goes [] rfl rfl
  | finishCall context line answer => exact .goes [] rfl rfl
  | finishInclusion context => exact .goes [] rfl rfl

theorem unwind_shifts (value : Value) (task : Task) (tasks : List Task) (s : State) :
    (unwind value task tasks s).Shifts tasks (task.restores s.context) := by
  cases task with
  | program stmts => exact .goes [.program stmts] rfl rfl
  | _ => exact .goes [] rfl rfl

theorem abandon_shifts (error : Error) (task : Task) (tasks : List Task) (s : State) :
    (abandon error task tasks s).Shifts tasks (task.restores s.context) := by
  cases task with
  | _ => exact .goes [] rfl rfl

theorem provide_shifts (answer : Except Failure String) (path : Token) (place : String)
    (tasks : List Task) (s : State) :
    (provide answer path place tasks s).Shifts tasks s.context := by
  unfold provide
  split
  · exact giving_shifts rfl
  · split
    · exact giving_shifts rfl
    · next program compiled =>
        dsimp only
        split
        · exact giving_shifts rfl
        · exact .includes

/-! ## Steps -/

/-- The machine gives an outcome to exactly the given tasks. -/
def Gives (tasks : List Task) (m : Machine) : Prop :=
  ∃ outcome, m.control = .give outcome ∧ m.tasks = tasks

/-- A step puts new tasks on those that wait, or on those that wait below the top one. -/
theorem advance_shifts (m : Machine) (files : String → Except Failure String) :
    (m.advance files).Shifts m.tasks m.state.context ∨
      ∃ outcome task rest, m.control = .give outcome ∧ m.tasks = task :: rest ∧
        (m.advance files).Shifts rest (task.restores m.state.context) := by
  obtain ⟨control, tasks, s⟩ := m
  cases control with
  | eval expr => exact .inl (evaluate_shifts expr tasks s)
  | exec stmt => exact .inl (execute_shifts stmt tasks s)
  | awaitFile path place => exact .inl (provide_shifts (files place) path place tasks s)
  | exited code => exact .inl (.goes [] rfl rfl)
  | give outcome =>
      cases tasks with
      | nil => cases outcome <;> exact .inl (.goes [] rfl rfl)
      | cons task rest =>
          refine .inr ⟨outcome, task, rest, rfl, rfl, ?_⟩
          cases outcome with
          | value value => exact resume_shifts value task rest s
          | returned value => exact unwind_shifts value task rest s
          | failed error => exact abandon_shifts error task rest s

/-- A step of a machine that is above some tasks, and not done there, leaves it above them. -/
theorem IsAbove.advance {below : List Task} {context : Context} {m : Machine}
    (isAbove : m.IsAbove below context) (busy : ¬ m.Gives below)
    (files : String → Except Failure String) : (m.advance files).IsAbove below context := by
  obtain ⟨above, isTasks, rfl⟩ := isAbove
  rcases m.advance_shifts files with shifts | ⟨outcome, task, rest, given, waits, shifts⟩
  · rw [isTasks] at shifts
    exact shifts.isAbove.below
  · cases above with
    | nil => exact absurd ⟨outcome, given, isTasks⟩ busy
    | cons first above =>
        obtain ⟨rfl, rfl⟩ := List.cons.inj (waits.symm.trans isTasks)
        exact shifts.isAbove.below

/-! ## Runs -/

/-- The machine after its host has looked at the clock and taken or given back some output. -/
def pass (now : Float) (output : Sink) (m : Machine) : Machine :=
  { m with state := { m.state with now := now, output := output } }

/--
The machines that are reached from one that is busy above some waiting tasks, up to the first
one that gives an outcome to them.  What the host answers may differ from step to step.
-/
inductive RunsAbove (waiting : List Task) (m : Machine) : Machine → Prop where
  | start : RunsAbove waiting m m
  | advance {n : Machine} (files : String → Except Failure String)
      (busy : RunsAbove waiting m n) (unfinished : ¬ n.Gives waiting) :
      RunsAbove waiting m (n.advance files)
  | pass {n : Machine} (now : Float) (output : Sink) (busy : RunsAbove waiting m n) :
      RunsAbove waiting m (n.pass now output)

/-- All that happens above some tasks leaves them in place, and their context to come back. -/
theorem RunsAbove.isAbove {waiting : List Task} {m n : Machine} {context : Context}
    (runs : RunsAbove waiting m n) (isAbove : m.IsAbove waiting context) :
    n.IsAbove waiting context := by
  induction runs with
  | start => exact isAbove
  | advance files busy unfinished ih => exact ih.advance unfinished files
  | pass now output busy ih => exact ih

/-- A machine that has come back to the tasks that it was above is in their context. -/
theorem IsAbove.context_eq {waiting : List Task} {context : Context} {m : Machine}
    (isAbove : m.IsAbove waiting context) (ended : m.tasks = waiting) :
    m.state.context = context := by
  obtain ⟨above, tasks, after⟩ := isAbove
  rw [ended] at tasks
  rw [← after, List.self_eq_append_left.mp tasks]
  rfl

/-- A machine has ended with an outcome exactly if it gives it to nobody. -/
theorem ending?_eq_outcome {m : Machine} {outcome : Outcome} :
    m.ending? = some (.outcome outcome) ↔ m = ⟨.give outcome, [], m.state⟩ := by
  obtain ⟨control, tasks, s⟩ := m
  cases control with
  | give given => cases tasks <;> simp [ending?]
  | _ => cases tasks <;> simp [ending?]

theorem ending?_isSome_of_gives {m : Machine} (gives : m.Gives []) : m.ending?.isSome := by
  obtain ⟨control, tasks, s⟩ := m
  obtain ⟨outcome, rfl, rfl⟩ := gives
  rfl

/-- What holds of a machine and is kept by its steps holds of the machine that ends its run. -/
theorem run_outcome {P : Machine → Prop} {files : String → Except Failure String} {steps : Nat}
    {m : Machine} {outcome : Outcome} (next : ∀ n, P n → ¬ n.Gives [] → P (n.advance files))
    (start : P m) (ended : (m.run files steps).1 = .outcome outcome) :
    P ⟨.give outcome, [], (m.run files steps).2⟩ := by
  induction steps generalizing m with
  | zero =>
      cases final : m.ending? with
      | none => simp [run, final] at ended
      | some ending =>
          simp only [run, final, Option.getD_some] at ended ⊢
          rw [ended, ending?_eq_outcome] at final
          rwa [← final]
  | succ steps ih =>
      rw [run_succ] at ended ⊢
      cases final : m.ending? with
      | none =>
          rw [final] at ended
          refine ih (next m start fun gives => ?_) ended
          simpa [final] using ending?_isSome_of_gives gives
      | some ending =>
          simp only [final] at ended ⊢
          rw [ended, ending?_eq_outcome] at final
          rwa [← final]

/-- A run with a host of fixed files reaches the outcome that ends it. -/
theorem runsAbove_run {files : String → Except Failure String} {steps : Nat} {m : Machine}
    {outcome : Outcome} (ended : (m.run files steps).1 = .outcome outcome) :
    RunsAbove [] m ⟨.give outcome, [], (m.run files steps).2⟩ :=
  run_outcome (fun _ runs unfinished => .advance files runs unfinished) .start ended

/-- The machine after some steps, without any files. -/
def stepped (steps : Nat) (m : Machine) : Machine := (advance fun _ => .error .missing)^[steps] m

/-- A machine whose stack stays higher than some tasks is running above them. -/
theorem runsAbove_stepped {waiting : List Task} {m : Machine} {steps : Nat}
    (higher : ∀ n < steps, waiting.length < (m.stepped n).tasks.length) :
    RunsAbove waiting m (m.stepped steps) := by
  induction steps with
  | zero => exact .start
  | succ steps ih =>
      have before := ih fun n earlier => higher n (Nat.lt_succ_of_lt earlier)
      rw [stepped, Function.iterate_succ_apply']
      refine .advance _ before fun ⟨outcome, _, ended⟩ => ?_
      exact Nat.ne_of_lt (higher steps (Nat.lt_succ_self steps)) (congrArg List.length ended).symm

end Machine

end Lox
