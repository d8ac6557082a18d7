import Lox.Proofs.Openings
import Lox.Proofs.Stack

/-!
# What a step does to the stack

Most steps only put tasks of phrases on the stack or take them away.  The others go on with a
program, take away a task at the top, or open a block, a call or an inclusion: these save the
context for their end.
-/

namespace Lox

/-- Whether a task neither saves a context nor is the rest of a program. -/
def Task.isInner : Task → Bool
  | .program _ => false
  | .leave _ => false
  | .finishCall .. => false
  | .finishInclusion _ => false
  | _ => true

theorem Task.restores_of_isInner {task : Task} (inner : task.isInner = true) (context : Context) :
    task.restores context = context := by
  cases task with
  | leave saved => cases inner
  | finishCall saved line answer => cases inner
  | finishInclusion saved => cases inner
  | _ => rfl

/-- The statements that a task may go on with. -/
def Task.stmts : Task → List Stmt
  | .choose thenBranch elseBranch => thenBranch :: elseBranch.toList
  | .loopBody _ repeated => [repeated]
  | .loopAgain _ repeated => [repeated]
  | .body stmts => stmts
  | .program stmts => stmts
  | _ => []

def Control.stmts : Control → List Stmt
  | .exec stmt => [stmt]
  | _ => []

/-- The statements that a statement is made of, but for those of functions. -/
def Stmt.parts : Stmt → List Stmt
  | .block body => body
  | .ifElse _ thenBranch elseBranch => thenBranch :: elseBranch.toList
  | .whileLoop _ body => [body]
  | _ => []

/-- A statement is one of the given ones, or such a part of one. -/
def Stmt.From (whole : List Stmt) (stmt : Stmt) : Prop :=
  stmt ∈ whole ∨ ∃ outer ∈ whole, stmt ∈ outer.parts

namespace Machine

/-- How a step leads from a machine to the next one. -/
inductive Shift (files : String → Except Failure String) (m n : Machine) : Prop where
  /-- Tasks of phrases are taken away or put on the stack. -/
  | within {top top' rest : List Task} (before : m.tasks = top ++ rest)
      (after : n.tasks = top' ++ rest) (inner : ∀ task ∈ top, task.isInner = true)
      (inner' : ∀ task ∈ top', task.isInner = true) (same : n.state.context = m.state.context)
      (code : ∀ stmt ∈ n.control.stmts ++ top'.flatMap Task.stmts,
        stmt.From (m.control.stmts ++ top.flatMap Task.stmts))
  /-- The next statement of a program is looked at. -/
  | next {stmt : Stmt} {stmts : List Stmt} {rest : List Task}
      (before : m.tasks = .program (stmt :: stmts) :: rest)
      (after : n = ⟨.exec stmt, .program stmts :: rest, m.state⟩)
  /-- The top task is over. -/
  | close {task : Task} {rest : List Task} (gave : ∃ outcome, m.control = .give outcome)
      (before : m.tasks = task :: rest) (after : n.tasks = rest)
      (restored : n.state.context = task.restores m.state.context)
      (gives : ∃ outcome, n.control = .give outcome)
  | block {body : List Stmt} {env : Env} (executes : m.control = .exec (.block body))
      (after : n.tasks = .body body :: .leave m.state.context :: m.tasks)
      (inside : n.state.context = { m.state.context with env := env })
      (gives : ∃ outcome, n.control = .give outcome)
  | enter {top rest : List Task} {body : List Stmt} {line : Nat} {answer : Answer} {env : Env}
      (before : m.tasks = top ++ rest) (inner : ∀ task ∈ top, task.isInner = true)
      (shallow : m.state.context.depth < maxDepth)
      (after : n.tasks = .body body :: .finishCall m.state.context line answer :: rest)
      (inside : n.state.context = ⟨env, m.state.context.base, m.state.context.depth + 1⟩)
      (gives : ∃ outcome, n.control = .give outcome)
  | inclusion {path : Token} {place text : String} {program : Program}
      (asks : m.control = .awaitFile path place) (read : files place = .ok text)
      (compiled : Program.compile m.state.nextReference text = .ok program)
      (shallow : m.state.context.depth < maxDepth)
      (after : n = ⟨.give .nil, .program program.stmts :: .finishInclusion m.state.context :: m.tasks,
        (m.state.load program).setContext ⟨State.globals, (Path.parent? place).getD "",
          m.state.context.depth + 1⟩⟩)

section Shifts

variable {files : String → Except Failure String} {control : Control} {top tasks : List Task}
  {s : State}

namespace Shift

/-- An outcome is given to the tasks below those of phrases. -/
theorem giving (inner : ∀ task ∈ top, task.isInner = true) (outcome : Outcome) {after : State}
    (same : after.context = s.context) :
    Shift files ⟨control, top ++ tasks, s⟩ (.giving outcome tasks after) :=
  .within rfl rfl inner (List.forall_mem_nil _) same (List.forall_mem_nil _)

/-- A phrase that is no statement is looked at, for tasks with statements that were there. -/
theorem evaluating (inner : ∀ task ∈ top, task.isInner = true) {phrase : Control}
    (plain : phrase.stmts = []) {waiting : List Task}
    (inner' : ∀ task ∈ waiting, task.isInner = true)
    (code : ∀ stmt ∈ waiting.flatMap Task.stmts, stmt.From (control.stmts ++ top.flatMap Task.stmts)) :
    Shift files ⟨control, top ++ tasks, s⟩ ⟨phrase, waiting ++ tasks, s⟩ :=
  .within rfl rfl inner inner' rfl (by rwa [plain, List.nil_append])

/-- The same for one task without statements. -/
theorem waiting (inner : ∀ task ∈ top, task.isInner = true) {phrase : Control}
    (plain : phrase.stmts = []) {task : Task} (inner' : task.isInner = true)
    (plain' : task.stmts = []) :
    Shift files ⟨control, top ++ tasks, s⟩ ⟨phrase, task :: tasks, s⟩ :=
  .evaluating inner plain (List.forall_mem_singleton.mpr inner') (by simp [plain'])

/-- The same without any. -/
theorem alone (inner : ∀ task ∈ top, task.isInner = true) {phrase : Control}
    (plain : phrase.stmts = []) : Shift files ⟨control, top ++ tasks, s⟩ ⟨phrase, tasks, s⟩ :=
  .evaluating inner plain (List.forall_mem_nil _) (List.forall_mem_nil _)

end Shift

theorem shift_getProperty (inner : ∀ task ∈ top, task.isInner = true) (object : Value)
    (name : Token) : Shift files ⟨control, top ++ tasks, s⟩ (getProperty object name tasks s) := by
  unfold getProperty
  split
  · split
    · exact .giving inner _ rfl
    · split
      · exact .giving inner _ rfl
      · exact .giving inner _ rfl
  · exact .giving inner _ rfl

theorem shift_getSuper (inner : ∀ task ∈ top, task.isInner = true) (keyword : Reference)
    (method : Token) :
    Shift files ⟨control, top ++ tasks, s⟩ (getSuper keyword method tasks s) := by
  unfold getSuper
  split
  · exact .giving inner _ rfl
  · split
    · exact .giving inner _ rfl
    · exact .giving inner _ rfl

/-- Neither making an instance nor binding a method moves the context. -/
theorem shift_enter (inner : ∀ task ∈ top, task.isInner = true) {made : State}
    (same : made.context = s.context) (shallow : s.context.depth < maxDepth) (closure : Closure)
    (args : List Value) (line : Nat) (answer : Answer) :
    Shift files ⟨control, top ++ tasks, s⟩ (enter closure args line answer tasks made) := by
  have entered : Shift files ⟨control, top ++ tasks, s⟩ ⟨.give .nil,
      .body closure.decl.body :: .finishCall s.context line answer :: tasks,
      (made.extend closure.env (bindParameters closure.decl.params args)).2.setContext
        ⟨(made.extend closure.env (bindParameters closure.decl.params args)).1, s.context.base,
          s.context.depth + 1⟩⟩ :=
    .enter rfl inner shallow rfl rfl ⟨_, rfl⟩
  rwa [← same] at entered

theorem shift_callNative (inner : ∀ task ∈ top, task.isInner = true) (native : Native)
    (args : List Value) (line : Nat) :
    Shift files ⟨control, top ++ tasks, s⟩ (callNative native args line tasks s) := by
  have calls := callNative_calls native args line tasks s
  generalize callNative native args line tasks s = m at calls ⊢
  cases calls with
  | exits code => exact .alone inner rfl
  | answers isPlain output => exact .giving inner _ rfl
  | fails isFault output => exact .giving inner _ rfl

theorem shift_invoke (inner : ∀ task ∈ top, task.isInner = true)
    (shallow : s.context.depth < maxDepth) (callee : Value) (args : List Value) (paren : Token) :
    Shift files ⟨control, top ++ tasks, s⟩ (invoke callee args paren tasks s) := by
  unfold invoke
  split
  · exact shift_callNative inner _ _ _
  · exact shift_enter inner rfl shallow _ _ _ _
  · next cls =>
    unfold instantiate
    dsimp only
    split
    · exact .giving inner _ rfl
    · next init _ =>
        have same : ((s.newInstance cls).2.bindMethod init (s.newInstance cls).1).2.context =
            s.context := rfl
        exact shift_enter inner same shallow _ _ _ _
  · exact .giving inner _ rfl

theorem lt_of_accepted {arity : Option Arity} {given depth : Nat}
    (accepted : refusal? arity given depth = none) : depth < maxDepth := by
  unfold refusal? at accepted
  split at accepted
  · cases accepted
  · split at accepted
    · cases accepted
    · split at accepted
      · cases accepted
      · exact Nat.lt_of_not_le ‹_›
  · split at accepted
    · cases accepted
    · exact Nat.lt_of_not_le ‹_›

theorem shift_call (inner : ∀ task ∈ top, task.isInner = true) (callee : Value)
    (args : List Value) (paren : Token) :
    Shift files ⟨control, top ++ tasks, s⟩ (call callee args paren tasks s) := by
  rw [call_eq]
  split
  · exact .giving inner _ rfl
  · next accepted => exact shift_invoke inner (lt_of_accepted accepted) _ _ _

/-! ## Phrases -/

theorem shift_evaluate (expr : Expr) :
    Shift files ⟨.eval expr, tasks, s⟩ (evaluate expr tasks s) := by
  have none : ∀ task ∈ ([] : List Task), task.isInner = true := List.forall_mem_nil _
  cases expr with
  | assign target value => exact Shift.waiting none rfl rfl rfl
  | binary left operator right => exact Shift.waiting none rfl rfl rfl
  | call callee paren args => exact Shift.waiting none rfl rfl rfl
  | get object name => exact Shift.waiting none rfl rfl rfl
  | grouping inner => exact Shift.alone none rfl
  | literal value => exact Shift.giving none _ rfl
  | logical left operator right => exact Shift.waiting none rfl rfl rfl
  | set object name value => exact Shift.waiting none rfl rfl rfl
  | super keyword method => exact shift_getSuper none keyword method
  | this keyword => exact Shift.giving none _ rfl
  | unary operator operand => exact Shift.waiting none rfl rfl rfl
  | var name => exact Shift.giving none _ rfl

theorem shift_execute (stmt : Stmt) :
    Shift files ⟨.exec stmt, tasks, s⟩ (execute stmt tasks s) := by
  have none : ∀ task ∈ ([] : List Task), task.isInner = true := List.forall_mem_nil _
  have partly {phrase : Control} (plain : phrase.stmts = []) {task : Task}
      (inner : task.isInner = true) (code : ∀ part ∈ task.stmts, part ∈ stmt.parts) :
      Shift files ⟨.exec stmt, tasks, s⟩ ⟨phrase, task :: tasks, s⟩ := by
    refine Shift.evaluating none plain (List.forall_mem_singleton.mpr inner) fun part held => ?_
    rw [List.flatMap_singleton] at held
    exact .inr ⟨stmt, List.mem_cons_self, code part held⟩
  cases stmt with
  | block body => exact .block rfl rfl rfl ⟨_, rfl⟩
  | classDecl name superclass methods =>
      cases superclass with
      | none => exact Shift.giving none _ (declareClass_context ..)
      | some reference =>
          unfold execute
          dsimp only
          split
          · exact Shift.giving none _ (declareClass_context ..)
          · exact Shift.giving none _ rfl
          · exact Shift.giving none _ rfl
  | expression expr => exact Shift.alone none rfl
  | funDecl decl => exact Shift.giving none _ rfl
  | ifElse condition thenBranch elseBranch => exact partly rfl rfl fun _ => id
  | inclusion path => exact Shift.alone none rfl
  | print value => exact Shift.waiting none rfl rfl rfl
  | ret keyword value =>
      cases value with
      | none => exact Shift.giving none _ rfl
      | some value => exact Shift.waiting none rfl rfl rfl
  | varDecl name init =>
      cases init with
      | none => exact Shift.giving none _ rfl
      | some init => exact Shift.waiting none rfl rfl rfl
  | whileLoop condition body => exact partly rfl rfl fun _ => id

/-! ## Tasks -/

theorem shift_inner (value : Value) {task : Task} (isInner : task.isInner = true) :
    Shift files ⟨.give (.value value), task :: tasks, s⟩ (resume value task tasks s) := by
  have inner : ∀ other ∈ [task], other.isInner = true := List.forall_mem_singleton.mpr isInner
  have goesOn {phrase : Control} {waiting : List Task}
      (inner' : ∀ other ∈ waiting, other.isInner = true)
      (code : ∀ stmt ∈ phrase.stmts ++ waiting.flatMap Task.stmts, stmt ∈ task.stmts) :
      Shift files ⟨.give (.value value), task :: tasks, s⟩ ⟨phrase, waiting ++ tasks, s⟩ :=
    .within rfl rfl inner inner' rfl fun stmt held =>
      .inl (List.mem_append_right _ (by simpa using code stmt held))
  cases task with
  | assign target =>
      simp only [resume, State.assign_eq]
      exact Shift.giving inner _ rfl
  | rightOperand operator right => exact Shift.waiting inner rfl rfl rfl
  | operate left operator => exact Shift.giving inner _ rfl
  | operateUnary operator => exact Shift.giving inner _ rfl
  | decide operator right =>
      simp only [resume]
      split
      · exact Shift.giving inner _ rfl
      · exact Shift.alone inner rfl
  | firstArgument paren args =>
      cases args with
      | nil => exact shift_call inner value [] paren
      | cons arg args => exact Shift.waiting inner rfl rfl rfl
  | nextArgument callee before paren args =>
      cases args with
      | nil => exact shift_call inner callee _ paren
      | cons arg args => exact Shift.waiting inner rfl rfl rfl
  | get name => exact shift_getProperty inner value name
  | storedValue name stored =>
      cases value with
      | inst inst => exact Shift.waiting inner rfl rfl rfl
      | _ => exact Shift.giving inner _ rfl
  | set inst name => exact Shift.giving inner _ rfl
  | define name => exact Shift.giving inner _ rfl
  | print line =>
      simp only [resume, State.writeLine_eq]
      exact Shift.giving inner _ rfl
  | ret => exact Shift.giving inner _ rfl
  | choose thenBranch elseBranch =>
      simp only [resume]
      split
      · exact goesOn (List.forall_mem_nil _) (by simp [Control.stmts, Task.stmts])
      · split
        · exact goesOn (List.forall_mem_nil _) (by simp [Control.stmts, Task.stmts])
        · exact Shift.giving inner _ rfl
  | loopBody condition body =>
      simp only [resume]
      split
      · exact goesOn (List.forall_mem_singleton.mpr rfl) (by simp [Control.stmts, Task.stmts])
      · exact Shift.giving inner _ rfl
  | loopAgain condition body =>
      exact goesOn (List.forall_mem_singleton.mpr rfl) (by simp [Control.stmts, Task.stmts])
  | body stmts =>
      cases stmts with
      | nil => exact Shift.giving inner _ rfl
      | cons stmt stmts =>
          exact goesOn (List.forall_mem_singleton.mpr rfl) (by simp [Control.stmts, Task.stmts])
  | program stmts => cases isInner
  | leave context => cases isInner
  | finishCall context line answer => cases isInner
  | finishInclusion context => cases isInner

theorem shift_resume (value : Value) (task : Task) :
    Shift files ⟨.give (.value value), task :: tasks, s⟩ (resume value task tasks s) := by
  cases task with
  | program stmts =>
      cases stmts with
      | nil => exact .close ⟨_, rfl⟩ rfl rfl rfl ⟨_, rfl⟩
      | cons stmt stmts => exact .next rfl rfl
  | leave context => exact .close ⟨_, rfl⟩ rfl rfl rfl ⟨_, rfl⟩
  | finishCall context line answer => exact .close ⟨_, rfl⟩ rfl rfl rfl ⟨_, rfl⟩
  | finishInclusion context => exact .close ⟨_, rfl⟩ rfl rfl rfl ⟨_, rfl⟩
  | _ => exact shift_inner value rfl

theorem shift_unwind (value : Value) (task : Task) :
    Shift files ⟨.give (.returned value), task :: tasks, s⟩ (unwind value task tasks s) := by
  cases task with
  | program stmts => exact Shift.giving (List.forall_mem_nil _) _ rfl
  | _ => exact .close ⟨_, rfl⟩ rfl rfl rfl ⟨_, rfl⟩

theorem shift_abandon (error : Error) (task : Task) :
    Shift files ⟨.give (.failed error), task :: tasks, s⟩ (abandon error task tasks s) := by
  cases task <;> exact .close ⟨_, rfl⟩ rfl rfl rfl ⟨_, rfl⟩

/-- A file that cannot be included gives an error where it was asked for. -/
theorem shift_provide (path : Token) (place : String) :
    Shift files ⟨.awaitFile path place, tasks, s⟩ (provide (files place) path place tasks s) := by
  have none : ∀ task ∈ ([] : List Task), task.isInner = true := List.forall_mem_nil _
  unfold provide
  cases read : files place with
  | error failure => exact Shift.giving none _ rfl
  | ok text =>
      dsimp only
      cases compiled : Program.compile s.nextReference text with
      | error errors => exact Shift.giving none _ rfl
      | ok program =>
          dsimp only
          split
          · exact Shift.giving none _ rfl
          · next deep => exact .inclusion rfl read compiled (Nat.lt_of_not_le deep) rfl

/-- Each step is one of these. -/
theorem shift_advance (files : String → Except Failure String) (m : Machine) :
    Shift files m (m.advance files) := by
  have rests : Shift files m m :=
    .within (List.nil_append _).symm (List.nil_append _).symm (List.forall_mem_nil _)
      (List.forall_mem_nil _) rfl fun stmt held => .inl held
  obtain ⟨control, tasks, s⟩ := m
  cases control with
  | eval expr => exact shift_evaluate expr
  | exec stmt => exact shift_execute stmt
  | give outcome =>
      cases tasks with
      | nil => cases outcome <;> exact rests
      | cons task tasks =>
          cases outcome with
          | value value => exact shift_resume value task
          | returned value => exact shift_unwind value task
          | failed error => exact shift_abandon error task
  | awaitFile path place => exact shift_provide path place
  | exited code => exact rests

end Shifts

end Machine

end Lox
