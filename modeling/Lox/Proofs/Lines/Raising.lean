import Lox.Proofs.Activations
import Lox.Proofs.Parse.Phrases
import Lox.Proofs.Returns

/-!
# Where errors are raised

Each rule of the language names a token, and breaking it is an error at that token.  Besides, a
native function may fail in its call, a file may be no program, and the value of a `print` statement
may not be written.  A step raises an error for one of these causes, or hands one on that was raised
before; no other step fails.
-/

namespace Lox

/-- What an error is raised for, with what tells its line. -/
inductive Cause where
  /-- A rule of the language is broken at a token. -/
  | rule (token : Token) (fault : RuntimeFault)
  /-- The text of the file that a path names is rejected. -/
  | inclusion (path : Token) (errors : List Error)
  /-- A native function fails in the call with the given closing parenthesis. -/
  | native (paren : Token) (fault : RuntimeFault)
  /-- The value of a `print` statement is not written, for the given reason of the output. -/
  | print (value : Expr) (detail : String)

namespace Cause

/--
The line that the error tells once it has left the call of the native function, or the statement,
that it was raised in; 0 if there is none to tell.
-/
def line : Cause → Nat
  | rule token _ => token.line
  | inclusion path _ => path.line
  | native paren _ => paren.line
  | print value _ => value.mainLine

/-- The error as it is raised.  Native functions and the output know no line. -/
def raised : Cause → Error
  | rule token fault => .runtimeAt token fault
  | inclusion path errors => .inclusion path.line path.pathText errors
  | native _ fault => .unplaced fault
  | print _ detail => .unplaced (.unwritableOutput detail)

/-- The error on the given line. -/
def errorAt (line : Nat) : Cause → Error
  | rule _ fault => .runtime line fault
  | inclusion path errors => .inclusion line path.pathText errors
  | native _ fault => .runtime line fault
  | print _ detail => .runtime line (.unwritableOutput detail)

/-- The error as it leaves the call of the native function, or the statement, it was raised in. -/
def error (cause : Cause) : Error := cause.raised.withLineIfMissing cause.line

theorem error_eq (cause : Cause) : cause.error = cause.errorAt cause.line := by
  unfold error raised
  cases cause with
  | rule token fault =>
      cases line : token.line <;>
        simp [Error.runtimeAt, Error.withLineIfMissing, errorAt, Cause.line, line]
  | _ => rfl

end Cause

theorem State.read_of_unbound {reference : Reference} {s : State}
    (unbound : s.valueOf? reference = none) :
    s.read reference = .failAt reference.name (.undefinedVariable reference.name.lexeme) := by
  unfold read
  rw [unbound]

/-! ## Tokens at hand -/

def Control.tokens : Control → List Token
  | .eval expr => expr.tokens
  | .exec stmt => stmt.tokens
  | .awaitFile path _ => [path]
  | _ => []

/-- The tokens of what a task will go on with, and those that it may be refused at. -/
def Task.tokens : Task → List Token
  | .assign target => [target.name]
  | .rightOperand operator right => operator :: right.tokens
  | .operate _ operator => [operator]
  | .operateUnary operator => [operator]
  | .decide operator right => operator :: right.tokens
  | .firstArgument paren args => paren :: tokensAll args
  | .nextArgument _ _ paren args => paren :: tokensAll args
  | .get name => [name]
  | .storedValue name value => name :: value.tokens
  | .set _ name => [name]
  | .define name => [name]
  | .choose thenBranch none => thenBranch.tokens
  | .choose thenBranch (some elseBranch) => thenBranch.tokens ++ elseBranch.tokens
  | .loopBody condition repeated => condition.tokens ++ repeated.tokens
  | .loopAgain condition repeated => condition.tokens ++ repeated.tokens
  | .body stmts => tokensBody stmts
  | .program stmts => tokensBody stmts
  | _ => []

/-- The tokens that a machine is busy with, or waits to go on with. -/
def Machine.tokens (m : Machine) : List Token := m.control.tokens ++ m.tasks.flatMap Task.tokens

namespace Machine

/--
The rules that the next step may break, each with the token that it names; and the failures of
native functions and of inclusions.
-/
inductive Breaks (files : String → Except Failure String) (m : Machine) : Cause → Prop where
  | unboundVariable {name : Reference} (now : m.control = .eval (.var name))
      (unbound : m.state.valueOf? name = none) :
      Breaks files m (.rule name.name (.undefinedVariable name.name.lexeme))
  | unboundReceiver {keyword : Reference} (now : m.control = .eval (.this keyword))
      (unbound : m.state.valueOf? keyword = none) :
      Breaks files m (.rule keyword.name (.undefinedVariable keyword.name.lexeme))
  | unboundTarget {target : Reference} {value : Value} {rest : List Task}
      (given : m.control = .give (.value value)) (waits : m.tasks = .assign target :: rest)
      (unbound : (m.state.assign target value).1 = false) :
      Breaks files m (.rule target.name (.undefinedVariable target.name.lexeme))
  | operands {left right : Value} {operator : Token} {rest : List Task} {fault : RuntimeFault}
      (given : m.control = .give (.value right)) (waits : m.tasks = .operate left operator :: rest)
      (unfit : Lox.operate operator left right = .failAt operator fault) :
      Breaks files m (.rule operator fault)
  | operand {value : Value} {operator : Token} {rest : List Task} {fault : RuntimeFault}
      (given : m.control = .give (.value value)) (waits : m.tasks = .operateUnary operator :: rest)
      (unfit : Lox.operateUnary operator value = .failAt operator fault) :
      Breaks files m (.rule operator fault)
  | refused {calling : Calling} {fault : RuntimeFault} (calls : m.calling? = some calling)
      (refused : refusal? calling.callee.arity? calling.args.length m.state.context.depth =
        some fault) :
      Breaks files m (.rule calling.paren fault)
  | noProperties {value : Value} {name : Token} {rest : List Task}
      (given : m.control = .give (.value value)) (waits : m.tasks = .get name :: rest)
      (other : ∀ inst, value ≠ .inst inst) : Breaks files m (.rule name .noProperties)
  | undefinedProperty {receiver : Instance} {name : Token} {rest : List Task}
      (given : m.control = .give (.value (.inst receiver))) (waits : m.tasks = .get name :: rest)
      (noField : m.state.store.field? receiver.object name.lexeme = none)
      (noMethod : receiver.cls.findMethod? name.lexeme = none) :
      Breaks files m (.rule name (.undefinedProperty name.lexeme receiver.cls.name))
  | noFields {value : Value} {name : Token} {stored : Expr} {rest : List Task}
      (given : m.control = .give (.value value))
      (waits : m.tasks = .storedValue name stored :: rest)
      (other : ∀ inst, value ≠ .inst inst) : Breaks files m (.rule name .noFields)
  | superMisplaced {keyword : Reference} {method : Token}
      (now : m.control = .eval (.super keyword method)) (stands : m.state.superOf? keyword = none) :
      Breaks files m (.rule keyword.name .superMisplaced)
  | undefinedSuper {keyword : Reference} {method : Token} {superclass : Class} {receiver : Instance}
      (now : m.control = .eval (.super keyword method))
      (stands : m.state.superOf? keyword = some (superclass, receiver))
      (noMethod : superclass.findMethod? method.lexeme = none) :
      Breaks files m (.rule method (.undefinedSuperProperty method.lexeme superclass.name))
  | unboundSuperclass {name : Token} {reference : Reference} {methods : List FunDecl}
      (now : m.control = .exec (.classDecl name (some reference) methods))
      (unbound : m.state.valueOf? reference = none) :
      Breaks files m (.rule reference.name (.undefinedVariable reference.name.lexeme))
  | noClass {name : Token} {reference : Reference} {methods : List FunDecl} {value : Value}
      (now : m.control = .exec (.classDecl name (some reference) methods))
      (bound : m.state.valueOf? reference = some value) (other : ∀ cls, value ≠ .cls cls) :
      Breaks files m (.rule reference.name (.superclassNotClass reference.name.lexeme))
  | unreadable {path : Token} {place : String} {failure : Failure}
      (now : m.control = .awaitFile path place) (unread : files place = .error failure) :
      Breaks files m (.rule path (.unreadableInclude path.pathText failure))
  | rejected {path : Token} {place source : String} {errors : List Error}
      (now : m.control = .awaitFile path place) (read : files place = .ok source)
      (faulty : Program.compile m.state.nextReference source = .error errors) :
      Breaks files m (.inclusion path errors)
  | tooDeep {path : Token} {place source : String} {program : Program}
      (now : m.control = .awaitFile path place) (read : files place = .ok source)
      (compiled : Program.compile m.state.nextReference source = .ok program)
      (deep : maxDepth ≤ m.state.context.depth) : Breaks files m (.rule path .stackOverflow)
  | native {calling : Calling} {native : Native} {fault : RuntimeFault}
      (calls : m.calling? = some calling) (isNative : calling.callee = .native native)
      (accepted : refusal? calling.callee.arity? calling.args.length m.state.context.depth = none)
      (isFault : NativeFault native calling.args m.state fault) :
      Breaks files m (.native calling.paren fault)

end Machine

/-- A task that keeps a line for the errors that are raised at it or pass through it. -/
def Task.keepsLine : Task → Bool
  | .print _ => true
  | .finishCall .. => true
  | _ => false

def Control.isFailing : Control → Bool
  | .give (.failed _) => true
  | _ => false

/-- What becomes of an error that passes through a task. -/
def Task.fills (task : Task) (error : Error) : Error :=
  match task with
  | .finishCall _ line _ => error.withLineIfMissing line
  | _ => error

namespace Machine

/-- What the next step makes of the tasks and of the tokens, and whether it fails. -/
inductive Turns (files : String → Except Failure String) (m : Machine) : Machine → Prop where
  | goes {control : Control} {pushed rest : List Task} {s : State}
      (sound : control.isFailing = false) (left : rest <:+ m.tasks)
      (lineless : ∀ task ∈ pushed, task.keepsLine = false)
      (read : control.tokens ++ pushed.flatMap Task.tokens ⊆ m.tokens) :
      Turns files m ⟨control, pushed ++ rest, s⟩
  | prints {value : Expr} (now : m.control = .exec (.print value)) :
      Turns files m ⟨.eval value, .print value.mainLine :: m.tasks, m.state⟩
  | enters {a : Activation} (begins : m.activation? = some a) : Turns files m a.machine
  | includes {loaded : Loaded} {context : Context} {s : State}
      (loads : m.loads? files = some loaded) :
      Turns files m
        ⟨.give .nil, .program loaded.program.stmts :: .finishInclusion context :: m.tasks, s⟩
  | breaks {cause : Cause} {rest : List Task} {s : State} (breaks : m.Breaks files cause)
      (left : rest <:+ m.tasks) :
      Turns files m ⟨.give (.failed (cause.errorAt cause.line)), rest, s⟩
  | refuses {value : Value} {line : Nat} {detail : String} {rest : List Task} {s : State}
      (given : m.control = .give (.value value)) (waits : m.tasks = .print line :: rest)
      (untaken : (m.state.writeLine value.text).1 = some detail) :
      Turns files m ⟨.give (.failed (.runtime line (.unwritableOutput detail))), rest, s⟩
  | passes {error : Error} {task : Task} {rest : List Task} {s : State}
      (failing : m.control = .give (.failed error)) (waits : m.tasks = task :: rest) :
      Turns files m ⟨.give (.failed (task.fills error)), rest, s⟩

section Turns

variable {files : String → Except Failure String} {m : Machine}

theorem mem_tokens_of_phrase {control : Control} (now : m.control = control) {token : Token}
    (held : token ∈ control.tokens) : token ∈ m.tokens := by
  subst now
  exact List.mem_append_left _ held

theorem mem_tokens_of_task {task : Task} {rest : List Task} (waits : m.tasks = task :: rest)
    {token : Token} (held : token ∈ task.tokens) : token ∈ m.tokens := by
  refine List.mem_append_right _ (List.mem_flatMap.mpr ⟨task, ?_, held⟩)
  rw [waits]
  exact List.mem_cons_self

/-- A step that gives a value, or a return, to some of the tasks. -/
theorem Turns.giving {outcome : Outcome} (sound : (Control.give outcome).isFailing = false)
    {rest : List Task} (left : rest <:+ m.tasks) (s : State) :
    Turns files m (giving outcome rest s) := by
  have goes : Turns files m ⟨.give outcome, [] ++ rest, s⟩ := by
    exact .goes sound left (List.forall_mem_nil _) (List.nil_subset _)
  exact goes

/-- A step that goes on with a part of what is at hand. -/
theorem Turns.going {control : Control} (sound : control.isFailing = false)
    {rest : List Task} (left : rest <:+ m.tasks) (read : control.tokens ⊆ m.tokens) (s : State) :
    Turns files m ⟨control, rest, s⟩ := by
  have goes : Turns files m ⟨control, [] ++ rest, s⟩ := by
    refine .goes sound left (List.forall_mem_nil _) ?_
    rwa [List.flatMap_nil, List.append_nil]
  exact goes

/-- A step that goes on with a part of what is at hand, above a task that waits for it. -/
theorem Turns.pushing {control : Control} {task : Task}
    (sound : control.isFailing = false) {rest : List Task} (left : rest <:+ m.tasks)
    (lineless : task.keepsLine = false) (read : control.tokens ++ task.tokens ⊆ m.tokens)
    (s : State) : Turns files m ⟨control, task :: rest, s⟩ := by
  have goes : Turns files m ⟨control, [task] ++ rest, s⟩ := by
    refine .goes sound left (List.forall_mem_singleton.mpr lineless) ?_
    rwa [List.flatMap_singleton]
  exact goes

/-- A step from a phrase into a part of it. -/
theorem Turns.inside {control phrase : Control} (now : m.control = phrase)
    (sound : control.isFailing = false) (read : control.tokens ⊆ phrase.tokens) (s : State) :
    Turns files m ⟨control, m.tasks, s⟩ :=
  .going sound List.suffix_rfl (fun _ held => mem_tokens_of_phrase now (read held)) s

/-- A step from a phrase into a part of it, above a task that goes on with the rest. -/
theorem Turns.begins {control phrase : Control} {task : Task} (now : m.control = phrase)
    (sound : control.isFailing = false) (lineless : task.keepsLine = false)
    (read : control.tokens ++ task.tokens ⊆ phrase.tokens) (s : State) :
    Turns files m ⟨control, task :: m.tasks, s⟩ :=
  .pushing sound List.suffix_rfl lineless
    (fun _ held => mem_tokens_of_phrase now (read held)) s

/-- A step from the top task into a part of what it holds. -/
theorem Turns.into {control : Control} {task : Task} {rest : List Task}
    (waits : m.tasks = task :: rest) (sound : control.isFailing = false)
    (read : control.tokens ⊆ task.tokens) (s : State) : Turns files m ⟨control, rest, s⟩ := by
  refine .going sound ?_ (fun token held => mem_tokens_of_task waits (read held)) s
  rw [waits]
  exact List.suffix_cons _ _

/-- A step from the top task into a part of what it holds, after which it goes on with the rest. -/
theorem Turns.onward {control : Control} {task next : Task} {rest : List Task}
    (waits : m.tasks = task :: rest) (sound : control.isFailing = false)
    (lineless : next.keepsLine = false) (read : control.tokens ++ next.tokens ⊆ task.tokens)
    (s : State) : Turns files m ⟨control, next :: rest, s⟩ := by
  refine .pushing sound ?_ lineless (fun token held => mem_tokens_of_task waits (read held)) s
  rw [waits]
  exact List.suffix_cons _ _

/-! ## Calls -/

/-- A call is made for the top task, which keeps the closing parenthesis. -/
theorem exists_tasks_of_calling {calling : Calling} (calls : m.calling? = some calling) :
    ∃ task, m.tasks = task :: calling.rest ∧ task.endsCall = false ∧
      calling.paren ∈ task.tokens := by
  unfold calling? at calls
  split at calls
  · cases calls
    exact ⟨_, rfl, rfl, List.mem_singleton_self _⟩
  · cases calls
    exact ⟨_, rfl, rfl, List.mem_singleton_self _⟩
  · cases calls

theorem rest_suffix_of_calling {calling : Calling} (calls : m.calling? = some calling) :
    calling.rest <:+ m.tasks := by
  obtain ⟨task, waits, _⟩ := exists_tasks_of_calling calls
  rw [waits]
  exact List.suffix_cons _ _

/-- A native function that fails does so for one of its faults. -/
theorem turns_callNative {calling : Calling} (calls : m.calling? = some calling) {native : Native}
    (isNative : calling.callee = .native native)
    (accepted : refusal? calling.callee.arity? calling.args.length m.state.context.depth = none) :
    Turns files m (callNative native calling.args calling.paren.line calling.rest m.state) := by
  have left := rest_suffix_of_calling calls
  have called := callNative_calls native calling.args calling.paren.line calling.rest m.state
  generalize callNative native calling.args calling.paren.line calling.rest m.state = n at called ⊢
  cases called with
  | exits code => exact .going rfl left (List.nil_subset _) _
  | answers isPlain output => exact .giving rfl left _
  | fails isFault output => exact .breaks (.native calls isNative accepted isFault) left

theorem turns_calling {calling : Calling} (calls : m.calling? = some calling) :
    Turns files m (m.advance files) := by
  have left := rest_suffix_of_calling calls
  cases accepted : refusal? calling.callee.arity? calling.args.length m.state.context.depth with
  | some fault =>
      rw [advance_calling calls, call_eq, accepted]
      exact .breaks (.refused calls accepted) left
  | none =>
      cases called : calling.callee with
      | closure closure =>
          have begins := (Activates.closure calls called accepted).activation
          rw [advance_activation begins]
          exact .enters begins
      | cls cls =>
          cases found : cls.initializer? with
          | none =>
              rw [(advance_class calls called accepted found files).2]
              exact .giving rfl left _
          | some init =>
              have begins := (Activates.init calls called accepted found).activation
              rw [advance_activation begins]
              exact .enters begins
      | native native =>
          rw [advance_accepted calls accepted, called]
          exact turns_callNative calls called accepted
      | _ =>
          rw [called] at accepted
          cases accepted

/-! ## Phrases -/

theorem turns_read {reference : Reference} {tasks : List Task} {s : State}
    (unbound : s.valueOf? reference = none →
      Breaks files m (.rule reference.name (.undefinedVariable reference.name.lexeme)))
    (left : tasks <:+ m.tasks) : Turns files m (giving (s.read reference) tasks s) := by
  unfold State.read
  split
  · exact .giving rfl left _
  · next none => exact .breaks (unbound none) left

theorem turns_getSuper (keyword : Reference) (method : Token) (tasks : List Task) (s : State) :
    Turns files ⟨.eval (.super keyword method), tasks, s⟩ (getSuper keyword method tasks s) := by
  unfold getSuper
  split
  · next misplaced => exact .breaks (.superMisplaced rfl misplaced) List.suffix_rfl
  · next superclass receiver stands =>
      split
      · exact .giving rfl List.suffix_rfl _
      · next noMethod => exact .breaks (.undefinedSuper rfl stands noMethod) List.suffix_rfl

theorem turns_evaluate (expr : Expr) (tasks : List Task) (s : State) :
    Turns files ⟨.eval expr, tasks, s⟩ (evaluate expr tasks s) := by
  have left : tasks <:+ (⟨.eval expr, tasks, s⟩ : Machine).tasks := List.suffix_rfl
  cases expr with
  | literal value => exact .giving rfl left _
  | super keyword method => exact turns_getSuper keyword method tasks s
  | this keyword => exact turns_read (fun unbound => .unboundReceiver rfl unbound) left
  | var name => exact turns_read (fun unbound => .unboundVariable rfl unbound) left
  | grouping inner =>
      refine .inside rfl rfl ?_ s
      exact List.Subset.refl _
  | _ =>
      refine .begins rfl rfl rfl ?_ s
      grind [Control.tokens, Task.tokens, Expr.tokens]

/-- A class is declared below a class only. -/
theorem turns_classDecl (name : Token) (reference : Reference) (methods : List FunDecl)
    (tasks : List Task) (s : State) :
    Turns files ⟨.exec (.classDecl name (some reference) methods), tasks, s⟩
      (execute (.classDecl name (some reference) methods) tasks s) := by
  unfold execute State.read
  dsimp only
  cases bound : s.valueOf? reference with
  | none =>
      dsimp only
      exact .breaks (.unboundSuperclass rfl bound) List.suffix_rfl
  | some value =>
      cases value with
      | cls superclass => exact .giving rfl List.suffix_rfl _
      | _ =>
          dsimp only
          exact .breaks (.noClass rfl bound (by rintro _ ⟨⟩)) List.suffix_rfl

theorem turns_execute (stmt : Stmt) (tasks : List Task) (s : State) :
    Turns files ⟨.exec stmt, tasks, s⟩ (execute stmt tasks s) := by
  have left : tasks <:+ (⟨.exec stmt, tasks, s⟩ : Machine).tasks := List.suffix_rfl
  cases stmt with
  | block body =>
      refine @Turns.goes _ _ (.give .nil) [.body body, .leave s.context] tasks _ rfl left ?_ ?_
      · simp [Task.keepsLine]
      · simp [tokens, Control.tokens, Task.tokens, Stmt.tokens]
  | classDecl name superclass methods =>
      cases superclass with
      | none => exact .giving rfl left _
      | some reference => exact turns_classDecl name reference methods tasks s
  | expression expr =>
      refine .inside rfl rfl ?_ s
      exact List.Subset.refl _
  | funDecl decl => exact .giving rfl left _
  | ifElse condition thenBranch elseBranch =>
      refine .begins rfl rfl rfl ?_ s
      cases elseBranch <;> exact List.Subset.refl _
  | inclusion path =>
      refine .inside rfl rfl ?_ s
      exact List.Subset.refl _
  | print value => exact .prints rfl
  | ret keyword value =>
      cases value with
      | none => exact .giving rfl left _
      | some value =>
          refine .begins rfl rfl rfl ?_ s
          grind [Control.tokens, Task.tokens, Stmt.tokens, tokensOptional]
  | varDecl name init =>
      cases init with
      | none => exact .giving rfl left _
      | some init =>
          refine .begins rfl rfl rfl ?_ s
          grind [Control.tokens, Task.tokens, Stmt.tokens, tokensOptional]
  | whileLoop condition body =>
      refine .begins rfl rfl rfl ?_ s
      grind [Control.tokens, Task.tokens, Stmt.tokens]

/-! ## Carrying out tasks -/

/-- An operator fails at itself. -/
theorem operate_sound (operator : Token) (left right : Value) :
    (Control.give (Lox.operate operator left right)).isFailing = false ∨
      ∃ fault, Lox.operate operator left right = .failAt operator fault := by
  have numbers (compute : Float → Float → Value) :
      (Control.give (onNumbers operator compute left right)).isFailing = false ∨
        ∃ fault, onNumbers operator compute left right = .failAt operator fault := by
    unfold onNumbers
    split
    · exact .inl rfl
    · exact .inr ⟨_, rfl⟩
  unfold Lox.operate
  split
  case h_3 | h_4 | h_5 | h_6 | h_7 | h_8 | h_9 => exact numbers _
  case h_10 =>
    split
    · exact .inl rfl
    · exact .inl rfl
    · exact .inr ⟨_, rfl⟩
  case h_11 => exact .inr ⟨_, rfl⟩
  all_goals exact .inl rfl

theorem operateUnary_sound (operator : Token) (operand : Value) :
    (Control.give (Lox.operateUnary operator operand)).isFailing = false ∨
      ∃ fault, Lox.operateUnary operator operand = .failAt operator fault := by
  unfold Lox.operateUnary
  split
  · split
    · exact .inl rfl
    · exact .inr ⟨_, rfl⟩
  · exact .inl rfl
  · exact .inr ⟨_, rfl⟩

theorem turns_getProperty (object : Value) (name : Token) (tasks : List Task) (s : State) :
    Turns files ⟨.give (.value object), .get name :: tasks, s⟩
      (getProperty object name tasks s) := by
  have left : tasks <:+ (⟨.give (.value object), .get name :: tasks, s⟩ : Machine).tasks :=
    List.suffix_cons _ _
  unfold getProperty
  split
  · next receiver =>
      split
      · exact .giving rfl left _
      · next noField =>
          split
          · exact .giving rfl left _
          · next noMethod => exact .breaks (.undefinedProperty rfl rfl noField noMethod) left
  · next other => exact .breaks (.noProperties rfl rfl other) left

theorem turns_resume (value : Value) (task : Task) (tasks : List Task) (s : State) :
    Turns files ⟨.give (.value value), task :: tasks, s⟩ (resume value task tasks s) := by
  have left : tasks <:+ (⟨.give (.value value), task :: tasks, s⟩ : Machine).tasks :=
    List.suffix_cons _ _
  cases task with
  | assign target =>
      unfold resume
      dsimp only
      cases found : (s.assign target value).1 with
      | true => exact .giving rfl left _
      | false => exact .breaks (.unboundTarget rfl rfl found) left
  | rightOperand operator right =>
      refine .onward rfl rfl rfl ?_ s
      grind [Control.tokens, Task.tokens]
  | operate before operator =>
      rcases operate_sound operator before value with sound | ⟨fault, unfit⟩
      · exact .giving sound left s
      · unfold resume
        dsimp only
        rw [unfit]
        exact .breaks (.operands rfl rfl unfit) left
  | operateUnary operator =>
      rcases operateUnary_sound operator value with sound | ⟨fault, unfit⟩
      · exact .giving sound left s
      · unfold resume
        dsimp only
        rw [unfit]
        exact .breaks (.operand rfl rfl unfit) left
  | decide operator right =>
      unfold resume
      dsimp only
      split
      · exact .giving rfl left s
      · refine .into rfl rfl ?_ s
        grind [Control.tokens, Task.tokens]
  | firstArgument paren args =>
      cases args with
      | nil => exact turns_calling (m := ⟨_, _, s⟩) rfl
      | cons arg args =>
          refine .onward rfl rfl rfl ?_ s
          grind [Control.tokens, Task.tokens, tokensAll]
  | nextArgument callee before paren args =>
      cases args with
      | nil => exact turns_calling (m := ⟨_, _, s⟩) rfl
      | cons arg args =>
          refine .onward rfl rfl rfl ?_ s
          grind [Control.tokens, Task.tokens, tokensAll]
  | get name => exact turns_getProperty value name tasks s
  | storedValue name stored =>
      cases value with
      | inst inst =>
          refine .onward rfl rfl rfl ?_ s
          grind [Control.tokens, Task.tokens]
      | _ => exact .breaks (.noFields rfl rfl (by rintro _ ⟨⟩)) left
  | set inst name => exact .giving rfl left _
  | define name => exact .giving rfl left _
  | print line =>
      rw [resume_print]
      cases untaken : (s.writeLine value.text).1 with
      | none => exact .giving rfl left _
      | some detail => exact .refuses rfl rfl untaken
  | ret => exact .giving rfl left s
  | choose thenBranch elseBranch =>
      unfold resume
      dsimp only
      split
      · refine .into rfl rfl ?_ s
        cases elseBranch <;> grind [Control.tokens, Task.tokens]
      · split
        · refine .into rfl rfl ?_ s
          grind [Control.tokens, Task.tokens]
        · exact .giving rfl left s
  | loopBody condition body =>
      unfold resume
      dsimp only
      split
      · refine .onward rfl rfl rfl ?_ s
        grind [Control.tokens, Task.tokens]
      · exact .giving rfl left s
  | loopAgain condition body =>
      refine .onward rfl rfl rfl ?_ s
      grind [Control.tokens, Task.tokens]
  | body stmts =>
      cases stmts with
      | nil => exact .giving rfl left s
      | cons stmt stmts => exact .onward rfl rfl rfl (List.Subset.refl _) s
  | program stmts =>
      cases stmts with
      | nil => exact .giving rfl left s
      | cons stmt stmts => exact .onward rfl rfl rfl (List.Subset.refl _) s
  | leave context => exact .giving rfl left _
  | finishCall context line answer => exact .giving rfl left _
  | finishInclusion context => exact .giving rfl left _

theorem turns_unwind (value : Value) (task : Task) (tasks : List Task) (s : State) :
    Turns files ⟨.give (.returned value), task :: tasks, s⟩ (unwind value task tasks s) := by
  have left : tasks <:+ (⟨.give (.returned value), task :: tasks, s⟩ : Machine).tasks :=
    List.suffix_cons _ _
  cases task with
  | program stmts => exact .onward rfl rfl rfl (List.Subset.refl _) s
  | _ => exact .giving rfl left _

theorem turns_abandon (error : Error) (task : Task) (tasks : List Task) (s : State) :
    Turns files ⟨.give (.failed error), task :: tasks, s⟩ (abandon error task tasks s) := by
  have passes {t : State} :
      Turns files ⟨.give (.failed error), task :: tasks, s⟩
        ⟨.give (.failed (task.fills error)), tasks, t⟩ := .passes rfl rfl
  cases task with
  | _ => exact passes

theorem turns_provide (path : Token) (place : String) (tasks : List Task) (s : State) :
    Turns files ⟨.awaitFile path place, tasks, s⟩
      (provide (files place) path place tasks s) := by
  have left : tasks <:+ (⟨.awaitFile path place, tasks, s⟩ : Machine).tasks := List.suffix_rfl
  cases read : files place with
  | error failure => exact .breaks (.unreadable rfl read) left
  | ok source =>
      unfold provide
      dsimp only
      cases compiled : Program.compile s.nextReference source with
      | error errors => exact .breaks (.rejected rfl read compiled) left
      | ok program =>
          dsimp only
          split
          · next deep => exact .breaks (.tooDeep rfl read compiled deep) left
          · have loads : loads? files ⟨.awaitFile path place, tasks, s⟩ =
                some ⟨s.nextReference, program⟩ := by
              simp only [loads?, read, compiled]
            exact .includes loads

/-- Each step of a machine that has not ended is one of these. -/
theorem turns_advance (busy : ¬ m.Gives []) (files : String → Except Failure String) :
    Turns files m (m.advance files) := by
  obtain ⟨control, tasks, s⟩ := m
  cases control with
  | eval expr => exact turns_evaluate expr tasks s
  | exec stmt => exact turns_execute stmt tasks s
  | give outcome =>
      cases tasks with
      | nil => exact absurd ⟨outcome, rfl, rfl⟩ busy
      | cons task tasks =>
          cases outcome with
          | value value => exact turns_resume value task tasks s
          | returned value => exact turns_unwind value task tasks s
          | failed error => exact turns_abandon error task tasks s
  | awaitFile path place => exact turns_provide path place tasks s
  | exited code =>
      refine .going rfl List.suffix_rfl ?_ s
      exact List.subset_append_left _ _

/-! ## Breaking a rule fails -/

/-- The next step fails with an error, and leaves all calls as they are. -/
def Fails (files : String → Except Failure String) (m : Machine) (error : Error) : Prop :=
  ∃ above rest s, m.tasks = above ++ rest ∧ (∀ task ∈ above, task.endsCall = false) ∧
    m.advance files = ⟨.give (.failed error), rest, s⟩

theorem Fails.at_phrase {error : Error} {s : State}
    (next : m.advance files = ⟨.give (.failed error), m.tasks, s⟩) : m.Fails files error :=
  ⟨[], m.tasks, s, rfl, List.forall_mem_nil _, next⟩

theorem Fails.at_task {error : Error} {task : Task} {rest : List Task} {s : State}
    (waits : m.tasks = task :: rest) (inside : task.endsCall = false)
    (next : m.advance files = ⟨.give (.failed error), rest, s⟩) : m.Fails files error :=
  ⟨[task], rest, s, waits, List.forall_mem_singleton.mpr inside, next⟩

theorem Fails.at_calling {error : Error} {calling : Calling} (calls : m.calling? = some calling)
    {s : State} (next : m.advance files = ⟨.give (.failed error), calling.rest, s⟩) :
    m.Fails files error := by
  obtain ⟨task, waits, inside, _⟩ := exists_tasks_of_calling calls
  exact .at_task waits inside next

/-- Where a rule is broken the step fails, with the error that names the token of the rule. -/
theorem Breaks.fails {cause : Cause} (breaks : m.Breaks files cause) :
    m.Fails files cause.error := by
  obtain ⟨control, tasks, s⟩ := m
  rw [cause.error_eq]
  cases breaks with
  | @unboundVariable name now unbound =>
      cases now
      have next : advance files ⟨.eval (.var name), tasks, s⟩ = giving (s.read name) tasks s := rfl
      rw [State.read_of_unbound unbound] at next
      exact .at_phrase next
  | @unboundReceiver keyword now unbound =>
      cases now
      have next : advance files ⟨.eval (.this keyword), tasks, s⟩ =
          giving (s.read keyword) tasks s := rfl
      rw [State.read_of_unbound unbound] at next
      exact .at_phrase next
  | @unboundTarget target value rest given waits unbound =>
      cases given
      cases waits
      have unbound : (s.assign target value).1 = false := unbound
      refine .at_task rfl rfl (s := (s.assign target value).2) ?_
      simp only [advance, step, resume]
      rw [unbound]
      rfl
  | @operands left right operator rest fault given waits unfit =>
      cases given
      cases waits
      have next : advance files ⟨.give (.value right), .operate left operator :: rest, s⟩ =
          giving (Lox.operate operator left right) rest s := rfl
      rw [unfit] at next
      exact .at_task rfl rfl next
  | @operand value operator rest fault given waits unfit =>
      cases given
      cases waits
      have next : advance files ⟨.give (.value value), .operateUnary operator :: rest, s⟩ =
          giving (Lox.operateUnary operator value) rest s := rfl
      rw [unfit] at next
      exact .at_task rfl rfl next
  | refused calls refused =>
      have next := advance_calling calls files
      rw [call_eq, refused] at next
      exact .at_calling calls next
  | @noProperties value name rest given waits other =>
      cases given
      cases waits
      refine .at_task rfl rfl (s := s) ?_
      cases value with
      | inst receiver => exact absurd rfl (other receiver)
      | _ => rfl
  | @undefinedProperty receiver name rest given waits noField noMethod =>
      cases given
      cases waits
      have noField : s.store.field? receiver.object name.lexeme = none := noField
      refine .at_task rfl rfl (s := s) ?_
      simp only [advance, step, resume, getProperty, noField, noMethod]
      rfl
  | @noFields value name stored rest given waits other =>
      cases given
      cases waits
      refine .at_task rfl rfl (s := s) ?_
      cases value with
      | inst receiver => exact absurd rfl (other receiver)
      | _ => rfl
  | @superMisplaced keyword method now stands =>
      cases now
      have stands : s.superOf? keyword = none := stands
      refine .at_phrase (s := s) ?_
      simp only [advance, step, evaluate, getSuper, stands]
      rfl
  | @undefinedSuper keyword method superclass receiver now stands noMethod =>
      cases now
      have stands : s.superOf? keyword = some (superclass, receiver) := stands
      refine .at_phrase (s := s) ?_
      simp only [advance, step, evaluate, getSuper, stands, noMethod]
      rfl
  | @unboundSuperclass name reference methods now unbound =>
      cases now
      refine .at_phrase (s := s) ?_
      simp only [advance, step, execute, State.read_of_unbound unbound]
      rfl
  | @noClass name reference methods value now bound other =>
      cases now
      have read : s.read reference = .value value := by
        have bound : s.valueOf? reference = some value := bound
        unfold State.read
        rw [bound]
      refine .at_phrase (s := s) ?_
      simp only [advance, step, execute, read]
      cases value with
      | cls cls => exact absurd rfl (other cls)
      | _ => rfl
  | @unreadable path place failure now unread =>
      cases now
      refine .at_phrase (s := s) ?_
      simp only [advance, unread]
      rfl
  | @rejected path place source errors now read faulty =>
      cases now
      have faulty : Program.compile s.nextReference source = .error errors := faulty
      refine .at_phrase (s := s) ?_
      simp only [advance, read, provide, faulty]
      rfl
  | @tooDeep path place source program now read compiled deep =>
      cases now
      have compiled : Program.compile s.nextReference source = .ok program := compiled
      refine .at_phrase (s := s.load program) ?_
      simp only [advance, read, provide, compiled]
      exact if_pos deep
  | @native calling native fault calls isNative accepted isFault =>
      have next := advance_accepted calls accepted files
      rw [isNative] at next
      obtain ⟨t, fails⟩ := isFault.control_callNative calling.paren.line calling.rest
      exact .at_calling calls (next.trans fails)

/-! ## The tokens of rules are at hand -/

theorem paren_mem_tokens {calling : Calling} (calls : m.calling? = some calling) :
    calling.paren ∈ m.tokens := by
  obtain ⟨task, waits, _, held⟩ := exists_tasks_of_calling calls
  exact mem_tokens_of_task waits held

/-- What a rule names, and what a native function or an inclusion fails at, is at hand. -/
theorem Breaks.exists_token {cause : Cause} (breaks : m.Breaks files cause) :
    ∃ token ∈ m.tokens, cause.line = token.line := by
  cases breaks with
  | unboundVariable now => exact ⟨_, mem_tokens_of_phrase now List.mem_cons_self, rfl⟩
  | unboundReceiver now => exact ⟨_, mem_tokens_of_phrase now List.mem_cons_self, rfl⟩
  | unboundTarget _ waits => exact ⟨_, mem_tokens_of_task waits List.mem_cons_self, rfl⟩
  | operands _ waits => exact ⟨_, mem_tokens_of_task waits List.mem_cons_self, rfl⟩
  | operand _ waits => exact ⟨_, mem_tokens_of_task waits List.mem_cons_self, rfl⟩
  | refused calls => exact ⟨_, paren_mem_tokens calls, rfl⟩
  | noProperties _ waits => exact ⟨_, mem_tokens_of_task waits List.mem_cons_self, rfl⟩
  | undefinedProperty _ waits => exact ⟨_, mem_tokens_of_task waits List.mem_cons_self, rfl⟩
  | noFields _ waits => exact ⟨_, mem_tokens_of_task waits List.mem_cons_self, rfl⟩
  | superMisplaced now => exact ⟨_, mem_tokens_of_phrase now List.mem_cons_self, rfl⟩
  | undefinedSuper now =>
      exact ⟨_, mem_tokens_of_phrase now (List.mem_cons_of_mem _ List.mem_cons_self), rfl⟩
  | unboundSuperclass now =>
      exact ⟨_, mem_tokens_of_phrase now (List.mem_cons_of_mem _ List.mem_cons_self), rfl⟩
  | noClass now =>
      exact ⟨_, mem_tokens_of_phrase now (List.mem_cons_of_mem _ List.mem_cons_self), rfl⟩
  | unreadable now => exact ⟨_, mem_tokens_of_phrase now List.mem_cons_self, rfl⟩
  | rejected now => exact ⟨_, mem_tokens_of_phrase now List.mem_cons_self, rfl⟩
  | tooDeep now => exact ⟨_, mem_tokens_of_phrase now List.mem_cons_self, rfl⟩
  | native calls => exact ⟨_, paren_mem_tokens calls, rfl⟩

end Turns

end Machine

end Lox
