import Lox.Machine.Run
import Lox.Proofs.Matching.Programs
import Lox.Proofs.Stack

/-!
# Matching machines

Two machines match above two stacks of tasks if they do counterparts of the same, and the tasks
above those stacks are counterparts of each other.  What is below them may be anything.
-/

namespace Lox

@[simp] theorem Token.move_pathText (m : Move) (token : Token) :
    (token.move m).pathText = token.pathText := rfl

section Relations

variable (σ : Leeway) (w : Pairing)

inductive AnswerMatch : Answer → Answer → Prop where
  | result : AnswerMatch .result .result
  | receiver {env env' : Env} (envs : EnvMatch w env env') :
      AnswerMatch (.receiver env) (.receiver env')
  | made {inst inst' : Instance} (related : InstanceMatch σ w inst inst') :
      AnswerMatch (.made inst) (.made inst')

inductive TaskMatch : Task → Task → Prop where
  | assign (t : Twin σ) (target : Reference)
      (paired : w.references (target.id + t.left.offset) (target.id + t.right.offset)) :
      TaskMatch (.assign (target.move t.left)) (.assign (target.move t.right))
  | rightOperand (t : Twin σ) (operator : Token) (right : Expr) (covers : w.Covers t right.acts) :
      TaskMatch (.rightOperand (operator.move t.left) (right.move t.left))
        (.rightOperand (operator.move t.right) (right.move t.right))
  | operate (t : Twin σ) (operator : Token) {left left' : Value}
      (related : ValueMatch σ w left left') :
      TaskMatch (.operate left (operator.move t.left)) (.operate left' (operator.move t.right))
  | operateUnary (t : Twin σ) (operator : Token) :
      TaskMatch (.operateUnary (operator.move t.left)) (.operateUnary (operator.move t.right))
  | decide (t : Twin σ) (operator : Token) (right : Expr) (covers : w.Covers t right.acts) :
      TaskMatch (.decide (operator.move t.left) (right.move t.left))
        (.decide (operator.move t.right) (right.move t.right))
  | firstArgument (t : Twin σ) (paren : Token) (args : List Expr)
      (covers : w.Covers t (actsAll args)) :
      TaskMatch (.firstArgument (paren.move t.left) (moveAll t.left args))
        (.firstArgument (paren.move t.right) (moveAll t.right args))
  | nextArgument (t : Twin σ) (paren : Token) (args : List Expr)
      (covers : w.Covers t (actsAll args)) {callee callee' : Value} {before before' : List Value}
      (related : ValueMatch σ w callee callee')
      (each : List.Forall₂ (ValueMatch σ w) before before') :
      TaskMatch (.nextArgument callee before (paren.move t.left) (moveAll t.left args))
        (.nextArgument callee' before' (paren.move t.right) (moveAll t.right args))
  | get (t : Twin σ) (name : Token) :
      TaskMatch (.get (name.move t.left)) (.get (name.move t.right))
  | storedValue (t : Twin σ) (name : Token) (value : Expr) (covers : w.Covers t value.acts) :
      TaskMatch (.storedValue (name.move t.left) (value.move t.left))
        (.storedValue (name.move t.right) (value.move t.right))
  | set (t : Twin σ) (name : Token) {inst inst' : Instance}
      (related : InstanceMatch σ w inst inst') :
      TaskMatch (.set inst (name.move t.left)) (.set inst' (name.move t.right))
  | define (t : Twin σ) (name : Token) :
      TaskMatch (.define (name.move t.left)) (.define (name.move t.right))
  | print {line line' : Nat} (lines : σ.lines line line') : TaskMatch (.print line) (.print line')
  | ret : TaskMatch .ret .ret
  | choose (t : Twin σ) (thenBranch : Stmt) (elseBranch : Option Stmt)
      (covers : w.Covers t thenBranch.acts)
      (coversElse : ∀ stmt, elseBranch = some stmt → w.Covers t stmt.acts) :
      TaskMatch (.choose (thenBranch.move t.left) (elseBranch.map (Stmt.move t.left)))
        (.choose (thenBranch.move t.right) (elseBranch.map (Stmt.move t.right)))
  | loopBody (t : Twin σ) (condition : Expr) (body : Stmt) (tested : w.Covers t condition.acts)
      (covers : w.Covers t body.acts) :
      TaskMatch (.loopBody (condition.move t.left) (body.move t.left))
        (.loopBody (condition.move t.right) (body.move t.right))
  | loopAgain (t : Twin σ) (condition : Expr) (body : Stmt) (tested : w.Covers t condition.acts)
      (covers : w.Covers t body.acts) :
      TaskMatch (.loopAgain (condition.move t.left) (body.move t.left))
        (.loopAgain (condition.move t.right) (body.move t.right))
  | body (t : Twin σ) (stmts : List Stmt) (covers : w.Covers t (actsBody stmts)) :
      TaskMatch (.body (moveBody t.left stmts)) (.body (moveBody t.right stmts))
  | program (t : Twin σ) (stmts : List Stmt) (covers : w.Covers t (actsBody stmts)) :
      TaskMatch (.program (moveBody t.left stmts)) (.program (moveBody t.right stmts))
  | leave {context context' : Context} (contexts : ContextMatch σ w context context') :
      TaskMatch (.leave context) (.leave context')
  | finishCall {context context' : Context} {line line' : Nat} {answer answer' : Answer}
      (contexts : ContextMatch σ w context context') (lines : σ.lines line line')
      (answers : AnswerMatch σ w answer answer') :
      TaskMatch (.finishCall context line answer) (.finishCall context' line' answer')
  | finishInclusion {context context' : Context} (contexts : ContextMatch σ w context context') :
      TaskMatch (.finishInclusion context) (.finishInclusion context')

/-- A file is awaited at the place that its path names from the directory at hand. -/
inductive ControlMatch (context context' : Context) : Control → Control → Prop where
  | eval (t : Twin σ) (expr : Expr) (covers : w.Covers t expr.acts) :
      ControlMatch context context' (.eval (expr.move t.left)) (.eval (expr.move t.right))
  | exec (t : Twin σ) (stmt : Stmt) (covers : w.Covers t stmt.acts) :
      ControlMatch context context' (.exec (stmt.move t.left)) (.exec (stmt.move t.right))
  | give {outcome outcome' : Outcome} (related : OutcomeMatch σ w outcome outcome') :
      ControlMatch context context' (.give outcome) (.give outcome')
  | awaitFile (t : Twin σ) (path : Token) :
      ControlMatch context context'
        (.awaitFile (path.move t.left) (Path.join context.base path.pathText))
        (.awaitFile (path.move t.right) (Path.join context'.base path.pathText))
  | exited (code : UInt8) : ControlMatch context context' (.exited code) (.exited code)

inductive StackMatch (below below' : List Task) : List Task → List Task → Prop where
  | bottom : StackMatch below below' below below'
  | task {task task' : Task} {tasks tasks' : List Task} (first : TaskMatch σ w task task')
      (others : StackMatch below below' tasks tasks') :
      StackMatch below below' (task :: tasks) (task' :: tasks')

inductive MachineMatch (below below' : List Task) : Machine → Machine → Prop where
  | intro {control control' : Control} {tasks tasks' : List Task} {s s' : State}
      (doing : ControlMatch σ w s.context s'.context control control')
      (left : StackMatch σ w below below' tasks tasks') (states : StateMatch σ w s s') :
      MachineMatch below below' ⟨control, tasks, s⟩ ⟨control', tasks', s'⟩

end Relations

theorem MachineMatch.states {σ : Leeway} {w : Pairing} {below below' : List Task} {m m' : Machine}
    (related : MachineMatch σ w below below' m m') : StateMatch σ w m.state m'.state := by
  obtain ⟨_, _, states⟩ := related
  exact states

section Later

variable {σ : Leeway} {w w' : Pairing}

theorem AnswerMatch.mono {answer answer' : Answer} (related : AnswerMatch σ w answer answer')
    (within : w.Within w') : AnswerMatch σ w' answer answer' := by
  cases related with
  | result => exact .result
  | receiver envs => exact .receiver (envs.mono within)
  | made related => exact .made (related.mono within)

theorem TaskMatch.mono {task task' : Task} (related : TaskMatch σ w task task')
    (within : w.Within w') : TaskMatch σ w' task task' := by
  cases related with
  | assign t target paired => exact .assign t target (within.references paired)
  | rightOperand t operator right covers => exact .rightOperand t operator right (covers.mono within)
  | operate t operator related => exact .operate t operator (related.mono within)
  | operateUnary t operator => exact .operateUnary t operator
  | decide t operator right covers => exact .decide t operator right (covers.mono within)
  | firstArgument t paren args covers => exact .firstArgument t paren args (covers.mono within)
  | nextArgument t paren args covers related each =>
      exact .nextArgument t paren args (covers.mono within) (related.mono within)
        (each.imp fun _ _ value => value.mono within)
  | get t name => exact .get t name
  | storedValue t name value covers => exact .storedValue t name value (covers.mono within)
  | set t name related => exact .set t name (related.mono within)
  | define t name => exact .define t name
  | print lines => exact .print lines
  | ret => exact .ret
  | choose t thenBranch elseBranch covers coversElse =>
      exact .choose t thenBranch elseBranch (covers.mono within)
        fun stmt isElse => (coversElse stmt isElse).mono within
  | loopBody t condition body tested covers =>
      exact .loopBody t condition body (tested.mono within) (covers.mono within)
  | loopAgain t condition body tested covers =>
      exact .loopAgain t condition body (tested.mono within) (covers.mono within)
  | body t stmts covers => exact .body t stmts (covers.mono within)
  | program t stmts covers => exact .program t stmts (covers.mono within)
  | leave contexts => exact .leave (contexts.mono within)
  | finishCall contexts lines answers =>
      exact .finishCall (contexts.mono within) lines (answers.mono within)
  | finishInclusion contexts => exact .finishInclusion (contexts.mono within)

theorem StackMatch.mono {below below' tasks tasks' : List Task}
    (related : StackMatch σ w below below' tasks tasks') (within : w.Within w') :
    StackMatch σ w' below below' tasks tasks' := by
  induction related with
  | bottom => exact .bottom
  | task first _ ih => exact .task (first.mono within) ih

end Later

/-! ## What steps come to -/

/-- A call or an inclusion was refused because too many are active. -/
def Machine.Overflows (m : Machine) : Prop :=
  ∃ token, m.control = .give (.failAt token .stackOverflow)

/-- Machines that match after a step from some states. -/
def Continues (σ : Leeway) (w : Pairing) (below below' : List Task) (s s' : State)
    (n n' : Machine) : Prop :=
  ∃ w' : Pairing, StateGrows w s s' w' n.state n'.state ∧ MachineMatch σ w' below below' n n'

/-- What a step may come to: the machine on more levels may find that there are too many. -/
def MayContinue (σ : Leeway) (w : Pairing) (below below' : List Task) (s s' : State)
    (n n' : Machine) : Prop :=
  Continues σ w below below' s s' n n' ∨ (0 < σ.deeper ∧ n.Overflows)

/-- What is left to do is matched, and so are the states. -/
structure Abreast (σ : Leeway) (w : Pairing) (below below' tasks tasks' : List Task)
    (s s' : State) : Prop where
  left : StackMatch σ w below below' tasks tasks'
  states : StateMatch σ w s s'

section Steps

variable {σ : Leeway} {w w' : Pairing} {below below' tasks tasks' : List Task} {s s' t t' : State}

namespace Abreast

theorem gives (abreast : Abreast σ w below below' tasks tasks' s s') {outcome outcome' : Outcome}
    (related : OutcomeMatch σ w outcome outcome') :
    MachineMatch σ w below below' (.giving outcome tasks s) (.giving outcome' tasks' s') :=
  .intro (.give related) abreast.left abreast.states

theorem givesValue (abreast : Abreast σ w below below' tasks tasks' s s') {value value' : Value}
    (related : ValueMatch σ w value value') :
    MachineMatch σ w below below' (.giving (.value value) tasks s)
      (.giving (.value value') tasks' s') :=
  abreast.gives (.value related)

theorem failAt (abreast : Abreast σ w below below' tasks tasks' s s') (t : Twin σ) (token : Token)
    (fault : RuntimeFault) :
    MachineMatch σ w below below' (.giving (.failAt (token.move t.left) fault) tasks s)
      (.giving (.failAt (token.move t.right) fault) tasks' s') :=
  abreast.gives (.failAt t token fault)

theorem eval (abreast : Abreast σ w below below' tasks tasks' s s') (t : Twin σ) {expr : Expr}
    (covers : w.Covers t expr.acts) :
    MachineMatch σ w below below' ⟨.eval (expr.move t.left), tasks, s⟩
      ⟨.eval (expr.move t.right), tasks', s'⟩ :=
  .intro (.eval t expr covers) abreast.left abreast.states

theorem exec (abreast : Abreast σ w below below' tasks tasks' s s') (t : Twin σ) {stmt : Stmt}
    (covers : w.Covers t stmt.acts) :
    MachineMatch σ w below below' ⟨.exec (stmt.move t.left), tasks, s⟩
      ⟨.exec (stmt.move t.right), tasks', s'⟩ :=
  .intro (.exec t stmt covers) abreast.left abreast.states

theorem push (abreast : Abreast σ w below below' tasks tasks' s s') {task task' : Task}
    (first : TaskMatch σ w task task') :
    Abreast σ w below below' (task :: tasks) (task' :: tasks') s s' :=
  ⟨.task first abreast.left, abreast.states⟩

/-- Matching states that came later. -/
theorem later (abreast : Abreast σ w below below' tasks tasks' s s') (within : w.Within w')
    (states : StateMatch σ w' t t') : Abreast σ w' below below' tasks tasks' t t' :=
  ⟨abreast.left.mono within, states⟩

end Abreast

namespace Continues

variable {n n' : Machine}

/-- A step after which nothing more is paired. -/
theorem still (related : MachineMatch σ w below below' n n')
    (grows : StateGrows w s s' w n.state n'.state) : Continues σ w below below' s s' n n' :=
  ⟨w, grows, related⟩

/-- States match later, and then the machines do. -/
theorem after (grows : StateGrows w s s' w' t t') (continues : Continues σ w' below below' t t' n n') :
    Continues σ w below below' s s' n n' := by
  obtain ⟨w'', later, related⟩ := continues
  exact ⟨w'', grows.trans later, related⟩

theorem mayContinue (continues : Continues σ w below below' s s' n n') :
    MayContinue σ w below below' s s' n n' := .inl continues

end Continues

end Steps

end Lox
