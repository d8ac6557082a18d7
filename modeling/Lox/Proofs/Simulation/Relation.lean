import Lox.Machine.Run
import Lox.Proofs.Simulation.World

/-!
# A machine and its respelling

Two machines run the same programs, up to the spelling of one name of one scope.  What they hold
corresponds: the phrases that are left to do, the values, and the bindings of each frame, read
through the spelling in the scope that the frame was made for.  Every phrase is tied to a spot
of analysis at which the environment that it will be executed in stands.
-/

namespace Lox

section Values

variable (r : Respelling) (w : World) (store : Store)

/-- A function and its respelling, in an environment that stands at their spot. -/
inductive FunRel (env : Env) : FunDecl → FunDecl → Prop where
  | intro {path : List Nat} {p : Spot} {decl : FunDecl} (stands : w.Stands store env p)
      (settled : p.Settled) (known : w.Knows (decl.walk path p)) :
      FunRel env decl (decl.respell r path p)

inductive ClosureRel : Closure → Closure → Prop where
  | intro {identity : Nat} {env : Env} {isInitializer : Bool} {decl decl' : FunDecl}
      (function : FunRel r w store env decl decl')
      (receiver : isInitializer = true →
        ∃ inst, store.valueIn? env.frame "this" = some (.inst inst)) :
      ClosureRel ⟨identity, decl, env, isInitializer⟩ ⟨identity, decl', env, isInitializer⟩

/-- Methods see one more frame once they are bound, which holds their receiver. -/
inductive MethodRel : Method → Method → Prop where
  | intro {env : Env} {path : List Nat} {index : Nat} {p : Spot} {decl : FunDecl}
      (stands : w.Stands store env p) (settled : p.Settled)
      (known : w.Knows (decl.walk (index :: path) (p.forReceiver path decl))) :
      MethodRel ⟨decl, env⟩ ⟨decl.respell r (index :: path) (p.forReceiver path decl), env⟩

/-- Two tables have corresponding methods under each name. -/
def TableRel (methods methods' : Bindings Method) : Prop :=
  ∀ name, Option.Rel (MethodRel r w store) (methods.find? name) (methods'.find? name)

inductive ClassRel : Class → Class → Prop where
  | root {identity : Nat} {name : String} {methods methods' : Bindings Method}
      (table : TableRel r w store methods methods') :
      ClassRel (.mk identity name none methods) (.mk identity name none methods')
  | derived {identity : Nat} {name : String} {parent parent' : Class}
      {methods methods' : Bindings Method} (inherited : ClassRel parent parent')
      (table : TableRel r w store methods methods') :
      ClassRel (.mk identity name (some parent) methods) (.mk identity name (some parent') methods')

inductive InstanceRel : Instance → Instance → Prop where
  | intro {object : Nat} {cls cls' : Class} (ofClass : ClassRel r w store cls cls') :
      InstanceRel ⟨object, cls⟩ ⟨object, cls'⟩

inductive ValueRel : Value → Value → Prop where
  | nil : ValueRel .nil .nil
  | bool (b : Bool) : ValueRel (.bool b) (.bool b)
  | number (x : Float) : ValueRel (.number x) (.number x)
  | string (s : String) : ValueRel (.string s) (.string s)
  | native (native : Native) : ValueRel (.native native) (.native native)
  | closure {closure closure' : Closure} (related : ClosureRel r w store closure closure') :
      ValueRel (.closure closure) (.closure closure')
  | cls {cls cls' : Class} (related : ClassRel r w store cls cls') :
      ValueRel (.cls cls) (.cls cls')
  | inst {inst inst' : Instance} (related : InstanceRel r w store inst inst') :
      ValueRel (.inst inst) (.inst inst')

/-- Errors differ at most in how a name that is no class is spelled. -/
inductive ErrorRel : Error → Error → Prop where
  | same (error : Error) : ErrorRel error error
  | superclass (line : Nat) :
      ErrorRel (.runtime line (.superclassNotClass r.old))
        (.runtime line (.superclassNotClass r.new))

inductive AnswerRel : Answer → Answer → Prop where
  | result : AnswerRel .result .result
  | receiver {env : Env} {inst : Instance} {sites : List Site} (opens : w.Opens env.chain sites)
      (bound : store.valueIn? env.frame "this" = some (.inst inst)) :
      AnswerRel (.receiver env) (.receiver env)
  | made {inst inst' : Instance} (related : InstanceRel r w store inst inst') :
      AnswerRel (.made inst) (.made inst')

end Values

/-! ## Phrases that are left to do -/

/-- The spot after a task that is carried out in the frame at hand. -/
def Task.spotAfter (p : Spot) : Task → Spot
  | .define name => p.define name.lexeme
  | .body stmts => p.afterBody stmts
  | .program stmts => p.afterBody stmts
  | _ => p

section Tasks

variable (r : Respelling) (w : World) (store : Store)

/-- Tasks that are carried out in the frame at hand, at a spot. -/
inductive TaskRel (p : Spot) : Task → Task → Prop where
  | assign {target : Reference} (known : w.known ⟨p, .assign target⟩) :
      TaskRel p (.assign target) (.assign (r.referred p target))
  | rightOperand {operator : Token} {right : Expr} (known : w.Knows (right.walk p)) :
      TaskRel p (.rightOperand operator right) (.rightOperand operator (right.respell r p))
  | operate {left left' : Value} {operator : Token} (related : ValueRel r w store left left') :
      TaskRel p (.operate left operator) (.operate left' operator)
  | operateUnary {operator : Token} : TaskRel p (.operateUnary operator) (.operateUnary operator)
  | decide {operator : Token} {right : Expr} (known : w.Knows (right.walk p)) :
      TaskRel p (.decide operator right) (.decide operator (right.respell r p))
  | firstArgument {paren : Token} {args : List Expr} (known : w.Knows (walkAll p args)) :
      TaskRel p (.firstArgument paren args) (.firstArgument paren (respellAll r p args))
  | nextArgument {callee callee' : Value} {before before' : List Value} {paren : Token}
      {args : List Expr} (related : ValueRel r w store callee callee')
      (each : List.Forall₂ (ValueRel r w store) before before')
      (known : w.Knows (walkAll p args)) :
      TaskRel p (.nextArgument callee before paren args)
        (.nextArgument callee' before' paren (respellAll r p args))
  | get {name : Token} : TaskRel p (.get name) (.get name)
  | storedValue {name : Token} {value : Expr} (known : w.Knows (value.walk p)) :
      TaskRel p (.storedValue name value) (.storedValue name (value.respell r p))
  | set {inst inst' : Instance} {name : Token} (related : InstanceRel r w store inst inst') :
      TaskRel p (.set inst name) (.set inst' name)
  | define {name : Token} {declared : Spot} (same : declared.sites = p.sites)
      (known : w.known ⟨declared, .declare name⟩) :
      TaskRel p (.define name) (.define (r.declared p name))
  | print {line : Nat} : TaskRel p (.print line) (.print line)
  | ret (inside : p.around.inFunction = true) : TaskRel p .ret .ret
  | choose {path : List Nat} {thenBranch : Stmt} (settled : p.Settled)
      (alone : thenBranch.declares = []) (known : w.Knows (thenBranch.walk path p)) :
      TaskRel p (.choose thenBranch none) (.choose (thenBranch.respell r path p) none)
  | chooseElse {path path' : List Nat} {thenBranch elseBranch : Stmt} (settled : p.Settled)
      (alone : thenBranch.declares = []) (known : w.Knows (thenBranch.walk path p))
      (alone' : elseBranch.declares = []) (known' : w.Knows (elseBranch.walk path' p)) :
      TaskRel p (.choose thenBranch (some elseBranch))
        (.choose (thenBranch.respell r path p) (some (elseBranch.respell r path' p)))
  | loopBody {path : List Nat} {condition : Expr} {body : Stmt} (settled : p.Settled)
      (tested : w.Knows (condition.walk p)) (alone : body.declares = [])
      (known : w.Knows (body.walk path p)) :
      TaskRel p (.loopBody condition body)
        (.loopBody (condition.respell r p) (body.respell r path p))
  | loopAgain {path : List Nat} {condition : Expr} {body : Stmt} (settled : p.Settled)
      (tested : w.Knows (condition.walk p)) (alone : body.declares = [])
      (known : w.Knows (body.walk path p)) :
      TaskRel p (.loopAgain condition body)
        (.loopAgain (condition.respell r p) (body.respell r path p))
  | body {path : List Nat} {index : Nat} {stmts : List Stmt} (settled : p.Settled)
      (known : w.Knows (walkBody path p index stmts)) :
      TaskRel p (.body stmts) (.body (respellBody r path p index stmts))
  | program {path : List Nat} {index : Nat} {stmts : List Stmt} (settled : p.Settled)
      (outside : p.around.inFunction = false) (known : w.Knows (walkBody path p index stmts)) :
      TaskRel p (.program stmts) (.program (respellBody r path p index stmts))

/--
Stacks of tasks, the first of which is carried out at a spot.  A `return` is only ever executed
where a call is to be finished: inclusions and whole programs are outside of functions.
-/
inductive StackRel : Spot → List Task → List Task → Prop where
  | nil {p : Spot} (outermost : p.sites = []) (outside : p.around.inFunction = false) :
      StackRel p [] []
  | task {p : Spot} {task task' : Task} {tasks tasks' : List Task}
      (first : TaskRel r w store p task task') (rest : StackRel (task.spotAfter p) tasks tasks') :
      StackRel p (task :: tasks) (task' :: tasks')
  | leave {p q : Spot} {saved : Context} {tasks tasks' : List Task}
      (same : q.around.inFunction = p.around.inFunction) (stands : w.Stands store saved.env q)
      (rest : StackRel q tasks tasks') :
      StackRel p (.leave saved :: tasks) (.leave saved :: tasks')
  | finishCall {p q : Spot} {saved : Context} {line : Nat} {answer answer' : Answer}
      {tasks tasks' : List Task} (answers : AnswerRel r w store answer answer')
      (stands : w.Stands store saved.env q) (rest : StackRel q tasks tasks') :
      StackRel p (.finishCall saved line answer :: tasks) (.finishCall saved line answer' :: tasks')
  | finishInclusion {p q : Spot} {saved : Context} {tasks tasks' : List Task}
      (outside : p.around.inFunction = false) (stands : w.Stands store saved.env q)
      (rest : StackRel q tasks tasks') :
      StackRel p (.finishInclusion saved :: tasks) (.finishInclusion saved :: tasks')

/--
What is being done at a spot, and the spot at which its outcome is waited for.  Of a `return` or
an error that is passed on only the place counts: names that it skipped need not be bound.
-/
inductive ControlRel (env : Env) (p : Spot) : Control → Control → Spot → Prop where
  | eval {expr : Expr} (holds : World.Holds store env p) (known : w.Knows (expr.walk p)) :
      ControlRel env p (.eval expr) (.eval (expr.respell r p)) p
  | exec {path : List Nat} {stmt : Stmt} (holds : World.Holds store env p) (settled : p.Settled)
      (known : w.Knows (stmt.walk path p)) :
      ControlRel env p (.exec stmt) (.exec (stmt.respell r path p)) (p.after stmt)
  | value {value value' : Value} (holds : World.Holds store env p)
      (related : ValueRel r w store value value') :
      ControlRel env p (.give (.value value)) (.give (.value value')) p
  | returned {value value' : Value} (inside : p.around.inFunction = true)
      (related : ValueRel r w store value value') :
      ControlRel env p (.give (.returned value)) (.give (.returned value')) p
  | failed {error error' : Error} (related : ErrorRel r error error') :
      ControlRel env p (.give (.failed error)) (.give (.failed error')) p
  | awaitFile {path : Token} {place : String} (holds : World.Holds store env p) :
      ControlRel env p (.awaitFile path place) (.awaitFile path place) p
  | exited (code : UInt8) : ControlRel env p (.exited code) (.exited code) p

end Tasks

/-! ## States -/

structure StoreRel (r : Respelling) (w : World) (store store' : Store) : Prop where
  made : store.frames.size = w.sites.length
  made' : store'.frames.size = w.sites.length
  objects : store'.objects.size = store.objects.size
  identities : store'.nextIdentity = store.nextIdentity
  globals : w.sites[0]? = some globalsSite
  bindings : ∀ (frame : Nat) (site : Site), w.sites[frame]? = some site →
    Bindings.Respelled (ValueRel r w store) r site (store.bindings frame) (store'.bindings frame)
  fields : ∀ (object : Nat) (name : String),
    Option.Rel (ValueRel r w store) (store.field? object name) (store'.field? object name)

structure StateRel (r : Respelling) (w : World) (s s' : State) : Prop where
  store : StoreRel r w s.store s'.store
  context : s'.context = s.context
  hops : s'.hops = s.hops
  nextReference : s'.nextReference = s.nextReference
  output : s'.output = s.output
  now : s'.now = s.now
  located : s.Located w.known
  fit : ∀ event, w.known event → event.Fit r
  used : w.used ≤ s.nextReference

inductive MachineRel (r : Respelling) (w : World) : Machine → Machine → Prop where
  | intro {p q : Spot} {control control' : Control} {tasks tasks' : List Task} {s s' : State}
      (opens : w.Opens s.context.env.chain p.sites)
      (doing : ControlRel r w s.store s.context.env p control control' q)
      (left : StackRel r w s.store q tasks tasks') (states : StateRel r w s s') :
      MachineRel r w ⟨control, tasks, s⟩ ⟨control', tasks', s'⟩

/-! ## Later worlds -/

section Later

variable {r : Respelling} {w w' : World} {store store' : Store}

open World

theorem FunRel.mono {env : Env} {decl decl' : FunDecl} (related : FunRel r w store env decl decl')
    (grows : Grows w store w' store') : FunRel r w' store' env decl decl' := by
  cases related with
  | intro stands settled known => exact .intro (stands.mono grows) settled (grows.knows known)

theorem ClosureRel.mono {closure closure' : Closure}
    (related : ClosureRel r w store closure closure') (grows : Grows w store w' store') :
    ClosureRel r w' store' closure closure' := by
  cases related with
  | intro function receiver =>
      refine .intro (function.mono grows) fun isInitializer => ?_
      obtain ⟨inst, bound⟩ := receiver isInitializer
      exact ⟨inst, grows.receiver _ _ bound⟩

theorem MethodRel.mono {method method' : Method} (related : MethodRel r w store method method')
    (grows : Grows w store w' store') : MethodRel r w' store' method method' := by
  cases related with
  | intro stands settled known => exact .intro (stands.mono grows) settled (grows.knows known)

/-- What corresponds still does if more is related. -/
theorem optionRel_mono {α β : Type} {R S : α → β → Prop} (weaker : ∀ x y, R x y → S x y)
    {x : Option α} {y : Option β} (related : Option.Rel R x y) : Option.Rel S x y := by
  cases related with
  | some related => exact .some (weaker _ _ related)
  | none => exact .none

theorem TableRel.mono {methods methods' : Bindings Method}
    (related : TableRel r w store methods methods') (grows : Grows w store w' store') :
    TableRel r w' store' methods methods' :=
  fun name => optionRel_mono (fun _ _ method => method.mono grows) (related name)

theorem ClassRel.mono {cls cls' : Class} (related : ClassRel r w store cls cls')
    (grows : Grows w store w' store') : ClassRel r w' store' cls cls' := by
  induction related with
  | root table => exact .root (table.mono grows)
  | derived _ table ih => exact .derived ih (table.mono grows)

theorem InstanceRel.mono {inst inst' : Instance} (related : InstanceRel r w store inst inst')
    (grows : Grows w store w' store') : InstanceRel r w' store' inst inst' := by
  cases related with
  | intro ofClass => exact .intro (ofClass.mono grows)

theorem ValueRel.mono {value value' : Value} (related : ValueRel r w store value value')
    (grows : Grows w store w' store') : ValueRel r w' store' value value' := by
  cases related with
  | nil => exact .nil
  | bool b => exact .bool b
  | number x => exact .number x
  | string s => exact .string s
  | native native => exact .native native
  | closure related => exact .closure (related.mono grows)
  | cls related => exact .cls (related.mono grows)
  | inst related => exact .inst (related.mono grows)

theorem AnswerRel.mono {answer answer' : Answer} (related : AnswerRel r w store answer answer')
    (grows : Grows w store w' store') : AnswerRel r w' store' answer answer' := by
  cases related with
  | result => exact .result
  | receiver opens bound => exact .receiver (opens.mono grows) (grows.receiver _ _ bound)
  | made related => exact .made (related.mono grows)

theorem TaskRel.mono {p : Spot} {task task' : Task} (related : TaskRel r w store p task task')
    (grows : Grows w store w' store') : TaskRel r w' store' p task task' := by
  cases related with
  | assign known => exact .assign (grows.known _ known)
  | rightOperand known => exact .rightOperand (grows.knows known)
  | operate related => exact .operate (related.mono grows)
  | operateUnary => exact .operateUnary
  | decide known => exact .decide (grows.knows known)
  | firstArgument known => exact .firstArgument (grows.knows known)
  | nextArgument related each known =>
      exact .nextArgument (related.mono grows) (each.imp fun _ _ value => value.mono grows)
        (grows.knows known)
  | get => exact .get
  | storedValue known => exact .storedValue (grows.knows known)
  | set related => exact .set (related.mono grows)
  | define same known => exact .define same (grows.known _ known)
  | print => exact .print
  | ret inside => exact .ret inside
  | choose settled alone known => exact .choose settled alone (grows.knows known)
  | chooseElse settled alone known alone' known' =>
      exact .chooseElse settled alone (grows.knows known) alone' (grows.knows known')
  | loopBody settled tested alone known =>
      exact .loopBody settled (grows.knows tested) alone (grows.knows known)
  | loopAgain settled tested alone known =>
      exact .loopAgain settled (grows.knows tested) alone (grows.knows known)
  | body settled known => exact .body settled (grows.knows known)
  | program settled outside known => exact .program settled outside (grows.knows known)

theorem StackRel.mono {p : Spot} {tasks tasks' : List Task}
    (related : StackRel r w store p tasks tasks') (grows : Grows w store w' store') :
    StackRel r w' store' p tasks tasks' := by
  induction related with
  | nil outermost outside => exact .nil outermost outside
  | task first _ ih => exact .task (first.mono grows) ih
  | leave same stands _ ih => exact .leave same (stands.mono grows) ih
  | finishCall answers stands _ ih => exact .finishCall (answers.mono grows) (stands.mono grows) ih
  | finishInclusion outside stands _ ih => exact .finishInclusion outside (stands.mono grows) ih

end Later

end Lox
