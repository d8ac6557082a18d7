import Lox.Proofs.Code
import Lox.Proofs.Writes

/-!
# What a step makes

A step hands on the values that are at hand, and makes a few others: plain ones, the closure of a
function that is declared or of a method that is bound, a class that is declared, and the instance
that the call of a class makes.  The environments after it are those at hand, or have new frames in
front; and the code after it consists of parts of the code before, or of a program that is loaded.
-/

namespace Lox

/-- Values that have no identity of their own, or are there from the start. -/
def Value.isPlain : Value → Bool
  | .closure _ => false
  | .cls _ => false
  | .inst _ => false
  | _ => true

theorem Value.isPlain_ofLiteral (literal : Literal) : (ofLiteral literal).isPlain = true := by
  cases literal <;> rfl

namespace Machine

/-- The values that the next step may make. -/
inductive Makes (m : Machine) : Value → Prop where
  | plain {value : Value} (isPlain : value.isPlain = true) : Makes m value
  | function {decl : FunDecl} (now : m.control = .exec (.funDecl decl)) :
      Makes m (.closure ⟨m.state.store.nextIdentity, decl, m.state.context.env, false⟩)
  | method {method : Method} {receiver : Instance} (binds : m.binding? = some (method, receiver)) :
      Makes m (.closure ⟨m.state.store.nextIdentity, method.decl,
        method.env.branch m.state.store.frames.size, method.isInitializer⟩)
  | cls {name : Token} {cls : Class} (declares : m.DeclaresClass name cls) : Makes m (.cls cls)
  | inst {calling : Calling} {cls : Class} (calls : m.calling? = some calling)
      (isClass : calling.callee = .cls cls)
      (accepted : refusal? calling.callee.arity? calling.args.length m.state.context.depth = none) :
      Makes m (.inst ⟨m.state.store.objects.size, cls⟩)

/-- The values that are at hand before the next step, or that it may make. -/
def Offers (m : Machine) (value : Value) : Prop := m.Carries value ∨ m.Makes value

/-- The next step may put a frame in front of an environment, for a scope. -/
inductive Branches (m : Machine) : Nat → Opener → Env → Prop where
  | block {body : List Stmt} (now : m.control = .exec (.block body)) :
      Branches m m.state.store.frames.size (.block body) m.state.context.env
  | superclass {methods : List FunDecl} {superclass : Class}
      (declares : m.Declares methods superclass) :
      Branches m m.state.store.frames.size (.superclass methods) m.state.context.env
  | receiver {method : Method} {receiver : Instance}
      (binds : m.binding? = some (method, receiver)) :
      Branches m m.state.store.frames.size (.receiver method.decl) method.env
  | activation {a : Activation} (begins : m.activation? = some a) :
      Branches m a.frame (.function a.closure.decl) a.closure.env

/-- The environments that are at hand after the next step. -/
inductive Enters (m : Machine) : Env → Prop where
  | seen {env : Env} (sees : m.Sees env) : Enters m env
  | globals : Enters m State.globals
  | branch {frame : Nat} {opener : Opener} {env : Env} (branches : m.Branches frame opener env)
      (around : Enters m env) : Enters m (env.branch frame)

end Machine

/-! ## What is at hand -/

namespace Machine

section AtHand

variable {m : Machine}

theorem carries_valueOf? {reference : Reference} {value : Value}
    (found : m.state.valueOf? reference = some value) : m.Carries value := by
  unfold State.valueOf? at found
  split at found
  · obtain ⟨frame, _, held⟩ := Option.bind_eq_some_iff.mp found
    exact .bound held
  · obtain ⟨frame, _, held⟩ := Option.bind_eq_some_iff.mp found
    exact .bound held

theorem carries_read {reference : Reference} {value : Value}
    (read : m.state.read reference = .value value) : m.Carries value := by
  unfold State.read at read
  split at read
  · next found =>
      cases read
      exact carries_valueOf? found
  · cases read

/-- What is called, and with what, is at hand. -/
theorem Calling.offers {calling : Calling} (calls : m.calling? = some calling) :
    m.Carries calling.callee ∧ (∀ arg ∈ calling.args, m.Carries arg) ∧
      ∀ task ∈ calling.rest, task ∈ m.tasks := by
  obtain ⟨control, tasks, s⟩ := m
  unfold calling? at calls
  split at calls
  · next same =>
      cases same
      cases calls
      exact ⟨.given rfl, fun _ none => (List.not_mem_nil none).elim,
        fun _ => List.mem_cons_of_mem _⟩
  · next before paren rest _ same =>
      cases same
      cases calls
      refine ⟨.waiting List.mem_cons_self (.callee ..), fun arg listed => ?_,
        fun _ => List.mem_cons_of_mem _⟩
      rcases List.mem_cons.mp (List.mem_reverse.mp listed) with rfl | earlier
      · exact .given rfl
      · exact .waiting List.mem_cons_self (.argument earlier)
  · cases calls

/-- What `super` stands for is bound. -/
theorem carries_superOf? {keyword : Reference} {superclass : Class} {receiver : Instance}
    (stands : m.state.superOf? keyword = some (superclass, receiver)) :
    m.Carries (.cls superclass) ∧ m.Carries (.inst receiver) := by
  unfold State.superOf? at stands
  split at stands
  · split at stands
    · next above found =>
        cases stands
        obtain ⟨_, _, held⟩ := Option.bind_eq_some_iff.mp above
        obtain ⟨_, _, held'⟩ := Option.bind_eq_some_iff.mp found
        exact ⟨.bound held, .bound held'⟩
    · cases stands
  · cases stands

/-- A method that is bound is one of a class that is at hand. -/
theorem holds_of_binding {method : Method} {receiver : Instance}
    (binds : m.binding? = some (method, receiver)) :
    ∃ value, m.Carries value ∧ value.Captures method.env ∧ value.Runs method.decl := by
  cases bindsMethod_of_binding binds with
  | super now stands found =>
      have held := Class.hasMethod_of_findMethod? found
      exact ⟨_, (carries_superOf? stands).1, .cls held, .cls held⟩
  | get given waits noField found =>
      have held := Class.hasMethod_of_findMethod? found
      exact ⟨_, .given given, .inst held, .inst held⟩
  | init calls isClass accepted found made =>
      have held := Class.hasMethod_of_findMethod? found
      exact ⟨_, isClass ▸ (Calling.offers calls).1, .cls held, .cls held⟩

/-- The receiver that a method is bound to is at hand, or made by the call of its class. -/
theorem offers_receiver {method : Method} {receiver : Instance}
    (binds : m.binding? = some (method, receiver)) : m.Offers (.inst receiver) := by
  cases bindsMethod_of_binding binds with
  | super now stands found => exact .inl (carries_superOf? stands).2
  | get given waits noField found => exact .inl (.given given)
  | init calls isClass accepted found made => exact .inr (made ▸ .inst calls isClass accepted)

theorem enters_method {method : Method} {receiver : Instance}
    (binds : m.binding? = some (method, receiver)) : m.Enters method.env := by
  obtain ⟨value, carries, captures, _⟩ := holds_of_binding binds
  exact .seen (.captured carries captures)

/-- A class that is declared has a table of its methods, and a superclass that was at hand. -/
theorem DeclaresClass.parts {name : Token} {cls : Class} (declares : m.DeclaresClass name cls) :
    (∃ env decls, cls.methods = State.methodTable env decls) ∧
      ∀ parent ∈ cls.superclass, m.Carries (.cls parent) := by
  cases declares with
  | root now => exact ⟨⟨_, _, rfl⟩, nofun⟩
  | derived now read => exact ⟨⟨_, _, rfl⟩, fun _ isParent => by cases isParent; exact carries_read read⟩

/-- The environments of a class that is declared are that of the declaration, or inherited. -/
theorem enters_of_declaresClass {name : Token} {cls : Class} (declares : m.DeclaresClass name cls)
    {method : Method} (held : cls.HasMethod method) : m.Enters method.env := by
  cases declares with
  | root now =>
      cases held with
      | own found =>
          rw [(State.mem_of_methodTable found).2.1]
          exact .seen .current
      | inherited above held => cases above
  | derived now read =>
      cases held with
      | own found =>
          rw [(State.mem_of_methodTable found).2.1]
          exact .branch (.superclass ⟨name, _, now, read⟩) (.seen .current)
      | inherited above held =>
          cases above
          exact .seen (.captured (carries_read read) (.cls held))

theorem enters_of_captures {value : Value} (offers : m.Offers value) {env : Env}
    (captures : value.Captures env) : m.Enters env := by
  rcases offers with carries | makes
  · exact .seen (.captured carries captures)
  · cases makes with
    | plain isPlain => cases captures <;> cases isPlain
    | function now =>
        cases captures
        exact .seen .current
    | method binds =>
        cases captures
        exact .branch (.receiver binds) (enters_method binds)
    | cls declares =>
        cases captures with
        | cls held => exact enters_of_declaresClass declares held
    | inst calls isClass accepted =>
        cases captures with
        | inst held => exact .seen (.captured (isClass ▸ (Calling.offers calls).1) (.cls held))

/-- The code of a class that is declared is that of the declaration, or inherited. -/
theorem parts_of_declaresClass {name : Token} {cls : Class} (declares : m.DeclaresClass name cls)
    (files : String → Except Failure String) {method : Method} (held : cls.HasMethod method) :
    m.Parts files method.decl.acts := by
  have tail {act : Act} {acts : List Act} (part : m.Parts files ([act] ++ acts)) :
      m.Parts files acts := .right part
  cases declares with
  | root now =>
      cases held with
      | own found =>
          exact (tail (.phrase (.code (.exec now)))).method (State.mem_of_methodTable found).1
      | inherited above held => cases above
  | derived now read =>
      cases held with
      | own found =>
          exact (tail (tail (tail (.phrase (.code (.exec now)))))).method
            (State.mem_of_methodTable found).1
      | inherited above held =>
          cases above
          exact .phrase (.code (.callable (carries_read read) (.cls held)))

/-- The functions and methods of a value that is at hand or made are parts of the code. -/
theorem parts_of_runs {value : Value} (offers : m.Offers value)
    (files : String → Except Failure String) {decl : FunDecl} (runs : value.Runs decl) :
    m.Parts files decl.acts := by
  rcases offers with carries | makes
  · exact .phrase (.code (.callable carries runs))
  · cases makes with
    | plain isPlain => cases runs <;> cases isPlain
    | @function declared now =>
        cases runs
        have whole : m.Parts files ([.define declared.name] ++ declared.acts) :=
          .phrase (.code (.exec now))
        exact .right whole
    | method binds =>
        cases runs
        obtain ⟨value, carries, _, runs⟩ := holds_of_binding binds
        exact .phrase (.code (.callable carries runs))
    | cls declares =>
        cases runs with
        | cls held => exact parts_of_declaresClass declares files held
    | inst calls isClass =>
        cases runs with
        | inst held =>
            exact .phrase (.code (.callable (isClass ▸ (Calling.offers calls).1) (.cls held)))

/-- The body that is entered is one of what is called. -/
theorem exists_runs_of_activation {a : Activation} (begins : m.activation? = some a) :
    ∃ value, m.Carries value ∧ value.Runs a.closure.decl := by
  cases activates_of_activation begins with
  | closure calls isClosure => exact ⟨_, isClosure ▸ (Calling.offers calls).1, .closure _⟩
  | init calls isClass _ found =>
      exact ⟨_, isClass ▸ (Calling.offers calls).1, .cls (Class.hasMethod_of_findMethod? found)⟩

/-- The environment of what is entered is at hand, or has the frame of a new receiver in front. -/
theorem enters_closure {a : Activation} (begins : m.activation? = some a) :
    m.Enters a.closure.env := by
  cases activates_of_activation begins with
  | closure calls isClosure =>
      exact .seen (.captured (isClosure ▸ (Calling.offers calls).1) (.closure _))
  | init calls isClass accepted found =>
      have binds := binding?_init calls isClass accepted found
      exact .branch (.receiver binds) (enters_method binds)

end AtHand

end Machine

/-! ## What a step hands on -/

section Handing

variable (V : Value → Prop) (E : Env → Prop) (K : List Act → Prop)

def Outcome.Hands : Outcome → Prop
  | .value given => V given
  | .returned given => V given
  | .failed _ => True

def Control.Hands : Control → Prop
  | .eval expr => K expr.acts
  | .exec stmt => K stmt.acts
  | .give outcome => outcome.Hands V
  | _ => True

/-- All values, environments and phrases of a task are of some kinds. -/
structure Task.Hands (task : Task) : Prop where
  values : ∀ value, task.Carries value → V value
  envs : ∀ env, task.Saves env → E env
  code : task.Within K

/-- So are those of the control and of the tasks of a machine, and its current environment. -/
structure Machine.Hands (n : Machine) : Prop where
  control : n.control.Hands V K
  tasks : ∀ task ∈ n.tasks, task.Hands V E K
  env : E n.state.context.env

/-- Operators answer with plain values. -/
theorem hands_operate {V : Value → Prop} (plain : ∀ value, value.isPlain = true → V value)
    (operator : Token) (left right : Value) : (operate operator left right).Hands V := by
  have numbers (compute : Float → Float → Value) (computed : ∀ a b, (compute a b).isPlain = true) :
      (onNumbers operator compute left right).Hands V := by
    unfold onNumbers
    split
    · exact plain _ (computed _ _)
    · trivial
  unfold operate
  split
  case h_3 | h_4 | h_5 | h_6 | h_7 | h_8 | h_9 => exact numbers _ fun _ _ => rfl
  case h_10 =>
    split
    · exact plain _ rfl
    · exact plain _ rfl
    · trivial
  case h_11 => trivial
  all_goals exact plain _ rfl

theorem hands_operateUnary {V : Value → Prop} (plain : ∀ value, value.isPlain = true → V value)
    (operator : Token) (operand : Value) : (operateUnary operator operand).Hands V := by
  unfold operateUnary
  split
  · split
    · exact plain _ rfl
    · trivial
  · exact plain _ rfl
  · trivial

end Handing

namespace Machine

/-- The other machine holds what is at hand after the next step, outside of its store. -/
abbrev HandsOn (files : String → Except Failure String) (m n : Machine) : Prop :=
  n.Hands m.Offers m.Enters (m.Parts files)

section Steps

variable {m : Machine} {files : String → Except Failure String}

theorem offers_plain {value : Value} (isPlain : value.isPlain = true) : m.Offers value :=
  .inr (.plain isPlain)

theorem hands_waiting {task : Task} (waits : task ∈ m.tasks) :
    task.Hands m.Offers m.Enters (m.Parts files) :=
  ⟨fun _ held => .inl (.waiting waits held), fun _ held => .seen (.saved waits held),
    within_waiting waits⟩

theorem hands_read (reference : Reference) : (m.state.read reference).Hands m.Offers := by
  cases read : m.state.read reference with
  | value value => exact .inl (carries_read read)
  | returned value =>
      unfold State.read at read
      split at read <;> cases read
  | failed error => trivial

theorem handsOn_giving {outcome : Outcome} {tasks : List Task} {s : State}
    (given : outcome.Hands m.Offers) (left : ∀ task ∈ tasks, task ∈ m.tasks)
    (env : m.Enters s.context.env) : HandsOn files m (giving outcome tasks s) :=
  ⟨given, fun task waits => hands_waiting (left task waits), env⟩

/-- A phrase is begun, above a task that has to wait for it. -/
theorem handsOn_push {control : Control} {task : Task} {tasks : List Task} {s : State}
    (given : control.Hands m.Offers (m.Parts files))
    (first : task.Hands m.Offers m.Enters (m.Parts files))
    (left : ∀ task ∈ tasks, task ∈ m.tasks) (env : m.Enters s.context.env) :
    HandsOn files m ⟨control, task :: tasks, s⟩ :=
  ⟨given, List.forall_mem_cons.mpr ⟨first, fun task waits => hands_waiting (left task waits)⟩, env⟩

theorem handsOn_bindMethod {method : Method} {receiver : Instance}
    (binds : m.binding? = some (method, receiver)) {tasks : List Task}
    (left : ∀ task ∈ tasks, task ∈ m.tasks) :
    HandsOn files m (giving (.value (.closure (m.state.bindMethod method receiver).1)) tasks
      (m.state.bindMethod method receiver).2) := by
  rw [State.bindMethod_eq]
  exact handsOn_giving (.inr (.method binds)) left (.seen .current)

theorem handsOn_getProperty {object : Value} {name : Token} {tasks : List Task} {s : State}
    (next : m = ⟨.give (.value object), .get name :: tasks, s⟩) :
    HandsOn files m (getProperty object name tasks s) := by
  have left (task : Task) (waits : task ∈ tasks) : task ∈ m.tasks := by
    rw [next]
    exact List.mem_cons_of_mem _ waits
  subst next
  unfold getProperty
  split
  · next receiver =>
      split
      · next held => exact handsOn_giving (.inl (.field held)) left (.seen .current)
      · next noField =>
          split
          · next method found =>
              have binds : binding? ⟨.give (.value (.inst receiver)), .get name :: tasks, s⟩ =
                  some (method, receiver) := by
                simp [binding?, noField, found]
              exact handsOn_bindMethod binds left
          · exact handsOn_giving trivial left (.seen .current)
  · exact handsOn_giving trivial left (.seen .current)

theorem handsOn_getSuper {keyword : Reference} {name : Token} {tasks : List Task} {s : State}
    (next : m = ⟨.eval (.super keyword name), tasks, s⟩) :
    HandsOn files m (getSuper keyword name tasks s) := by
  subst next
  unfold getSuper
  split
  · exact handsOn_giving trivial (fun _ waits => waits) (.seen .current)
  · next superclass receiver stands =>
      split
      · next method found =>
          have binds : binding? ⟨.eval (.super keyword name), tasks, s⟩ =
              some (method, receiver) := by
            simp [binding?, stands, found]
          exact handsOn_bindMethod binds fun _ waits => waits
      · exact handsOn_giving trivial (fun _ waits => waits) (.seen .current)

/-- Besides the rest of the body, the end of the call waits, and for an initializer its answer. -/
theorem handsOn_activation {a : Activation} (begins : m.activation? = some a) :
    HandsOn files m a.machine := by
  have entered : m.Enters (a.closure.env.branch a.frame) :=
    .branch (.activation begins) (enters_closure begins)
  obtain ⟨value, carries, runs⟩ := exists_runs_of_activation begins
  have body : m.Parts files (actsBody a.closure.decl.body) :=
    (parts_of_runs (.inl carries) files runs).body
  rw [Activation.machine_eq]
  refine ⟨offers_plain rfl, List.forall_mem_cons.mpr ⟨⟨nofun, nofun, body⟩, ?_⟩, entered⟩
  clear body
  cases activates_of_activation begins with
  | @closure calling closure calls isClosure =>
      obtain ⟨carries, _, left⟩ := Calling.offers calls
      refine List.forall_mem_cons.mpr ⟨⟨fun value held => ?_, fun env held => ?_, trivial⟩,
        fun task waits => hands_waiting (left task waits)⟩
      · cases isInit : closure.isInitializer <;>
          (dsimp only [Calling.ofClosure] at held; rw [isInit] at held; cases held)
      · dsimp only [Calling.ofClosure] at held
        split at held
        · cases held
          · exact .seen .current
          · exact .seen (.captured (isClosure ▸ carries) (.closure closure))
        · cases held
          exact .seen .current
  | init calls isClass accepted _ =>
      obtain ⟨_, _, left⟩ := Calling.offers calls
      refine List.forall_mem_cons.mpr ⟨⟨fun value held => ?_, fun env held => ?_, trivial⟩,
        fun task waits => hands_waiting (left task waits)⟩
      · cases held
        exact .inr (.inst calls isClass accepted)
      · cases held
        exact .seen .current

theorem handsOn_callNative {native : Native} {args : List Value} {line : Nat} {tasks : List Task}
    (left : ∀ task ∈ tasks, task ∈ m.tasks) :
    HandsOn files m (callNative native args line tasks m.state) := by
  have calls := callNative_calls native args line tasks m.state
  generalize callNative native args line tasks m.state = n at calls ⊢
  cases calls with
  | exits code => exact ⟨trivial, fun task waits => hands_waiting (left task waits), .seen .current⟩
  | answers isPlain output =>
      rcases isPlain with rfl | ⟨x, rfl⟩ <;>
        exact handsOn_giving (offers_plain rfl) left (.seen .current)
  | fails isFault output => exact handsOn_giving trivial left (.seen .current)

theorem handsOn_calling {calling : Calling} (calls : m.calling? = some calling)
    (files : String → Except Failure String) : HandsOn files m (m.advance files) := by
  obtain ⟨_, _, left⟩ := Calling.offers calls
  have called := calls_advance calls files
  generalize m.advance files = n at called ⊢
  cases called with
  | refused => exact handsOn_giving trivial left (.seen .current)
  | native => exact handsOn_callNative left
  | made isClass accepted =>
      exact handsOn_giving (.inr (.inst calls isClass accepted)) left (.seen .current)
  | entered begins => exact handsOn_activation begins

theorem handsOn_evaluate {expr : Expr} {tasks : List Task} {s : State}
    (next : m = ⟨.eval expr, tasks, s⟩) : HandsOn files m (evaluate expr tasks s) := by
  have left (task : Task) (waits : task ∈ tasks) : task ∈ m.tasks := by
    rw [next]
    exact waits
  have env : m.Enters s.context.env := by
    rw [show s = m.state from next ▸ rfl]
    exact .seen .current
  have code : m.Parts files expr.acts := .phrase (.code (.eval (by rw [next])))
  cases expr with
  | assign target value => exact handsOn_push (.left code) ⟨nofun, nofun, .right code⟩ left env
  | binary first operator second =>
      exact handsOn_push (.left code) ⟨nofun, nofun, .right code⟩ left env
  | call callee paren args => exact handsOn_push (.left code) ⟨nofun, nofun, .right code⟩ left env
  | get object name => exact handsOn_push code ⟨nofun, nofun, trivial⟩ left env
  | grouping inner => exact ⟨code, fun task waits => hands_waiting (left task waits), env⟩
  | literal literal => exact handsOn_giving (offers_plain (Value.isPlain_ofLiteral literal)) left env
  | logical first operator second =>
      exact handsOn_push (.left code) ⟨nofun, nofun, .right code⟩ left env
  | set object name value => exact handsOn_push (.right code) ⟨nofun, nofun, .left code⟩ left env
  | super keyword method => exact handsOn_getSuper next
  | this keyword =>
      subst next
      exact handsOn_giving (hands_read keyword) left env
  | unary operator operand => exact handsOn_push code ⟨nofun, nofun, trivial⟩ left env
  | var name =>
      subst next
      exact handsOn_giving (hands_read name) left env

theorem handsOn_execute {stmt : Stmt} {tasks : List Task} {s : State}
    (next : m = ⟨.exec stmt, tasks, s⟩) : HandsOn files m (execute stmt tasks s) := by
  have left (task : Task) (waits : task ∈ tasks) : task ∈ m.tasks := by
    rw [next]
    exact waits
  have now : m.control = .exec stmt := by rw [next]
  have same : s = m.state := by rw [next]
  subst same
  have env : m.Enters m.state.context.env := .seen .current
  have ended : Outcome.nil.Hands m.Offers := offers_plain rfl
  have code : m.Parts files stmt.acts := .phrase (.code (.exec now))
  have tail {act : Act} {acts : List Act} (part : m.Parts files ([act] ++ acts)) :
      m.Parts files acts := .right part
  cases stmt with
  | block body =>
      unfold execute
      dsimp only
      rw [State.extend_eq]
      refine ⟨ended, List.forall_mem_cons.mpr ⟨⟨nofun, nofun, code⟩, List.forall_mem_cons.mpr
        ⟨⟨nofun, fun env held => ?_, trivial⟩, fun task waits => hands_waiting (left task waits)⟩⟩, ?_⟩
      · cases held
        exact .seen .current
      · exact .branch (.block now) (.seen .current)
  | classDecl name superclass methods =>
      have declared (parent : Option Class) :
          (m.state.declareClass name parent methods).context = m.state.context :=
        declareClass_context name parent methods m.state
      cases superclass with
      | none => exact handsOn_giving ended left (declared none ▸ env)
      | some reference =>
          unfold execute
          dsimp only
          have read := m.hands_read reference
          split
          · next parent _ => exact handsOn_giving ended left (declared (some parent) ▸ env)
          · exact handsOn_giving trivial left env
          · exact handsOn_giving read left env
  | expression expr => exact ⟨code, fun task waits => hands_waiting (left task waits), env⟩
  | funDecl decl =>
      unfold execute
      dsimp only
      rw [State.makeClosure_eq]
      exact handsOn_giving ended left env
  | ifElse condition thenBranch elseBranch =>
      cases elseBranch with
      | none =>
          have branch := tail (.right code)
          exact handsOn_push (.left code) ⟨nofun, nofun, branch, nofun⟩ left env
      | some elseBranch =>
          have branches := Parts.right code
          refine handsOn_push (.left code) ⟨nofun, nofun, tail (.left branches), ?_⟩ left env
          rintro _ ⟨⟩
          exact tail (.right branches)
  | inclusion path => exact ⟨trivial, fun task waits => hands_waiting (left task waits), env⟩
  | print value => exact handsOn_push code ⟨nofun, nofun, trivial⟩ left env
  | ret keyword value =>
      cases value with
      | none => exact handsOn_giving (offers_plain rfl) left env
      | some value => exact handsOn_push (tail code) ⟨nofun, nofun, trivial⟩ left env
  | varDecl name init =>
      cases init with
      | none => exact handsOn_giving ended left env
      | some init =>
          have declares : m.Parts files ([.declare name] ++ init.acts) := code
          exact handsOn_push (tail code) ⟨nofun, nofun, .left declares⟩ left env
  | whileLoop condition body =>
      exact handsOn_push (.left code) ⟨nofun, nofun, .left code, tail (.right code)⟩ left env

/-- What a call answers is at hand. -/
theorem offers_answerValue {context : Context} {line : Nat} {answer : Answer}
    (waits : .finishCall context line answer ∈ m.tasks) {returned : Option Value}
    (given : ∀ value ∈ returned, m.Offers value) :
    m.Offers (answerValue answer returned m.state) := by
  cases answer with
  | result =>
      cases returned with
      | none => exact offers_plain rfl
      | some value => exact given value rfl
  | receiver env =>
      show m.Offers ((m.state.store.getAt? env 0 "this").getD .nil)
      cases found : m.state.store.getAt? env 0 "this" with
      | none => exact offers_plain rfl
      | some value =>
          obtain ⟨_, _, held⟩ := Option.bind_eq_some_iff.mp found
          exact .inl (.bound held)
  | made inst => exact .inl (.waiting waits (.made ..))

theorem handsOn_resume {value : Value} {task : Task} {tasks : List Task} {s : State}
    (next : m = ⟨.give (.value value), task :: tasks, s⟩)
    (files : String → Except Failure String) : HandsOn files m (resume value task tasks s) := by
  have waits : task ∈ m.tasks := by
    rw [next]
    exact List.mem_cons_self
  have left (task : Task) (waits : task ∈ tasks) : task ∈ m.tasks := by
    rw [next]
    exact List.mem_cons_of_mem _ waits
  have given : m.Offers value := .inl (.given (by rw [next]))
  have advanced : resume value task tasks s = m.advance files := by rw [next]; rfl
  have called : m.calling? = calling? ⟨.give (.value value), task :: tasks, s⟩ := by rw [next]
  have same : s = m.state := by rw [next]
  have property {name : Token} (isGet : task = .get name) :
      HandsOn files m (getProperty value name tasks s) := handsOn_getProperty (isGet ▸ next)
  clear next
  subst same
  have env : m.Enters m.state.context.env := .seen .current
  have ended : Outcome.nil.Hands m.Offers := offers_plain rfl
  have others (task : Task) (waits : task ∈ tasks) :
      task.Hands m.Offers m.Enters (m.Parts files) := hands_waiting (left task waits)
  have code : task.Within (m.Parts files) := within_waiting waits
  cases task with
  | assign target =>
      have context : (m.state.assign target value).2.context = m.state.context := by
        rw [State.assign_eq]
      unfold resume
      dsimp only
      generalize m.state.assign target value = assigned at context ⊢
      obtain ⟨found, after⟩ := assigned
      refine handsOn_giving ?_ left (context ▸ env)
      cases found with
      | true => exact given
      | false => trivial
  | rightOperand operator right =>
      refine handsOn_push code ⟨fun value held => ?_, nofun, trivial⟩ left env
      cases held
      exact given
  | operate before operator =>
      exact handsOn_giving (hands_operate (fun _ => offers_plain) operator before value) left env
  | operateUnary operator =>
      exact handsOn_giving (hands_operateUnary (fun _ => offers_plain) operator value) left env
  | decide operator right =>
      unfold resume
      dsimp only
      split
      · exact handsOn_giving given left env
      · exact ⟨code, others, env⟩
  | firstArgument paren args =>
      cases args with
      | nil =>
          rw [advanced]
          exact handsOn_calling called files
      | cons arg args =>
          refine handsOn_push (.left code) ⟨fun value held => ?_, nofun, .right code⟩ left env
          cases held with
          | callee => exact given
          | argument none => cases none
  | nextArgument callee before paren args =>
      cases args with
      | nil =>
          rw [advanced]
          exact handsOn_calling called files
      | cons arg args =>
          refine handsOn_push (.left code) ⟨fun value held => ?_, nofun, .right code⟩ left env
          cases held with
          | callee => exact .inl (.waiting waits (.callee ..))
          | argument listed =>
              rcases List.mem_cons.mp listed with rfl | earlier
              · exact given
              · exact .inl (.waiting waits (.argument earlier))
  | get name => exact property rfl
  | storedValue name stored =>
      unfold resume
      dsimp only
      split
      · refine handsOn_push code ⟨fun value held => ?_, nofun, trivial⟩ left env
        cases held
        exact given
      · exact handsOn_giving trivial left env
  | set inst name => exact handsOn_giving given left env
  | print line =>
      rw [resume_print, State.writeLine_eq]
      refine handsOn_giving ?_ left env
      cases (m.state.output.writeLine value.text).1 with
      | none => exact ended
      | some detail => trivial
  | ret => exact handsOn_giving given left env
  | choose thenBranch elseBranch =>
      unfold resume
      dsimp only
      split
      · exact ⟨code.1, others, env⟩
      · split
        · exact ⟨code.2 _ rfl, others, env⟩
        · exact handsOn_giving ended left env
  | loopBody condition body =>
      unfold resume
      dsimp only
      split
      · exact handsOn_push code.2 ⟨nofun, nofun, code⟩ left env
      · exact handsOn_giving ended left env
  | loopAgain condition body => exact handsOn_push code.1 ⟨nofun, nofun, code⟩ left env
  | body stmts =>
      cases stmts with
      | nil => exact handsOn_giving ended left env
      | cons stmt stmts => exact handsOn_push (.left code) ⟨nofun, nofun, .right code⟩ left env
  | program stmts =>
      cases stmts with
      | nil => exact handsOn_giving ended left env
      | cons stmt stmts => exact handsOn_push (.left code) ⟨nofun, nofun, .right code⟩ left env
  | leave context => exact handsOn_giving ended left (.seen (.saved waits (.leave context)))
  | finishCall context line answer =>
      exact handsOn_giving (offers_answerValue waits nofun) left
        (.seen (.saved waits (.finishCall ..)))
  | finishInclusion context =>
      exact handsOn_giving ended left (.seen (.saved waits (.finishInclusion context)))
  | define name => exact handsOn_giving ended left env

/-- A task that a return passes through restores a context, or answers for its call. -/
theorem handsOn_unwind {value : Value} {task : Task} {tasks : List Task} {s : State}
    (next : m = ⟨.give (.returned value), task :: tasks, s⟩) :
    HandsOn files m (unwind value task tasks s) := by
  have waits : task ∈ m.tasks := by
    rw [next]
    exact List.mem_cons_self
  have left (task : Task) (waits : task ∈ tasks) : task ∈ m.tasks := by
    rw [next]
    exact List.mem_cons_of_mem _ waits
  have given : m.Offers value := .inl (.returned (by rw [next]))
  have same : s = m.state := by rw [next]
  clear next
  subst same
  cases task with
  | program stmts => exact handsOn_push (offers_plain rfl) (hands_waiting waits) left (.seen .current)
  | leave context => exact handsOn_giving given left (.seen (.saved waits (.leave context)))
  | finishCall context line answer =>
      refine handsOn_giving (offers_answerValue waits fun _ isValue => ?_) left
        (.seen (.saved waits (.finishCall ..)))
      exact Option.some.inj isValue ▸ given
  | finishInclusion context =>
      exact handsOn_giving given left (.seen (.saved waits (.finishInclusion context)))
  | _ => exact handsOn_giving given left (.seen .current)

theorem handsOn_abandon {error : Error} {task : Task} {tasks : List Task} {s : State}
    (next : m = ⟨.give (.failed error), task :: tasks, s⟩) :
    HandsOn files m (abandon error task tasks s) := by
  have waits : task ∈ m.tasks := by
    rw [next]
    exact List.mem_cons_self
  have left (task : Task) (waits : task ∈ tasks) : task ∈ m.tasks := by
    rw [next]
    exact List.mem_cons_of_mem _ waits
  have same : s = m.state := by rw [next]
  clear next
  subst same
  cases task with
  | leave context => exact handsOn_giving trivial left (.seen (.saved waits (.leave context)))
  | finishCall context line answer =>
      exact handsOn_giving trivial left (.seen (.saved waits (.finishCall ..)))
  | finishInclusion context =>
      exact handsOn_giving trivial left (.seen (.saved waits (.finishInclusion context)))
  | _ => exact handsOn_giving trivial left (.seen .current)

/-- The text of an inclusion is run in the globals. -/
theorem handsOn_provide {path : Token} {place : String} (now : m.control = .awaitFile path place) :
    HandsOn files m (provide (files place) path place m.tasks m.state) := by
  have left (task : Task) (waits : task ∈ m.tasks) : task ∈ m.tasks := waits
  have loads : m.loads? files = loads? files ⟨.awaitFile path place, m.tasks, m.state⟩ := by
    rw [← now]
  unfold loads? at loads
  dsimp only at loads
  unfold provide
  split
  · exact handsOn_giving trivial left (.seen .current)
  · next source read =>
      rw [read] at loads
      dsimp only at loads
      split
      · exact handsOn_giving trivial left (.seen .current)
      · next program compiled =>
          rw [compiled] at loads
          dsimp only
          split
          · exact handsOn_giving trivial left (.seen .current)
          · refine ⟨offers_plain rfl, List.forall_mem_cons.mpr ⟨⟨nofun, nofun, .loaded loads⟩,
              List.forall_mem_cons.mpr ⟨⟨nofun, fun env held => ?_, trivial⟩,
                fun _ => hands_waiting⟩⟩, .globals⟩
            cases held
            exact .seen .current

/-- Outside of its store, a machine holds what was at hand or was made at its last step. -/
theorem handsOn_advance (m : Machine) (files : String → Except Failure String) :
    HandsOn files m (m.advance files) := by
  obtain ⟨control, tasks, s⟩ := m
  have still {control : Control} (given : control.Hands (Offers ⟨control, tasks, s⟩)
      (Parts ⟨control, tasks, s⟩ files)) :
      HandsOn files ⟨control, tasks, s⟩ ⟨control, tasks, s⟩ :=
    ⟨given, fun _ => hands_waiting, .seen .current⟩
  cases control with
  | eval expr => exact handsOn_evaluate rfl
  | exec stmt => exact handsOn_execute rfl
  | give outcome =>
      cases outcome with
      | value value =>
          cases tasks with
          | nil => exact still (.inl (.given rfl))
          | cons task tasks => exact handsOn_resume rfl files
      | returned value =>
          cases tasks with
          | nil => exact still (.inl (.returned rfl))
          | cons task tasks => exact handsOn_unwind rfl
      | failed error =>
          cases tasks with
          | nil => exact still trivial
          | cons task tasks => exact handsOn_abandon rfl
  | awaitFile path place =>
      exact handsOn_provide (m := ⟨.awaitFile path place, tasks, s⟩) rfl
  | exited code => exact still trivial

/-- A step writes what is at hand, or what it makes. -/
theorem offers_of_binds {frame : Nat} {name : String} {value : Value}
    (binds : m.Binds frame name value) : m.Offers value := by
  cases binds with
  | uninitialized now => exact offers_plain rfl
  | initialized given waits => exact .inl (.given given)
  | function now => exact .inr (.function now)
  | cls declares => exact .inr (.cls declares)
  | assigned given waits there => exact .inl (.given given)
  | superclass declares =>
      obtain ⟨_, _, _, read⟩ := declares
      exact .inl (carries_read read)
  | receiver binds => exact offers_receiver binds
  | parameter begins listed given =>
      cases activates_of_activation begins with
      | closure calls => exact .inl ((Calling.offers calls).2.1 _ given)
      | init calls => exact .inl ((Calling.offers calls).2.1 _ given)

/-- After a step a machine carries what it has carried before, or what the step has made. -/
theorem offers_of_carries {value : Value}
    (carries : (m.advance files).Carries value) : m.Offers value := by
  have handed := m.handsOn_advance files
  have changes := m.changes_advance files
  cases carries with
  | @bound frame name _ held =>
      rcases changes.bindings frame name with same | ⟨written, binds, found⟩
      · exact .inl (.bound (same.symm.trans held))
      · cases found.symm.trans held
        exact offers_of_binds binds
  | @field object name _ held =>
      rcases changes.fields object name with same | ⟨written, sets, found⟩
      · exact .inl (.field (same.symm.trans held))
      · cases found.symm.trans held
        cases sets with
        | field given waits => exact .inl (.given given)
  | given now =>
      have control := handed.control
      rw [now] at control
      exact control
  | returned now =>
      have control := handed.control
      rw [now] at control
      exact control
  | waiting waits held => exact (handed.tasks _ waits).values _ held

/-- After a step a machine sees what it has seen before, or an environment that grew by a frame. -/
theorem enters_of_sees {env : Env}
    (sees : (m.advance files).Sees env) : m.Enters env := by
  have handed := m.handsOn_advance files
  cases sees with
  | current => exact handed.env
  | saved waits held => exact (handed.tasks _ waits).envs _ held
  | captured carries captures => exact enters_of_captures (offers_of_carries carries) captures

/-- After a step the code of a machine consists of parts of what it was before. -/
theorem parts_of_phrase {acts : List Act} (held : (m.advance files).Phrase acts) :
    m.Parts files acts := by
  have handed := m.handsOn_advance files
  cases held with
  | code executes =>
      cases executes with
      | eval now =>
          have control := handed.control
          rw [now] at control
          exact control
      | exec now =>
          have control := handed.control
          rw [now] at control
          exact control
      | waiting waits held => exact (handed.tasks _ waits).code.holds held
      | callable carries runs => exact parts_of_runs (offers_of_carries carries) files runs
  | define waits => exact (handed.tasks _ waits).code

end Steps

end Machine

end Lox
