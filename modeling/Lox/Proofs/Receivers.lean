import Lox.Proofs.Levels
import Lox.Proofs.Receivers.Bindings
import Lox.Proofs.Receivers.Descent
import Lox.Proofs.Returns
import Lox.Proofs.Super

/-!
# Receivers and constructors

A method is bound to its receiver for good, so `this` stands for the same instance wherever it is
evaluated in it.  The call of a class makes a new instance, and an initializer always answers with
the instance that it was bound to.
-/

namespace Lox

/-- The activation is that of a call, with its arguments, and nothing of the caller is lost. -/
structure Machine.Calling.Enters (calling : Calling) (m : Machine) (a : Activation) : Prop where
  begins : m.activation? = some a
  args : a.args = calling.args
  rest : a.rest = calling.rest
  context : a.state.context = m.state.context

/--
Whatever the body of the call ends with, unless it fails, the call has the value: what waited for
it goes on with this, in the context of the caller.
-/
def Activation.Answers (a : Activation) (value : Value) : Prop :=
  ∀ (n : Machine) (result : Value) (files : String → Except Failure String),
    Machine.RunsAbove a.waiting a.machine n → n.tasks = a.waiting →
      (n.control = .give (.value result) ∨ n.control = .give (.returned result)) →
        n.advance files = ⟨.give (.value value), a.rest, n.state.setContext a.state.context⟩

/-- The end of the call answers with the value, if it does so in whatever state it is come to. -/
theorem Activation.answers {a : Activation} {value : Value}
    (answer : ∀ n returned, Machine.RunsAbove a.waiting a.machine n →
      Machine.answerValue a.answer returned n.state = value) : a.Answers value := by
  intro n result files runs waits ended
  have plain := answer n none runs
  have returned := answer n (some result) runs
  obtain ⟨control, tasks, s⟩ := n
  obtain rfl : tasks = a.waiting := waits
  rcases ended with now | now
  · obtain rfl : control = .give (.value result) := now
    exact congrArg (fun value => Machine.mk (.give (.value value)) a.rest
      (s.setContext a.state.context)) plain
  · obtain rfl : control = .give (.returned result) := now
    exact congrArg (fun value => Machine.mk (.give (.value value)) a.rest
      (s.setContext a.state.context)) returned

section Calls

variable {past : Past} {m : Machine} {calling : Machine.Calling}

/-- A call of an initializer ends with a receiver, which is bound. -/
theorem StackRel.receiver {r : Respelling} {w : World} {store : Store} {p : Spot}
    {tasks tasks' : List Task} (left : StackRel r w store p tasks tasks') {saved : Context}
    {line : Nat} {env : Env} (waits : .finishCall saved line (.receiver env) ∈ tasks) :
    ∃ inst, store.valueIn? env.frame "this" = some (.inst inst) := by
  induction left with
  | nil => cases waits
  | task first _ ih =>
      rcases List.mem_cons.mp waits with rfl | below
      · cases first
      · exact ih below
  | leave _ _ _ ih => exact ih ((List.mem_cons.mp waits).resolve_left nofun)
  | finishInclusion _ _ _ ih => exact ih ((List.mem_cons.mp waits).resolve_left nofun)
  | finishCall answers _ _ ih =>
      rcases List.mem_cons.mp waits with here | below
      · cases here
        cases answers with
        | receiver _ bound => exact ⟨_, bound⟩
      · exact ih below

/-- So an initializer never lacks the receiver that it answers with. -/
theorem Reached.receiver_of_finishCall (reached : Reached past m) {saved : Context} {line : Nat}
    {env : Env} (waits : .finishCall saved line (.receiver env) ∈ m.tasks) :
    ∃ receiver, m.state.store.getAt? env 0 "this" = some (.inst receiver) := by
  obtain ⟨w, _, _, related⟩ := reached.related fun _ => Past.first_ne_unused
  obtain @⟨_, _, _, _, _, _, _, _, _, _, left, _⟩ := related
  exact left.receiver waits

/-- The call of a closure enters its body. -/
theorem Machine.enters_of_closure (calls : m.calling? = some calling) {closure : Closure}
    (isClosure : calling.callee = .closure closure) (acceptable : calling.Acceptable)
    (shallow : m.state.context.depth < maxDepth) :
    calling.Enters m (calling.ofClosure closure m.state) :=
  ⟨(Activates.closure calls isClosure (acceptable.accepted shallow)).activation, rfl, rfl, rfl⟩

/-- The call of an initializer that was bound answers with its receiver. -/
theorem Closure.BoundTo.answers (reached : Reached past m) {closure : Closure} {receiver : Instance}
    (bound : closure.BoundTo past m receiver) (isInitializer : closure.isInitializer = true)
    (enters : calling.Enters m (calling.ofClosure closure m.state)) :
    (calling.ofClosure closure m.state).Answers (.inst receiver) := by
  refine Activation.answers fun n returned runs => ?_
  have entered := @Sequel.of_activation past m _ enters.begins
  have kept := (entered.reached reached).receiver runs (bound.sequel entered).valueIn?
  have isReceiver : (calling.ofClosure closure m.state).answer = .receiver closure.env := by
    unfold Machine.Calling.ofClosure
    rw [isInitializer]
    rfl
  rw [isReceiver]
  show (n.state.store.valueIn? closure.env.frame "this").getD .nil = _
  rw [kept]
  rfl

/-- The call of a class that has an initializer enters this, and answers with the new instance. -/
theorem Machine.enters_of_class (calls : m.calling? = some calling) {cls : Class}
    (isClass : calling.callee = .cls cls)
    (accepted : refusal? calling.callee.arity? calling.args.length m.state.context.depth = none)
    {init : Method} (found : cls.initializer? = some init) :
    calling.Enters m (calling.ofInitializer cls init m.state) ∧
      (calling.ofInitializer cls init m.state).Answers (.inst ⟨m.state.store.objects.size, cls⟩) :=
  ⟨⟨(Activates.init calls isClass accepted found).activation, rfl, rfl, rfl⟩,
    Activation.answers fun _ _ _ => rfl⟩

/-- A method that is found for an instance has the name that was looked for. -/
theorem Reached.name_of_instance (reached : Reached past m) {receiver : Instance}
    (carries : m.Carries (.inst receiver)) {name : String} {method : Method}
    (found : receiver.cls.findMethod? name = some method) : method.name = name := by
  obtain ⟨_, _, _, before, _, held⟩ := reached.class_of_carries carries
  exact before.name_of_findMethod? found held

end Calls

open Machine in
/--
Receivers and constructors.

What binds `this` is the frame of a method that was bound, and does so for good.  A method becomes
a closure by being bound, and wherever `this` is evaluated, however late and in whatever functions
and blocks inside of the method, it is the instance that the closure of this method was bound to.

The closures that a machine carries are those of function statements and of methods that were
bound; an unbound method is never among them.

While a level is left, the call of a class that accepts the arguments makes an object that no
instance is yet.  The initializer that is nearest on the way up the superclasses is bound to it and
entered once, with these arguments, and the call has the instance as its value whatever this ends
with, unless it fails; without an initializer the call has it at once.

A method that is found under the name `init` is an initializer.  Its closure, when it is called
itself, always has a receiver to answer with, and answers with it.
-/
theorem receivers_are_fixed :
    (∀ (past : Past) (m : Machine) (frame : Nat) (value : Value), Reached past m →
      m.state.store.valueIn? frame "this" = some value →
        (∃ (closure : Closure) (receiver : Instance), closure.BoundTo past m receiver ∧
          closure.env.frame = frame ∧ value = .inst receiver) ∧
        ∀ past' n, Sequel past m past' n → n.state.store.valueIn? frame "this" = some value) ∧
    (∀ (past : Past) (m : Machine) (method : Method) (receiver : Instance)
      (files : String → Except Failure String), Reached past m →
      m.binding? = some (method, receiver) →
        ∃ closure : Closure, closure.decl = method.decl ∧
          closure.isInitializer = method.isInitializer ∧
          closure.BoundTo (past.after files m) (m.advance files) receiver ∧
          ((∃ tasks s, m.advance files = .giving (.value (.closure closure)) tasks s) ∨
            ∃ a, m.activation? = some a ∧ a.closure = closure)) ∧
    (∀ (past : Past) (m : Machine) (closure : Closure) (receiver : Instance), Reached past m →
      closure.BoundTo past m receiver → ∀ past' n, Sequel past m past' n →
        closure.BoundTo past' n receiver ∧
          n.state.store.valueIn? closure.env.frame "this" = some (.inst receiver)) ∧
    (∀ (past : Past) (m : Machine) (keyword : Reference), Reached past m →
      m.control = .eval (.this keyword) →
        ∃ a receiver, m.InBodyOf past a ∧ a.closure.BoundTo past m receiver ∧
          ∀ files, m.advance files = .giving (.value (.inst receiver)) m.tasks m.state) ∧
    (∀ (past : Past) (m : Machine) (closure : Closure), Reached past m →
      m.Carries (.closure closure) →
        closure.Declared past m ∨ ∃ receiver, closure.BoundTo past m receiver) ∧
    (∀ (past : Past) (m : Machine) (calling : Calling) (cls : Class), Reached past m →
      m.calling? = some calling → calling.callee = .cls cls → calling.Acceptable →
      m.state.context.depth < 20000 →
        (∀ inst : Instance, m.Carries (.inst inst) → inst.object ≠ m.state.store.objects.size) ∧
        (∀ files, (m.advance files).state.store.objects.size = m.state.store.objects.size + 1) ∧
        match (cls :: cls.ancestors).findSome? fun ancestor => ancestor.methods.find? "init" with
        | some init => ∃ a, calling.Enters m a ∧ (∀ files, m.advance files = a.machine) ∧
            a.closure.decl = init.decl ∧
            (∀ files, a.closure.BoundTo (past.after files m) (m.advance files)
              ⟨m.state.store.objects.size, cls⟩) ∧
            a.Answers (.inst ⟨m.state.store.objects.size, cls⟩)
        | none => calling.args = [] ∧ ∀ files, m.advance files =
            .giving (.value (.inst ⟨m.state.store.objects.size, cls⟩)) calling.rest
              { m.state with store := m.state.store.newObject.2 }) ∧
    (∀ (past : Past) (tasks : List Task) (s : State) (receiver : Instance) (name : Token)
      (method : Method), Reached past ⟨.give (.value (.inst receiver)), .get name :: tasks, s⟩ →
      binding? ⟨.give (.value (.inst receiver)), .get name :: tasks, s⟩ =
        some (method, receiver) → method.isInitializer = (name.lexeme == "init")) ∧
    (∀ (past : Past) (tasks : List Task) (s : State) (receiver : Instance) (keyword : Reference)
      (name : Token) (method : Method), Reached past ⟨.eval (.super keyword name), tasks, s⟩ →
      binding? ⟨.eval (.super keyword name), tasks, s⟩ = some (method, receiver) →
        method.isInitializer = (name.lexeme == "init")) ∧
    (∀ (past : Past) (m : Machine) (calling : Calling) (closure : Closure), Reached past m →
      m.calling? = some calling → calling.callee = .closure closure →
      closure.isInitializer = true → calling.Acceptable → m.state.context.depth < 20000 →
        ∃ a receiver, calling.Enters m a ∧ (∀ files, m.advance files = a.machine) ∧
          a.closure = closure ∧ closure.BoundTo past m receiver ∧ a.Answers (.inst receiver)) ∧
    (∀ (past : Past) (m : Machine) (saved : Context) (line : Nat) (env : Env), Reached past m →
      .finishCall saved line (.receiver env) ∈ m.tasks →
        ∃ receiver, m.state.store.getAt? env 0 "this" = some (.inst receiver)) := by
  refine ⟨?_, ?_, ?_, ?_, ?_, ?_, ?_, ?_, ?_, ?_⟩
  · intro past m frame value reached bound
    exact ⟨reached.bound_of_this bound, fun past' n sequel =>
      (sequel.fixes reached reserved_this).valueIn? bound⟩
  · intro past m method receiver files reached binds
    refine ⟨⟨m.state.store.nextIdentity, method.decl,
      method.env.branch m.state.store.frames.size, method.isInitializer⟩, rfl, rfl,
      .now reached ⟨method, binds, rfl⟩ files, ?_⟩
    rcases advance_bindsMethod (bindsMethod_of_binding binds) files with
      ⟨tasks, stepped⟩ | ⟨calling, cls, rfl, begins⟩
    · rw [State.bindMethod_eq] at stepped
      exact .inl ⟨tasks, _, stepped⟩
    · exact .inr ⟨_, begins, rfl⟩
  · intro past m closure receiver reached bound past' n sequel
    have later := bound.sequel sequel
    exact ⟨later, later.valueIn?⟩
  · intro past m keyword reached evaluates
    obtain ⟨a, receiver, inBody, bound, read⟩ := reached.reads_this evaluates
    refine ⟨a, receiver, inBody, bound, fun files => ?_⟩
    obtain ⟨control, tasks, s⟩ := m
    obtain rfl : control = .eval (.this keyword) := evaluates
    show giving (s.read keyword) tasks s = _
    rw [show s.read keyword = .value (.inst receiver) from read]
  · intro past m closure reached carries
    exact reached.origin_of_closure carries
  · intro past m calling cls reached calls isClass acceptable shallow
    have accepted := acceptable.accepted shallow
    have makes : m.Makes (.inst ⟨m.state.store.objects.size, cls⟩) :=
      .inst calls isClass accepted
    refine ⟨fun inst carries => Nat.ne_of_lt (reached.object_lt carries),
      fun files => (objects_of_makes makes files).2, ?_⟩
    rw [← Class.findMethod?_eq]
    cases found : cls.initializer? with
    | none =>
        rw [show cls.findMethod? "init" = none from found]
        exact ⟨(advance_class calls isClass accepted found fun _ => .error .missing).1,
          fun files => (advance_class calls isClass accepted found files).2⟩
    | some init =>
        rw [show cls.findMethod? "init" = some init from found]
        obtain ⟨enters, answers⟩ := enters_of_class calls isClass accepted found
        exact ⟨_, enters, advance_activation enters.begins, rfl,
          .now reached ⟨init, binding?_init calls isClass accepted found, rfl⟩, answers⟩
  · intro past tasks s receiver name method reached binds
    cases bindsMethod_of_binding binds with
    | super now => cases now
    | get given waits _ found =>
        cases waits
        rw [Method.isInitializer, reached.name_of_instance (.given given) found]
    | init calls => cases calls
  · intro past tasks s receiver keyword name method reached binds
    cases bindsMethod_of_binding binds with
    | super now stands found =>
        cases now
        rw [Method.isInitializer,
          reached.name_of_findMethod? found (carries_superOf? stands).1]
    | get given => cases given
    | init calls => cases calls
  · intro past m calling closure reached calls isClosure isInitializer acceptable shallow
    have enters := enters_of_closure calls isClosure acceptable shallow
    obtain ⟨receiver, bound⟩ : ∃ receiver, closure.BoundTo past m receiver := by
      refine (reached.origin_of_closure (isClosure ▸ (Calling.offers calls).1)).resolve_left ?_
      rintro ⟨_, _, _, _, _, _, same⟩
      rw [same] at isInitializer
      cases isInitializer
    exact ⟨_, receiver, enters, advance_activation enters.begins, rfl, bound,
      bound.answers reached isInitializer enters⟩
  · intro past m saved line env reached waits
    exact reached.receiver_of_finishCall waits

/-! ## An initializer that is inherited -/

namespace Inherited

/-- A class whose initializer is inherited and calls that of its superclass; it is called again. -/
def text : String :=
  "class A \x7b init() \x7b this; \x7d \x7d " ++
    "class B < A \x7b init() \x7b super.init(); \x7d \x7d class C < B \x7b\x7d C().init();"

/-- What the run of a program comes to after some steps. -/
def after (steps : Nat) (program : Program) : Machine :=
  ((Session.fresh .unlimited .unlimited false).begin 0 program).advanced
    (fun _ => .error .missing) steps

/-- Whether a class that has an initializer is called, with as many arguments as it takes. -/
def callsClass (m : Machine) : Bool :=
  match m.calling? with
  | some ⟨.cls cls, args, _, _⟩ => cls.initializer?.isSome && cls.arity == args.length &&
      decide (m.state.context.depth < 20000)
  | _ => false

/-- Whether an initializer is called, with as many arguments as it takes. -/
def callsInitializer (m : Machine) : Bool :=
  match m.calling? with
  | some ⟨.closure closure, args, _, _⟩ => closure.isInitializer && closure.arity == args.length &&
      decide (m.state.context.depth < 20000)
  | _ => false

/-- Whether a method is read from an instance. -/
def bindsGot (m : Machine) : Bool :=
  match m with
  | ⟨.give (.value (.inst _)), .get name :: _, _⟩ => m.binding?.isSome && name.lexeme == "init"
  | _ => false

/-- Whether a method of the superclass is read. -/
def bindsSuper (m : Machine) : Bool :=
  match m with
  | ⟨.eval (.super _ name), _, _⟩ => m.binding?.isSome && name.lexeme == "init"
  | _ => false

def evaluatesThis (m : Machine) : Bool :=
  match m.control with
  | .eval (.this _) => true
  | _ => false

/-- Whether an initializer that was called itself is about to end. -/
def answersReceiver (m : Machine) : Bool :=
  match m.tasks with
  | .finishCall _ _ (.receiver _) :: _ => true
  | _ => false

/-- Whether the run comes to all these, one after another. -/
def comesToAll (program : Program) : Bool :=
  callsClass (after 12 program) && bindsSuper (after 16 program) &&
    callsInitializer (after 17 program) && evaluatesThis (after 20 program) &&
    answersReceiver (after 22 program) && bindsGot (after 25 program)

section Shapes

variable {m : Machine}

theorem exists_of_callsClass (computed : callsClass m = true) :
    ∃ calling cls init, m.calling? = some calling ∧ calling.callee = .cls cls ∧
      cls.initializer? = some init ∧ calling.Acceptable ∧ m.state.context.depth < 20000 := by
  unfold callsClass at computed
  split at computed
  · next cls args paren rest calls =>
      simp only [Bool.and_eq_true, beq_iff_eq, decide_eq_true_eq] at computed
      obtain ⟨⟨hasInit, arity⟩, shallow⟩ := computed
      obtain ⟨init, found⟩ := Option.isSome_iff_exists.mp hasInit
      exact ⟨_, cls, init, calls, rfl, found, ⟨_, rfl, by simp [Arity.accepts, arity]⟩, shallow⟩
  · cases computed

theorem exists_of_callsInitializer (computed : callsInitializer m = true) :
    ∃ calling closure, m.calling? = some calling ∧ calling.callee = .closure closure ∧
      closure.isInitializer = true ∧ calling.Acceptable ∧ m.state.context.depth < 20000 := by
  unfold callsInitializer at computed
  split at computed
  · next closure args paren rest calls =>
      simp only [Bool.and_eq_true, beq_iff_eq, decide_eq_true_eq] at computed
      obtain ⟨⟨isInitializer, arity⟩, shallow⟩ := computed
      exact ⟨_, closure, calls, rfl, isInitializer, ⟨_, rfl, by simp [Arity.accepts, arity]⟩,
        shallow⟩
  · cases computed

theorem exists_of_bindsGot (computed : bindsGot m = true) :
    ∃ tasks s receiver name method,
      m = ⟨.give (.value (.inst receiver)), .get name :: tasks, s⟩ ∧
        m.binding? = some (method, receiver) ∧ name.lexeme = "init" := by
  unfold bindsGot at computed
  split at computed
  · next receiver name tasks s =>
      obtain ⟨binds, isInit⟩ := Bool.and_eq_true_iff.mp computed
      obtain ⟨⟨method, other⟩, binds⟩ := Option.isSome_iff_exists.mp binds
      obtain rfl : other = receiver := by
        cases Machine.bindsMethod_of_binding binds with
        | super now => cases now
        | get given =>
            cases given
            rfl
        | init calls => cases calls
      exact ⟨tasks, s, other, name, method, rfl, binds, eq_of_beq isInit⟩
  · cases computed

theorem exists_of_bindsSuper (computed : bindsSuper m = true) :
    ∃ tasks s receiver keyword name method, m = ⟨.eval (.super keyword name), tasks, s⟩ ∧
      m.binding? = some (method, receiver) ∧ name.lexeme = "init" := by
  unfold bindsSuper at computed
  split at computed
  · next keyword name tasks s =>
      obtain ⟨binds, isInit⟩ := Bool.and_eq_true_iff.mp computed
      obtain ⟨⟨method, receiver⟩, binds⟩ := Option.isSome_iff_exists.mp binds
      exact ⟨tasks, s, receiver, keyword, name, method, rfl, binds, eq_of_beq isInit⟩
  · cases computed

theorem exists_of_evaluatesThis (computed : evaluatesThis m = true) :
    ∃ keyword, m.control = .eval (.this keyword) := by
  unfold evaluatesThis at computed
  split at computed
  · next keyword now => exact ⟨keyword, now⟩
  · cases computed

theorem exists_of_answersReceiver (computed : answersReceiver m = true) :
    ∃ saved line env, .finishCall saved line (.receiver env) ∈ m.tasks := by
  unfold answersReceiver at computed
  split at computed
  · next saved line env rest waits => exact ⟨saved, line, env, waits ▸ List.mem_cons_self⟩
  · cases computed

end Shapes

end Inherited

open Inherited in
/--
An inherited initializer is run on the new instance, calls that of its superclass for it, and is
read from it and bound to it again.
-/
theorem receivers_fixed_through_super :
    ∃ program, Program.compile 0 text = .ok program ∧
      (∃ past calling cls a, Reached past (after 12 program) ∧
        (after 12 program).calling? = some calling ∧ calling.callee = .cls cls ∧
        calling.Enters (after 12 program) a ∧
        a.Answers (.inst ⟨(after 12 program).state.store.objects.size, cls⟩)) ∧
      (∃ tasks s receiver keyword name method,
        after 16 program = ⟨.eval (.super keyword name), tasks, s⟩ ∧
        (after 16 program).binding? = some (method, receiver) ∧ method.isInitializer = true ∧
        ∃ (closure : Closure) (past : Past) (n : Machine), closure.decl = method.decl ∧
          closure.BoundTo past n receiver) ∧
      (∃ past calling closure a receiver, Reached past (after 17 program) ∧
        (after 17 program).calling? = some calling ∧ calling.callee = .closure closure ∧
        (closure.Declared past (after 17 program) ∨
          ∃ receiver, closure.BoundTo past (after 17 program) receiver) ∧
        calling.Enters (after 17 program) a ∧ closure.BoundTo past (after 17 program) receiver ∧
        a.Answers (.inst receiver) ∧
        (after 17 program).state.store.valueIn? closure.env.frame "this" = some (.inst receiver) ∧
        ∃ (other : Closure) (bound : Instance), other.BoundTo past (after 17 program) bound ∧
          other.env.frame = closure.env.frame) ∧
      (∃ past keyword a receiver, Reached past (after 20 program) ∧
        (after 20 program).control = .eval (.this keyword) ∧
        (after 20 program).InBodyOf past a ∧ a.closure.BoundTo past (after 20 program) receiver) ∧
      (∃ saved line env receiver, .finishCall saved line (.receiver env) ∈ (after 22 program).tasks ∧
        (after 22 program).state.store.getAt? env 0 "this" = some (.inst receiver)) ∧
      ∃ tasks s receiver name method,
        after 25 program = ⟨.give (.value (.inst receiver)), .get name :: tasks, s⟩ ∧
        (after 25 program).binding? = some (method, receiver) ∧ method.isInitializer = true := by
  obtain ⟨program, compiled, comes⟩ :=
    exists_of_compilesTo (show compilesTo comesToAll text = true by decide +kernel)
  have reached (steps : Nat) : ∃ past, Reached past (after steps program) :=
    ((Reached.fresh .unlimited 0).begin compiled).advanced (fun _ => .error .missing) steps
  simp only [comesToAll, Bool.and_eq_true] at comes
  obtain ⟨⟨⟨⟨⟨isClass, isSuper⟩, isInit⟩, isThis⟩, isAnswer⟩, isGot⟩ := comes
  refine ⟨program, compiled, ?_, ?_, ?_, ?_, ?_, ?_⟩
  · obtain ⟨past, here⟩ := reached 12
    obtain ⟨calling, cls, init, calls, called, found, acceptable, shallow⟩ :=
      exists_of_callsClass isClass
    obtain ⟨_, _, made⟩ := receivers_are_fixed.2.2.2.2.2.1 past _ calling cls here calls called
      acceptable shallow
    rw [← Class.findMethod?_eq, show cls.findMethod? "init" = some init from found] at made
    obtain ⟨a, enters, _, _, _, answers⟩ := made
    exact ⟨past, calling, cls, a, here, calls, called, enters, answers⟩
  · obtain ⟨past, here⟩ := reached 16
    obtain ⟨tasks, s, receiver, keyword, name, method, next, binds, named⟩ :=
      exists_of_bindsSuper isSuper
    obtain ⟨closure, same, _, bound, _⟩ := receivers_are_fixed.2.1 past _ method receiver
      (fun _ => .error .missing) here binds
    have isInitializer := receivers_are_fixed.2.2.2.2.2.2.2.1 past tasks s receiver keyword name
      method (next ▸ here) (next ▸ binds)
    rw [named] at isInitializer
    exact ⟨tasks, s, receiver, keyword, name, method, next, binds, isInitializer, closure, _, _, same,
      bound⟩
  · obtain ⟨past, here⟩ := reached 17
    obtain ⟨calling, closure, calls, called, isInitializer, acceptable, shallow⟩ :=
      exists_of_callsInitializer isInit
    obtain ⟨a, receiver, enters, _, _, bound, answers⟩ :=
      receivers_are_fixed.2.2.2.2.2.2.2.2.1 past _ calling closure here calls called isInitializer
        acceptable shallow
    have origin := receivers_are_fixed.2.2.2.2.1 past _ closure here
      (called ▸ (Machine.Calling.offers calls).1)
    obtain ⟨_, held⟩ := receivers_are_fixed.2.2.1 past _ closure receiver here bound past _ .here
    obtain ⟨⟨other, instance', isBound, sameFrame, _⟩, _⟩ :=
      receivers_are_fixed.1 past _ closure.env.frame _ here held
    exact ⟨past, calling, closure, a, receiver, here, calls, called, origin, enters, bound, answers,
      held, other, instance', isBound, sameFrame⟩
  · obtain ⟨past, here⟩ := reached 20
    obtain ⟨keyword, evaluates⟩ := exists_of_evaluatesThis isThis
    obtain ⟨a, receiver, inBody, bound, _⟩ :=
      receivers_are_fixed.2.2.2.1 past _ keyword here evaluates
    exact ⟨past, keyword, a, receiver, here, evaluates, inBody, bound⟩
  · obtain ⟨past, here⟩ := reached 22
    obtain ⟨saved, line, env, waits⟩ := exists_of_answersReceiver isAnswer
    obtain ⟨receiver, held⟩ :=
      receivers_are_fixed.2.2.2.2.2.2.2.2.2 past _ saved line env here waits
    exact ⟨saved, line, env, receiver, waits, held⟩
  · obtain ⟨past, here⟩ := reached 25
    obtain ⟨tasks, s, receiver, name, method, next, binds, named⟩ := exists_of_bindsGot isGot
    have isInitializer := receivers_are_fixed.2.2.2.2.2.2.1 past tasks s receiver name method
      (next ▸ here) (next ▸ binds)
    rw [named] at isInitializer
    exact ⟨tasks, s, receiver, name, method, next, binds, isInitializer⟩

/-- The call of the class in the body of the descent. -/
def Descent.classCall (identity : Nat) (waiting : List Task) : Machine.Calling :=
  ⟨.cls (cls identity), [], mark .rightParen ")" 3, waiting⟩

theorem Descent.calling?_classCall (identity : Nat) (waiting : List Task) (s : State) :
    Machine.calling? ⟨.give (.value (.cls (cls identity))),
      .firstArgument (mark .rightParen ")" 3) [] :: waiting, s⟩ = some (classCall identity waiting) :=
  rfl

/--
At the limit a call of a class that accepts its arguments is refused: it makes no instance, and
fails.
-/
theorem class_call_refused_at_limit :
    ∃ past m calling cls, Program.compile 0 Descent.text = .ok Descent.program ∧ Reached past m ∧
      (∃ steps, m = ((Session.fresh .unlimited .unlimited false).begin 0 Descent.program).advanced
        (fun _ => .error .missing) steps) ∧
      m.calling? = some calling ∧ calling.callee = .cls cls ∧ calling.Acceptable ∧
      (Machine.advance (fun _ => .error .missing) m).control =
        .give (.failAt calling.paren .stackOverflow) ∧
      (Machine.advance (fun _ => .error .missing) m).state.store.objects.size =
        m.state.store.objects.size := by
  obtain ⟨identity, waiting, t, deep, leads⟩ := Descent.leads_refused fun _ => .error .missing
  obtain ⟨past, reached⟩ :=
    leads.reached ((Reached.fresh .unlimited 0).begin Descent.compile_text)
  have acceptable : (Descent.classCall identity waiting).Acceptable := ⟨_, rfl, rfl⟩
  have calls := Descent.calling?_classCall identity waiting t
  have refused := acceptable.refused calls (Nat.le_of_eq deep.symm) fun _ => .error .missing
  refine ⟨past, _, Descent.classCall identity waiting, _, Descent.compile_text, reached,
    leads.imp fun _ same => same.symm, calls, rfl, acceptable, congrArg Machine.control refused, ?_⟩
  rw [refused]
  rfl

end Lox
