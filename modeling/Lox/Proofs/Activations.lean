import Lox.Proofs.Sequel

/-!
# Activations of functions

A call of a function, of a method or of a class with an initializer enters a body, in a frame
that was not there before.
-/

namespace Lox

/-- What is found once some names were bound was bound to the name, or was there before. -/
theorem Bindings.find?_foldl_insert {α β : Type} {key : β → String} {bound : β → α}
    {items : List β} {bindings : Bindings α} {name : String} {value : α}
    (found : (items.foldl (fun (bindings : Bindings α) item =>
      bindings.insert (key item) (bound item)) bindings).find? name = some value) :
    (∃ item ∈ items, key item = name ∧ bound item = value) ∨ bindings.find? name = some value := by
  induction items generalizing bindings with
  | nil => exact .inr found
  | cons item items ih =>
      rcases ih found with ⟨later, held, same⟩ | before
      · exact .inl ⟨later, List.mem_cons_of_mem _ held, same⟩
      · rw [find?_insert] at before
        split at before
        · next isKey =>
            exact .inl ⟨item, List.mem_cons_self, isKey.symm, Option.some.inj before⟩
        · exact .inr before

/-- Parameters are bound to arguments. -/
theorem mem_of_bindParameters {params : List Token} {args : List Value} {name : String}
    {value : Value} (bound : (bindParameters params args).find? name = some value) :
    (∃ param ∈ params, param.lexeme = name) ∧ value ∈ args := by
  rcases Bindings.find?_foldl_insert bound with ⟨pair, held, isName, rfl⟩ | none
  · obtain ⟨param, arg⟩ := List.of_mem_zip held
    exact ⟨⟨pair.1, param, isName⟩, arg⟩
  · cases none

/-- A method of a table was declared in the class, in the environment of its methods. -/
theorem State.mem_of_methodTable {env : Env} {methods : List FunDecl} {name : String}
    {method : Method} (found : (State.methodTable env methods).find? name = some method) :
    method.decl ∈ methods ∧ method.env = env ∧ method.name = name := by
  rcases Bindings.find?_foldl_insert found with ⟨decl, held, isName, rfl⟩ | none
  · exact ⟨held, rfl, isName⟩
  · cases none

/-- A call of a closure that is entered in a state, above the tasks that wait for its answer. -/
structure Activation where
  closure : Closure
  args : List Value
  line : Nat
  answer : Answer
  rest : List Task
  state : State

namespace Activation

/-- The machine that has entered the body. -/
def machine (a : Activation) : Machine :=
  .enter a.closure a.args a.line a.answer a.rest a.state

/-- The frame that binds the parameters, and the variables of the body. -/
def frame (a : Activation) : Nat := a.state.store.frames.size

/-- What waits for the body to end. -/
def waiting (a : Activation) : List Task :=
  .finishCall a.state.context a.line a.answer :: a.rest

theorem machine_eq (a : Activation) :
    a.machine = ⟨.give .nil, .body a.closure.decl.body :: a.waiting,
      { a.state with
        store := (a.state.store.newFrame (bindParameters a.closure.decl.params a.args)).2
        context := ⟨a.closure.env.branch a.frame, a.state.context.base,
          a.state.context.depth + 1⟩ }⟩ := by
  obtain ⟨closure, args, line, answer, rest, s⟩ := a
  cases s
  rfl

theorem env_machine (a : Activation) :
    a.machine.state.context.env = a.closure.env.branch a.frame := by rw [machine_eq]

theorem store_machine (a : Activation) :
    a.machine.state.store =
      (a.state.store.newFrame (bindParameters a.closure.decl.params a.args)).2 := by
  rw [machine_eq]

end Activation

namespace Machine

/-- A call that the next step makes: of what, with which arguments, where, above which tasks. -/
structure Calling where
  callee : Value
  args : List Value
  paren : Token
  rest : List Task

/-- The call that the next step makes, refused or not. -/
def calling? (m : Machine) : Option Calling :=
  match m with
  | ⟨.give (.value callee), .firstArgument paren [] :: rest, _⟩ => some ⟨callee, [], paren, rest⟩
  | ⟨.give (.value value), .nextArgument callee before paren [] :: rest, _⟩ =>
    some ⟨callee, (value :: before).reverse, paren, rest⟩
  | _ => none

/-- The body that a call of a value enters, if it is one of a function or of an initializer. -/
def Calling.activation? (calling : Calling) (s : State) : Option Activation :=
  match refusal? calling.callee.arity? calling.args.length s.context.depth with
  | some _ => none
  | none =>
    match calling.callee with
    | .closure closure =>
      some ⟨closure, calling.args, calling.paren.line,
        if closure.isInitializer then .receiver closure.env else .result, calling.rest, s⟩
    | .cls cls =>
      cls.initializer?.map fun init =>
        let (inst, made) := s.newInstance cls
        let (closure, bound) := made.bindMethod init inst
        ⟨closure, calling.args, calling.paren.line, .made inst, calling.rest, bound⟩
    | _ => none

/-- The activation that begins with the next step. -/
def activation? (m : Machine) : Option Activation :=
  m.calling?.bind fun calling => calling.activation? m.state

theorem advance_calling {m : Machine} {calling : Calling} (calls : m.calling? = some calling)
    (files : String → Except Failure String) :
    m.advance files =
      call calling.callee calling.args calling.paren calling.rest m.state := by
  unfold calling? at calls
  split at calls
  · cases calls
    rfl
  · cases calls
    rfl
  · cases calls

/-- A call that is not refused is carried out by the next step. -/
theorem advance_accepted {m : Machine} {calling : Calling} (calls : m.calling? = some calling)
    (accepted : refusal? calling.callee.arity? calling.args.length m.state.context.depth = none)
    (files : String → Except Failure String) :
    m.advance files =
      invoke calling.callee calling.args calling.paren calling.rest m.state := by
  rw [advance_calling calls, call_of_accepted accepted]

/-- The call of a class without an initializer has the new instance as its value at once. -/
theorem advance_class {m : Machine} {calling : Calling} (calls : m.calling? = some calling)
    {cls : Class} (isClass : calling.callee = .cls cls)
    (accepted : refusal? calling.callee.arity? calling.args.length m.state.context.depth = none)
    (noInit : cls.initializer? = none) (files : String → Except Failure String) :
    calling.args = [] ∧ m.advance files =
      giving (.value (.inst ⟨m.state.store.objects.size, cls⟩)) calling.rest
        { m.state with store := m.state.store.newObject.2 } := by
  refine ⟨?_, ?_⟩
  · have arity : calling.callee.arity? = some (.fixed 0) := by
      rw [isClass, Value.arity?, Class.arity, noInit]
    rw [arity] at accepted
    exact List.eq_nil_of_length_eq_zero (count_of_accepted accepted)
  · rw [advance_accepted calls accepted, isClass]
    unfold invoke instantiate
    dsimp only
    rw [noInit, State.newInstance_eq]

/-- The next step begins the activation. -/
theorem advance_activation {m : Machine} {a : Activation} (begins : m.activation? = some a)
    (files : String → Except Failure String) : m.advance files = a.machine := by
  obtain ⟨calling, calls, begins⟩ := Option.bind_eq_some_iff.mp begins
  unfold Calling.activation? at begins
  split at begins
  · cases begins
  · next accepted =>
      rw [advance_accepted calls accepted]
      split at begins
      · next closure isClosure =>
          cases begins
          rw [isClosure]
          rfl
      · next cls isClass =>
          obtain ⟨init, found, rfl⟩ := Option.map_eq_some_iff.mp begins
          rw [isClass]
          unfold invoke instantiate
          dsimp only
          rw [found]
          rfl
      · cases begins

/-- The body that the call of a closure enters. -/
def Calling.ofClosure (calling : Calling) (closure : Closure) (s : State) : Activation :=
  ⟨closure, calling.args, calling.paren.line,
    if closure.isInitializer then .receiver closure.env else .result, calling.rest, s⟩

/-- The body that the call of a class enters: of its initializer, bound to a new instance. -/
def Calling.ofInitializer (calling : Calling) (cls : Class) (init : Method) (s : State) : Activation :=
  let inst : Instance := ⟨s.store.objects.size, cls⟩
  ⟨⟨s.store.nextIdentity, init.decl, init.env.branch s.store.frames.size, init.isInitializer⟩,
    calling.args, calling.paren.line, .made inst, calling.rest,
    { s with store := (s.store.newObject.2.newFrame [("this", .inst inst)]).2.newIdentity.2 }⟩

/-- The ways in which the next step may begin an activation. -/
inductive Activates (m : Machine) : Activation → Prop where
  | closure {calling : Calling} {closure : Closure} (calls : m.calling? = some calling)
      (isClosure : calling.callee = .closure closure)
      (accepted : refusal? calling.callee.arity? calling.args.length m.state.context.depth = none) :
      Activates m (calling.ofClosure closure m.state)
  | init {calling : Calling} {cls : Class} {init : Method} (calls : m.calling? = some calling)
      (isClass : calling.callee = .cls cls)
      (accepted : refusal? calling.callee.arity? calling.args.length m.state.context.depth = none)
      (found : cls.initializer? = some init) :
      Activates m (calling.ofInitializer cls init m.state)

theorem activates_of_activation {m : Machine} {a : Activation} (begins : m.activation? = some a) :
    m.Activates a := by
  obtain ⟨calling, calls, begins⟩ := Option.bind_eq_some_iff.mp begins
  unfold Calling.activation? at begins
  split at begins
  · cases begins
  · next accepted =>
      split at begins
      · next closure isClosure =>
          cases begins
          exact .closure calls isClosure accepted
      · next cls isClass =>
          obtain ⟨init, found, rfl⟩ := Option.map_eq_some_iff.mp begins
          dsimp only
          rw [State.newInstance_eq, State.bindMethod_eq]
          exact .init calls isClass accepted found
      · cases begins

/-- The calls that begin an activation are those of closures, and of classes with an initializer. -/
theorem Activates.activation {m : Machine} {a : Activation} (activates : m.Activates a) :
    m.activation? = some a := by
  cases activates with
  | closure calls isClosure accepted =>
      rw [activation?, calls, Option.bind_some, Calling.activation?, accepted]
      dsimp only
      rw [isClosure]
      rfl
  | init calls isClass accepted found =>
      rw [activation?, calls, Option.bind_some, Calling.activation?, accepted]
      dsimp only
      rw [isClass]
      dsimp only
      rw [found, Option.map_some, State.newInstance_eq]
      dsimp only
      rw [State.bindMethod_eq]
      rfl

/-- An activation begins in the store of its caller, to which an instance may be added. -/
theorem frames_activation {m : Machine} {a : Activation} (begins : m.activation? = some a) :
    m.state.store.frames.size ≤ a.frame := by
  cases activates_of_activation begins with
  | closure => exact Nat.le_refl _
  | init =>
      dsimp only [Activation.frame, Calling.ofInitializer, Store.newIdentity]
      rw [Store.frames_newFrame]
      exact Nat.le_succ _

/-- What the next step makes of a call. -/
inductive Calls (m : Machine) (calling : Calling) : Machine → Prop where
  | refused (fault : RuntimeFault) :
      Calls m calling (giving (.failAt calling.paren fault) calling.rest m.state)
  | native {native : Native} (isNative : calling.callee = .native native) :
      Calls m calling
        (callNative native calling.args calling.paren.line calling.rest m.state)
  | made {cls : Class} (isClass : calling.callee = .cls cls)
      (accepted : refusal? calling.callee.arity? calling.args.length m.state.context.depth = none)
      (noInit : cls.initializer? = none) :
      Calls m calling (giving (.value (.inst ⟨m.state.store.objects.size, cls⟩)) calling.rest
        { m.state with store := m.state.store.newObject.2 })
  | entered {a : Activation} (begins : m.activation? = some a) : Calls m calling a.machine

theorem calls_advance {m : Machine} {calling : Calling} (calls : m.calling? = some calling)
    (files : String → Except Failure String) : m.Calls calling (m.advance files) := by
  cases accepted : refusal? calling.callee.arity? calling.args.length m.state.context.depth with
  | some fault =>
      rw [advance_calling calls, call_eq, accepted]
      exact .refused fault
  | none =>
      cases called : calling.callee with
      | closure closure =>
          have begins := (Activates.closure calls called accepted).activation
          rw [advance_activation begins]
          exact .entered begins
      | cls cls =>
          cases found : cls.initializer? with
          | none =>
              rw [(advance_class calls called accepted found files).2]
              exact .made called accepted found
          | some init =>
              have begins := (Activates.init calls called accepted found).activation
              rw [advance_activation begins]
              exact .entered begins
      | native native =>
          rw [advance_accepted calls accepted, called]
          exact .native called
      | _ =>
          rw [advance_accepted calls accepted, called]
          exact .refused .notCallable

end Machine

/-- The machine that has begun an activation follows. -/
theorem Sequel.of_activation {past : Past} {m : Machine} {a : Activation}
    (begins : m.activation? = some a) :
    Sequel past m (past.after (fun _ => .error .missing) m) a.machine := by
  rw [← Machine.advance_activation begins fun _ => .error .missing]
  exact .advance _ .here

end Lox
