import Lox.Proofs.Activations

/-!
# What a step writes

A step leaves the frames and the objects of the store as they are, but for what it writes: a binding
of a declaration, of an assignment or of a frame that it makes, or a field.  What it writes is told
by what the machine is about to do.
-/

namespace Lox

/-! ## Changes of stores -/

/--
A later store, in which some bindings and some fields may have been written.  Whatever was not
written is as before; frames and objects are only added, and identities only given out.
-/
structure Store.ChangedBy (binds sets : Nat → String → Value → Prop) (store later : Store) : Prop where
  frameCount : store.frames.size ≤ later.frames.size
  objectCount : store.objects.size ≤ later.objects.size
  identities : store.nextIdentity ≤ later.nextIdentity
  bindings : ∀ frame name, later.valueIn? frame name = store.valueIn? frame name ∨
    ∃ value, binds frame name value ∧ later.valueIn? frame name = some value
  fields : ∀ object name, later.field? object name = store.field? object name ∨
    ∃ value, sets object name value ∧ later.field? object name = some value

namespace Store.ChangedBy

variable {binds sets : Nat → String → Value → Prop} {store later last : Store}

theorem refl : store.ChangedBy binds sets store :=
  ⟨Nat.le_refl _, Nat.le_refl _, Nat.le_refl _, fun _ _ => .inl rfl, fun _ _ => .inl rfl⟩

theorem trans (first : store.ChangedBy binds sets later) (next : later.ChangedBy binds sets last) :
    store.ChangedBy binds sets last := by
  refine ⟨first.frameCount.trans next.frameCount, first.objectCount.trans next.objectCount,
    first.identities.trans next.identities, fun frame name => ?_, fun object name => ?_⟩
  · rcases next.bindings frame name with same | written
    · rw [same]
      exact first.bindings frame name
    · exact .inr written
  · rcases next.fields object name with same | written
    · rw [same]
      exact first.fields object name
    · exact .inr written

theorem define {frame : Nat} {name : String} {value : Value} (written : binds frame name value) :
    store.ChangedBy binds sets (store.define frame name value) := by
  refine ⟨Nat.le_of_eq Array.size_modify.symm, Nat.le_refl _, Nat.le_refl _, fun other name' => ?_,
    fun _ _ => .inl rfl⟩
  unfold Store.valueIn?
  by_cases made : frame < store.frames.size
  · rw [store.bindings_define made]
    split
    · next same =>
        rw [Bindings.find?_insert, same]
        split
        · next isName => exact .inr ⟨value, isName ▸ written, rfl⟩
        · exact .inl rfl
    · exact .inl rfl
  · rw [store.bindings_define_of_size_le (Nat.le_of_not_lt made)]
    exact .inl rfl

theorem newFrame {bindings : Bindings Value}
    (written : ∀ name value, bindings.find? name = some value → binds store.frames.size name value) :
    store.ChangedBy binds sets (store.newFrame bindings).2 := by
  refine ⟨?_, Nat.le_refl _, Nat.le_refl _, fun frame name => ?_, fun _ _ => .inl rfl⟩
  · rw [Store.frames_newFrame]
    exact Nat.le_succ _
  · unfold Store.valueIn?
    by_cases new : frame = store.frames.size
    · rw [new, Store.bindings_newFrame_size, Store.bindings_of_size_le _ (Nat.le_refl _)]
      cases found : bindings.find? name with
      | none => exact .inl rfl
      | some value => exact .inr ⟨value, written name value found, rfl⟩
    · rw [Store.bindings_newFrame_of_ne _ _ new]
      exact .inl rfl

theorem newIdentity : store.ChangedBy binds sets store.newIdentity.2 :=
  ⟨Nat.le_refl _, Nat.le_refl _, Nat.le_succ _, fun _ _ => .inl rfl, fun _ _ => .inl rfl⟩

theorem newObject : store.ChangedBy binds sets store.newObject.2 := by
  refine ⟨Nat.le_refl _, ?_, Nat.le_refl _, fun _ _ => .inl rfl, fun object name => .inl ?_⟩
  · simp [Store.newObject]
  · rw [Store.field?, Store.fields_newObject, ← Store.field?]

theorem setField {object : Nat} {name : String} {value : Value} (written : sets object name value) :
    store.ChangedBy binds sets (store.setField object name value) := by
  refine ⟨Nat.le_refl _, Nat.le_of_eq Array.size_modify.symm, Nat.le_refl _, fun _ _ => .inl rfl,
    fun other name' => ?_⟩
  unfold Store.field?
  by_cases made : object < store.objects.size
  · rw [store.fields_setField made]
    split
    · next same =>
        rw [Bindings.find?_insert, same]
        split
        · next isName => exact .inr ⟨value, isName ▸ written, rfl⟩
        · exact .inl rfl
    · exact .inl rfl
  · rw [store.fields_setField_of_size_le (Nat.le_of_not_lt made)]
    exact .inl rfl

end Store.ChangedBy

/-! ## What the next step is about to write -/

namespace Machine

/-- The method that a call binds to the instance that it makes. -/
def Calling.binding? (calling : Calling) (s : State) : Option (Method × Instance) :=
  match refusal? calling.callee.arity? calling.args.length s.context.depth with
  | some _ => none
  | none =>
    match calling.callee with
    | .cls cls => cls.initializer?.map fun init => (init, ⟨s.store.objects.size, cls⟩)
    | _ => none

/-- The method that the next step binds, and the receiver that it binds it to. -/
def binding? (m : Machine) : Option (Method × Instance) :=
  match m with
  | ⟨.eval (.super keyword name), _, s⟩ =>
    (s.superOf? keyword).bind fun found =>
      (found.1.findMethod? name.lexeme).map fun method => (method, found.2)
  | ⟨.give (.value object), .get name :: _, s⟩ =>
    match object with
    | .inst receiver =>
      match s.store.field? receiver.object name.lexeme with
      | some _ => none
      | none => (receiver.cls.findMethod? name.lexeme).map fun method => (method, receiver)
    | _ => none
  | m => m.calling?.bind fun calling => calling.binding? m.state

/-- The ways in which the next step may bind a method to a receiver. -/
inductive BindsMethod (m : Machine) (method : Method) (receiver : Instance) : Prop where
  | super {keyword : Reference} {name : Token} {superclass : Class}
      (now : m.control = .eval (.super keyword name))
      (stands : m.state.superOf? keyword = some (superclass, receiver))
      (found : superclass.findMethod? name.lexeme = some method)
  | get {name : Token} {rest : List Task} (given : m.control = .give (.value (.inst receiver)))
      (waits : m.tasks = .get name :: rest)
      (noField : m.state.store.field? receiver.object name.lexeme = none)
      (found : receiver.cls.findMethod? name.lexeme = some method)
  | init {calling : Calling} {cls : Class} (calls : m.calling? = some calling)
      (isClass : calling.callee = .cls cls)
      (accepted : refusal? calling.callee.arity? calling.args.length m.state.context.depth = none)
      (found : cls.initializer? = some method)
      (made : receiver = ⟨m.state.store.objects.size, cls⟩)

theorem bindsMethod_of_binding {m : Machine} {method : Method} {receiver : Instance}
    (binds : m.binding? = some (method, receiver)) : m.BindsMethod method receiver := by
  unfold binding? at binds
  split at binds
  · obtain ⟨⟨superclass, receiver⟩, stands, binds⟩ := Option.bind_eq_some_iff.mp binds
    obtain ⟨method, found, same⟩ := Option.map_eq_some_iff.mp binds
    cases same
    exact .super rfl stands found
  · split at binds
    · split at binds
      · cases binds
      · next noField =>
          obtain ⟨method, found, same⟩ := Option.map_eq_some_iff.mp binds
          cases same
          exact .get rfl rfl noField found
    · cases binds
  · obtain ⟨calling, calls, binds⟩ := Option.bind_eq_some_iff.mp binds
    unfold Calling.binding? at binds
    split at binds
    · cases binds
    · next accepted =>
        split at binds
        · next cls isClass =>
            obtain ⟨method, found, same⟩ := Option.map_eq_some_iff.mp binds
            cases same
            exact .init calls isClass accepted found rfl
        · cases binds

/-- The next step declares a class with the given methods, below the class that it names. -/
def Declares (m : Machine) (methods : List FunDecl) (superclass : Class) : Prop :=
  ∃ name reference, m.control = .exec (.classDecl name (some reference) methods) ∧
    m.state.read reference = .value (.cls superclass)

end Machine

/-- The class that a declaration makes. -/
def State.classMade (s : State) (name : Token) (superclass : Option Class)
    (methods : List FunDecl) : Class :=
  .mk s.store.nextIdentity name.lexeme superclass (State.methodTable
    (match superclass with
      | none => s.context.env
      | some _ => s.context.env.branch s.store.frames.size) methods)

/-- The next step declares a class of the given name. -/
inductive Machine.DeclaresClass (m : Machine) (name : Token) : Class → Prop where
  | root {methods : List FunDecl} (now : m.control = .exec (.classDecl name none methods)) :
      DeclaresClass m name (m.state.classMade name none methods)
  | derived {reference : Reference} {methods : List FunDecl} {superclass : Class}
      (now : m.control = .exec (.classDecl name (some reference) methods))
      (read : m.state.read reference = .value (.cls superclass)) :
      DeclaresClass m name (m.state.classMade name (some superclass) methods)

/-- The frame in which a reference is assigned to. -/
def State.place? (target : Reference) (s : State) : Option Nat :=
  match s.hops[target.id]? with
  | some distance => s.context.env.ancestor? distance
  | none => some 0

namespace Machine

/-- The next step binds a name in a frame to a value. -/
inductive Binds (m : Machine) : Nat → String → Value → Prop where
  | uninitialized {name : Token} (now : m.control = .exec (.varDecl name none)) :
      Binds m m.state.context.env.frame name.lexeme .nil
  | initialized {name : Token} {value : Value} {rest : List Task}
      (given : m.control = .give (.value value)) (waits : m.tasks = .define name :: rest) :
      Binds m m.state.context.env.frame name.lexeme value
  | function {decl : FunDecl} (now : m.control = .exec (.funDecl decl)) :
      Binds m m.state.context.env.frame decl.name.lexeme
        (.closure ⟨m.state.store.nextIdentity, decl, m.state.context.env, false⟩)
  | cls {name : Token} {cls : Class} (declares : m.DeclaresClass name cls) :
      Binds m m.state.context.env.frame name.lexeme (.cls cls)
  | assigned {target : Reference} {value : Value} {rest : List Task} {frame : Nat}
      (given : m.control = .give (.value value)) (waits : m.tasks = .assign target :: rest)
      (there : m.state.place? target = some frame) : Binds m frame target.name.lexeme value
  | superclass {methods : List FunDecl} {superclass : Class}
      (declares : m.Declares methods superclass) :
      Binds m m.state.store.frames.size "super" (.cls superclass)
  | receiver {method : Method} {receiver : Instance}
      (binds : m.binding? = some (method, receiver)) :
      Binds m m.state.store.frames.size "this" (.inst receiver)
  | parameter {a : Activation} {param : Token} {value : Value} (begins : m.activation? = some a)
      (listed : param ∈ a.closure.decl.params) (given : value ∈ a.args) :
      Binds m a.frame param.lexeme value

/-- The next step sets a field of an object to a value. -/
inductive Sets (m : Machine) : Nat → String → Value → Prop where
  | field {inst : Instance} {name : Token} {value : Value} {rest : List Task}
      (given : m.control = .give (.value value)) (waits : m.tasks = .set inst name :: rest) :
      Sets m inst.object name.lexeme value

/-! ## Steps -/

section Steps

variable {m : Machine}

/-- A store that has changed by what the machine is about to write. -/
abbrev Changes (m : Machine) (later : Store) : Prop :=
  m.state.store.ChangedBy m.Binds m.Sets later

theorem changes_bindMethod {s : State} {method : Method} {receiver : Instance}
    (binds : m.binding? = some (method, receiver)) (changed : m.Changes s.store)
    (same : s.store.frames.size = m.state.store.frames.size) :
    m.Changes (s.bindMethod method receiver).2.store := by
  rw [State.bindMethod_eq]
  refine changed.trans (.trans (.newFrame fun name value found => ?_) .newIdentity)
  cases List.mem_singleton.mp (Bindings.mem_of_find? found)
  rw [same]
  exact .receiver binds

theorem changes_activation {a : Activation} (begins : m.activation? = some a)
    (changed : m.Changes a.state.store) : m.Changes a.machine.state.store := by
  rw [a.store_machine]
  refine changed.trans (.newFrame fun name value found => ?_)
  obtain ⟨⟨param, listed, rfl⟩, given⟩ := mem_of_bindParameters found
  exact .parameter begins listed given

theorem binding?_calling {calling : Calling} (calls : m.calling? = some calling) :
    m.binding? = calling.binding? m.state := by
  unfold calling? at calls
  split at calls
  · cases calls
    rfl
  · cases calls
    rfl
  · cases calls

/-- The initializer that a call runs is bound to the instance that it makes. -/
theorem binding?_init {calling : Calling} {cls : Class} {init : Method}
    (calls : m.calling? = some calling) (isClass : calling.callee = .cls cls)
    (accepted : refusal? calling.callee.arity? calling.args.length m.state.context.depth = none)
    (found : cls.initializer? = some init) :
    m.binding? = some (init, ⟨m.state.store.objects.size, cls⟩) := by
  rw [binding?_calling calls, Calling.binding?, accepted]
  simp [isClass, found]

theorem changes_callNative {native : Native} {args : List Value} {line : Nat} {tasks : List Task} :
    m.Changes (callNative native args line tasks m.state).state.store := by
  have calls := callNative_calls native args line tasks m.state
  generalize callNative native args line tasks m.state = n at calls ⊢
  cases calls <;> exact .refl

/-- A call may bind an initializer, and enter a body. -/
theorem changes_calling {calling : Calling} (calls : m.calling? = some calling)
    (files : String → Except Failure String) : m.Changes (m.advance files).state.store := by
  have called := calls_advance calls files
  generalize m.advance files = n at called ⊢
  cases called with
  | refused => exact .refl
  | native => exact changes_callNative
  | made => exact .newObject
  | entered begins =>
      refine changes_activation begins ?_
      cases activates_of_activation begins with
      | closure => exact .refl
      | @init calling cls init calls isClass accepted found =>
          exact changes_bindMethod (s := { m.state with store := m.state.store.newObject.2 })
            (binding?_init calls isClass accepted found) .newObject rfl

theorem changes_getProperty {object : Value} {name : Token} {tasks : List Task} {s : State}
    (next : m = ⟨.give (.value object), .get name :: tasks, s⟩) :
    m.Changes (getProperty object name tasks s).state.store := by
  subst next
  unfold getProperty
  split
  · next receiver =>
      split
      · exact .refl
      · next noField =>
          split
          · next method found =>
              have binds : binding? ⟨.give (.value (.inst receiver)), .get name :: tasks, s⟩ =
                  some (method, receiver) := by
                simp [binding?, noField, found]
              exact changes_bindMethod binds .refl rfl
          · exact .refl
  · exact .refl

theorem changes_getSuper {keyword : Reference} {name : Token} {tasks : List Task} {s : State}
    (next : m = ⟨.eval (.super keyword name), tasks, s⟩) :
    m.Changes (getSuper keyword name tasks s).state.store := by
  subst next
  unfold getSuper
  split
  · exact .refl
  · next superclass receiver stands =>
      split
      · next method found =>
          have binds : binding? ⟨.eval (.super keyword name), tasks, s⟩ =
              some (method, receiver) := by
            simp [binding?, stands, found]
          exact changes_bindMethod binds .refl rfl
      · exact .refl

theorem changes_declareClass {name : Token} {superclass : Option Class} {methods : List FunDecl}
    (declares : m.DeclaresClass name (m.state.classMade name superclass methods))
    (above : ∀ parent ∈ superclass, m.Declares methods parent) :
    m.Changes (m.state.declareClass name superclass methods).store := by
  unfold State.declareClass
  rw [State.newIdentity_eq]
  cases superclass with
  | none => exact .trans .newIdentity (.define (.cls declares))
  | some parent =>
      dsimp only
      rw [State.extend_eq]
      refine .trans .newIdentity (.trans (.newFrame fun other value found => ?_)
        (.define (.cls declares)))
      cases List.mem_singleton.mp (Bindings.mem_of_find? found)
      exact .superclass (above parent rfl)

theorem changes_execute {stmt : Stmt} {tasks : List Task} {s : State}
    (next : m = ⟨.exec stmt, tasks, s⟩) : m.Changes (execute stmt tasks s).state.store := by
  subst next
  cases stmt with
  | block body =>
      unfold execute
      dsimp only
      rw [State.extend_eq]
      exact .newFrame nofun
  | classDecl name superclass methods =>
      cases superclass with
      | none => exact changes_declareClass (.root rfl) nofun
      | some reference =>
          unfold execute
          dsimp only
          split
          · next parent read =>
              exact changes_declareClass (.derived rfl read) fun _ isParent => by
                cases isParent
                exact ⟨name, reference, rfl, read⟩
          · exact .refl
          · exact .refl
  | funDecl decl =>
      unfold execute
      dsimp only
      rw [State.makeClosure_eq]
      exact .trans .newIdentity (.define (.function rfl))
  | ret keyword value => cases value <;> exact .refl
  | varDecl name init =>
      cases init with
      | none => exact .define (.uninitialized rfl)
      | some init => exact .refl
  | _ => exact .refl

theorem changes_assign {target : Reference} {value : Value} {rest : List Task}
    (given : m.control = .give (.value value)) (waits : m.tasks = .assign target :: rest) :
    m.Changes (m.state.assign target value).2.store := by
  have assigned {frame : Nat} (there : m.state.place? target = some frame) :
      m.Binds frame target.name.lexeme value := .assigned given waits there
  unfold State.place? at assigned
  rw [State.assign_eq]
  dsimp only
  split
  · next distance located =>
      rw [located] at assigned
      unfold Store.assignAt
      split
      · next frame there => exact .define (assigned there)
      · exact .refl
  · next global =>
      rw [global] at assigned
      unfold Store.assign
      split
      · next frame holds =>
          have inside := List.mem_of_find?_eq_some holds
          cases List.mem_singleton.mp inside
          exact .define (assigned rfl)
      · exact .refl

theorem changes_resume {value : Value} {task : Task} {tasks : List Task} {s : State}
    (next : m = ⟨.give (.value value), task :: tasks, s⟩)
    (files : String → Except Failure String) : m.Changes (resume value task tasks s).state.store := by
  subst next
  cases task with
  | assign target => exact changes_assign rfl rfl
  | decide operator right =>
      unfold resume
      dsimp only
      split <;> exact .refl
  | firstArgument paren args =>
      cases args with
      | nil => exact changes_calling rfl files
      | cons arg args => exact .refl
  | nextArgument callee before paren args =>
      cases args with
      | nil => exact changes_calling rfl files
      | cons arg args => exact .refl
  | get name => exact changes_getProperty rfl
  | storedValue name stored =>
      unfold resume
      dsimp only
      split <;> exact .refl
  | set inst name => exact .setField (.field rfl rfl)
  | define name => exact .define (.initialized rfl rfl)
  | print line =>
      unfold resume
      dsimp only
      rw [State.writeLine_eq]
      exact .refl
  | choose thenBranch elseBranch =>
      unfold resume
      dsimp only
      split
      · exact .refl
      · split <;> exact .refl
  | loopBody condition body =>
      unfold resume
      dsimp only
      split <;> exact .refl
  | body stmts => cases stmts <;> exact .refl
  | program stmts => cases stmts <;> exact .refl
  | _ => exact .refl

theorem changes_provide (answer : Except Failure String) (path : Token) (place : String)
    (tasks : List Task) : m.Changes (provide answer path place tasks m.state).state.store := by
  unfold provide
  split
  · exact .refl
  · split
    · exact .refl
    · dsimp only
      split <;> exact .refl

/-- A step writes what it is about to write, and nothing else. -/
theorem changes_advance (m : Machine) (files : String → Except Failure String) :
    m.Changes (m.advance files).state.store := by
  obtain ⟨control, tasks, s⟩ := m
  cases control with
  | eval expr =>
      cases expr with
      | super keyword name => exact changes_getSuper rfl
      | _ => exact .refl
  | exec stmt => exact changes_execute rfl
  | give outcome =>
      cases tasks with
      | nil => cases outcome <;> exact .refl
      | cons task tasks =>
          cases outcome with
          | value value => exact changes_resume rfl files
          | returned value => cases task <;> exact .refl
          | failed error => cases task <;> exact .refl
  | awaitFile path place =>
      exact changes_provide (m := ⟨.awaitFile path place, tasks, s⟩) (files place) path place tasks
  | exited code => exact .refl

end Steps

end Machine

end Lox
