import Lox.Proofs.Numbers
import Lox.Proofs.Super.Spots

/-!
# What frames bind for good

Programs cannot declare `this` and `super` or assign to them.  So a frame that binds one of them
does so from when it was made, and to the same value ever after: the receiver that a method was
bound to, or the class that the superclass of a declaration was.
-/

namespace Lox

/-- Every frame binds a name as it did before. -/
structure Store.Fixes (name : String) (store later : Store) : Prop where
  frames : store.frames.size ≤ later.frames.size
  values : ∀ frame < store.frames.size, later.valueIn? frame name = store.valueIn? frame name

namespace Store.Fixes

variable {name : String} {store later last : Store}

theorem refl : store.Fixes name store := ⟨Nat.le_refl _, fun _ _ => rfl⟩

theorem trans (first : store.Fixes name later) (next : later.Fixes name last) :
    store.Fixes name last :=
  ⟨first.frames.trans next.frames, fun frame made =>
    (next.values frame (Nat.lt_of_lt_of_le made first.frames)).trans (first.values frame made)⟩

theorem define (frame : Nat) {other : String} (different : other ≠ name) (value : Value) :
    store.Fixes name (store.define frame other value) := by
  refine ⟨Nat.le_of_eq Array.size_modify.symm, fun any _ => ?_⟩
  by_cases made : frame < store.frames.size
  · unfold Store.valueIn?
    rw [store.bindings_define made]
    split
    · next same => rw [Bindings.find?_insert_of_ne different.symm, same]
    · rfl
  · unfold Store.valueIn?
    rw [store.bindings_define_of_size_le (Nat.le_of_not_lt made)]

theorem newFrame (bindings : Bindings Value) :
    store.Fixes name (store.newFrame bindings).2 := by
  rw [Store.newFrame]
  refine ⟨?_, fun frame made => ?_⟩
  · simp
  · have other : frame ≠ store.frames.size := Nat.ne_of_lt made
    exact congrArg (Bindings.find? name) (store.bindings_newFrame_of_ne bindings other)

/-- What a frame binds the name to, it binds it to for good. -/
theorem valueIn? (fixes : store.Fixes name later) {frame : Nat} {value : Value}
    (bound : store.valueIn? frame name = some value) : later.valueIn? frame name = some value := by
  have made : frame < store.frames.size := by
    by_contra notMade
    rw [Store.valueIn?, store.bindings_of_size_le (Nat.le_of_not_lt notMade)] at bound
    cases bound
  exact (fixes.values frame made).trans bound

end Store.Fixes

/-! ## Names that are bound -/

theorem divides_properActs : Divides ProperActs where
  left proper := (List.forall_mem_append.mp proper).1
  right proper := (List.forall_mem_append.mp proper).2

/-- All code of a machine was read from tokens. -/
theorem Reached.proper {past : Past} {m : Machine} (reached : Reached past m) {acts : List Act}
    (held : m.Phrase acts) : ProperActs acts :=
  reached.within divides_properActs
    (fun loaded among => (reached.checked loaded among).properActs) held

/-- Parameters are declared in the walk of their function. -/
theorem exists_parameter {params : List Token} {param : Token} (listed : param ∈ params)
    (seen : List String) : ∃ earlier, .parameter earlier param ∈ actsParameters seen params := by
  induction params generalizing seen with
  | nil => cases listed
  | cons first rest ih =>
      rcases List.mem_cons.mp listed with rfl | later
      · exact ⟨seen, List.mem_cons_self⟩
      · obtain ⟨earlier, among⟩ := ih later (first.lexeme :: seen)
        exact ⟨earlier, List.mem_cons_of_mem _ among⟩

theorem FunDecl.isIdentifier_param {decl : FunDecl} (proper : ProperActs decl.acts) {param : Token}
    (listed : param ∈ decl.params) : IsIdentifier param.lexeme := by
  obtain ⟨name, params, body⟩ := decl
  obtain ⟨seen, among⟩ := exists_parameter listed []
  have isName : (Act.parameter seen param).Proper := proper _ (List.mem_append_left _ among)
  exact isName.isIdentifier

/--
Programs bind names that they can declare, or assign to one in the frame where it is looked for.
Only new frames bind `this` and `super`.
-/
theorem Reached.binds_cases {past : Past} {m : Machine} (reached : Reached past m) {frame : Nat}
    {name : String} {value : Value} (binds : m.Binds frame name value) :
    IsIdentifier name ∨
    (∃ target rest, m.control = .give (.value value) ∧ m.tasks = .assign target :: rest ∧
      m.state.place? target = some frame ∧ name = target.name.lexeme ∧
        target.name.IsOf [.identifier, .printWord]) ∨
    (frame = m.state.store.frames.size ∧ name = "super" ∧
      ∃ methods superclass, m.Declares methods superclass ∧ value = .cls superclass) ∨
    frame = m.state.store.frames.size ∧ name = "this" ∧
      ∃ method receiver, m.binding? = some (method, receiver) ∧ value = .inst receiver := by
  have first {task : Task} {rest : List Task} (waits : m.tasks = task :: rest) : task ∈ m.tasks :=
    waits ▸ List.mem_cons_self
  cases binds with
  | @uninitialized token now =>
      have isName : (Act.declare token).Proper :=
        reached.proper (.code (.exec now)) _ List.mem_cons_self
      exact .inl isName.isIdentifier
  | @initialized token _ _ given waits =>
      have isName : (Act.declare token).Proper :=
        reached.proper (.define (first waits)) _ List.mem_cons_self
      exact .inl isName.isIdentifier
  | @function decl now =>
      have isName : (Act.define decl.name).Proper :=
        reached.proper (.code (.exec now)) _ List.mem_cons_self
      exact .inl isName.isIdentifier
  | @cls token _ declares =>
      have isName : (Act.define token).Proper := by
        cases declares with
        | root now => exact reached.proper (.code (.exec now)) _ List.mem_cons_self
        | derived now _ => exact reached.proper (.code (.exec now)) _ List.mem_cons_self
      exact .inl isName.isIdentifier
  | @assigned target _ rest _ given waits there =>
      have isName : (Act.assign target).Proper :=
        reached.proper (.code (.waiting (first waits) (.assign target))) _ List.mem_cons_self
      exact .inr (.inl ⟨target, rest, given, waits, there, rfl, isName⟩)
  | superclass declares => exact .inr (.inr (.inl ⟨rfl, rfl, _, _, declares, rfl⟩))
  | receiver binds => exact .inr (.inr (.inr ⟨rfl, rfl, _, _, binds, rfl⟩))
  | parameter begins listed given =>
      obtain ⟨value, carries, runs⟩ := Machine.exists_runs_of_activation begins
      have proper := reached.proper (.code (.callable carries runs))
      exact .inl (FunDecl.isIdentifier_param proper listed)

/-- No step changes what the frames bind that are there. -/
theorem Reached.fixes {past : Past} {m : Machine} (reached : Reached past m) {name : String}
    (reserved : Reserved name) (files : String → Except Failure String) :
    m.state.store.Fixes name (m.advance files).state.store := by
  have changes := m.changes_advance files
  refine ⟨changes.frameCount, fun frame made => ?_⟩
  rcases changes.bindings frame name with same | ⟨value, binds, _⟩
  · exact same
  · rcases reached.binds_cases binds with
      isName | ⟨target, _, _, _, _, same, isName⟩ | ⟨new, _⟩ | ⟨new, _⟩
    · exact absurd isName reserved.not_isIdentifier
    · exact absurd same.symm (reserved _ isName)
    · exact absurd new (Nat.ne_of_lt made)
    · exact absurd new (Nat.ne_of_lt made)

/-- Only a method that is bound binds its receiver. -/
theorem Reached.binds_this {past : Past} {m : Machine} (reached : Reached past m) {frame : Nat}
    {value : Value} (binds : m.Binds frame "this" value) :
    frame = m.state.store.frames.size ∧
      ∃ method receiver, m.binding? = some (method, receiver) ∧ value = .inst receiver := by
  rcases reached.binds_cases binds with
    isName | ⟨target, _, _, _, _, same, isName⟩ | ⟨_, isSuper, _⟩ | ⟨new, _, bound⟩
  · exact absurd isName reserved_this.not_isIdentifier
  · exact absurd same.symm (reserved_this _ isName)
  · exact absurd isSuper (by decide)
  · exact ⟨new, bound⟩

/-! ## What frames were made with -/

namespace Machine

theorem opensInvoke_superclass {callee : Value} {methods : List FunDecl} :
    Opener.superclass methods ∉ opensInvoke callee := by
  unfold opensInvoke
  split
  · simp
  · split <;> simp
  · simp

theorem opensCall_superclass {callee : Value} {args : List Value} {s : State}
    {methods : List FunDecl} : Opener.superclass methods ∉ opensCall callee args s := by
  unfold opensCall
  split
  · exact List.not_mem_nil
  · exact opensInvoke_superclass

/-- Only the declaration of a class below another makes a frame for a superclass. -/
theorem opens_superclass {m : Machine} {index : Nat} {methods : List FunDecl}
    (opened : m.opens[index]? = some (.superclass methods)) :
    index = 0 ∧ ∃ superclass, m.Declares methods superclass := by
  have single {opener : Opener} (opened : [opener][index]? = some (.superclass methods)) :
      index = 0 ∧ opener = .superclass methods := by
    cases index with
    | zero => exact ⟨rfl, Option.some.inj opened⟩
    | succ index => cases opened
  unfold opens at opened
  split at opened
  · unfold opensExec at opened
    split at opened
    · cases (single opened).2
    · next name reference declared =>
        split at opened
        · next superclass read =>
            obtain ⟨first, same⟩ := single opened
            cases same
            exact ⟨first, superclass, name, reference, rfl, read⟩
        · cases opened
    · cases opened
  · unfold opensSuper at opened
    split at opened
    · split at opened
      · cases (single opened).2
      · cases opened
    · cases opened
  · unfold opensGet at opened
    split at opened
    · split at opened
      · cases opened
      · split at opened
        · cases (single opened).2
        · cases opened
    · cases opened
  · exact absurd (List.mem_of_getElem? opened) opensCall_superclass
  · exact absurd (List.mem_of_getElem? opened) opensCall_superclass
  · cases opened

theorem opensInvoke_receiver {callee : Value} {index : Nat} {decl : FunDecl}
    (opened : (opensInvoke callee)[index]? = some (.receiver decl)) :
    index = 0 ∧ ∃ cls init, callee = .cls cls ∧ cls.initializer? = some init ∧ init.decl = decl := by
  unfold opensInvoke at opened
  split at opened
  · match index with
    | 0 => cases opened
    | _ + 1 => cases opened
  · next cls =>
      split at opened
      · next init found =>
          match index with
          | 0 =>
              cases opened
              exact ⟨rfl, cls, init, rfl, found, rfl⟩
          | 1 => cases opened
          | _ + 2 => cases opened
      · cases opened
  · cases opened

/-- A call makes a frame for a receiver when it binds an initializer. -/
theorem opensCall_receiver {callee : Value} {args : List Value} {s : State} {index : Nat}
    {decl : FunDecl} (opened : (opensCall callee args s)[index]? = some (.receiver decl))
    (paren : Token) (rest : List Task) :
    index = 0 ∧ ∃ method receiver,
      Calling.binding? ⟨callee, args, paren, rest⟩ s = some (method, receiver) ∧
        method.decl = decl := by
  unfold opensCall at opened
  cases accepted : refusal? callee.arity? args.length s.context.depth with
  | some fault =>
      rw [accepted] at opened
      cases opened
  | none =>
      rw [accepted] at opened
      obtain ⟨first, cls, init, rfl, found, same⟩ := opensInvoke_receiver opened
      refine ⟨first, init, ⟨s.store.objects.size, cls⟩, ?_, same⟩
      unfold Calling.binding?
      dsimp only
      rw [accepted]
      dsimp only
      rw [found]
      rfl

/-- Only binding a method makes a frame for its receiver. -/
theorem opens_receiver {m : Machine} {index : Nat} {decl : FunDecl}
    (opened : m.opens[index]? = some (.receiver decl)) :
    index = 0 ∧ ∃ method receiver, m.binding? = some (method, receiver) ∧ method.decl = decl := by
  have single {opener : Opener} (opened : [opener][index]? = some (.receiver decl)) :
      index = 0 ∧ opener = .receiver decl := by
    cases index with
    | zero => exact ⟨rfl, Option.some.inj opened⟩
    | succ index => cases opened
  unfold opens at opened
  split at opened
  · unfold opensExec at opened
    split at opened
    · cases (single opened).2
    · split at opened
      · cases (single opened).2
      · cases opened
    · cases opened
  · next keyword name tasks s =>
      unfold opensSuper at opened
      split at opened
      · next superclass receiver found =>
          split at opened
          · next method held =>
              obtain ⟨first, same⟩ := single opened
              cases same
              refine ⟨first, method, receiver, ?_, rfl⟩
              simp [binding?, found, held]
          · cases opened
      · cases opened
  · next object name tasks s =>
      unfold opensGet at opened
      split at opened
      · next receiver =>
          split at opened
          · cases opened
          · next noField =>
              split at opened
              · next method held =>
                  obtain ⟨first, same⟩ := single opened
                  cases same
                  refine ⟨first, method, receiver, ?_, rfl⟩
                  simp [binding?, noField, held]
              · cases opened
      · cases opened
  · exact opensCall_receiver opened _ _
  · exact opensCall_receiver opened _ _
  · cases opened

end Machine

namespace State

/-- The frame of a superclass binds it. -/
theorem valueIn?_declareClass (s : State) {name : Token} (different : name.lexeme ≠ "super")
    (superclass : Class) (methods : List FunDecl) :
    (s.declareClass name (some superclass) methods).store.valueIn? s.store.frames.size "super" =
      some (.cls superclass) := by
  obtain ⟨cls, declared⟩ : ∃ cls, (s.declareClass name (some superclass) methods).store =
      (s.store.newIdentity.2.newFrame [("super", .cls superclass)]).2.define s.context.env.frame
        name.lexeme cls := by
    cases s
    exact ⟨_, rfl⟩
  have made := s.store.newIdentity.2.bindings_newFrame_size [("super", .cls superclass)]
  have new : s.store.frames.size <
      (s.store.newIdentity.2.newFrame [("super", .cls superclass)]).2.frames.size := by
    rw [Store.frames_newFrame]
    exact Nat.lt_succ_self _
  rw [declared, (Store.Fixes.define _ different cls).values _ new]
  exact (congrArg (Bindings.find? "super") made).trans rfl

/-- The frame of a receiver binds it. -/
theorem valueIn?_bindMethod (s : State) (method : Method) (receiver : Instance) :
    (s.bindMethod method receiver).2.store.valueIn? s.store.frames.size "this" =
      some (.inst receiver) := by
  rw [bindMethod_eq]
  have made := s.store.bindings_newFrame_size [("this", .inst receiver)]
  exact (congrArg (Bindings.find? "this") made).trans rfl

theorem lt_frames_bindMethod (s : State) (method : Method) (receiver : Instance) :
    s.store.frames.size < (s.bindMethod method receiver).2.store.frames.size := by
  rw [bindMethod_eq]
  dsimp only [Store.newIdentity]
  rw [Store.frames_newFrame]
  exact Nat.lt_succ_self _

end State

namespace Machine

theorem advance_declares {m : Machine} {methods : List FunDecl} {superclass : Class}
    (proper : ∀ {acts}, m.Phrase acts → ProperActs acts) (declares : m.Declares methods superclass)
    (files : String → Except Failure String) :
    (m.advance files).state.store.valueIn? m.state.store.frames.size "super" =
      some (.cls superclass) := by
  obtain ⟨control, tasks, s⟩ := m
  obtain ⟨name, reference, rfl, read⟩ := declares
  have read : s.read reference = .value (.cls superclass) := read
  have isName : (Act.define name).Proper := proper (.code (.exec rfl)) _ List.mem_cons_self
  have different := reserved_super.ne_identifier isName
  have declared : execute (.classDecl name (some reference) methods) tasks s =
      .giving .nil tasks (s.declareClass name (some superclass) methods) := by
    unfold execute
    dsimp only
    rw [read]
  have stepped : Machine.advance files
      ⟨.exec (.classDecl name (some reference) methods), tasks, s⟩ =
      execute (.classDecl name (some reference) methods) tasks s := rfl
  rw [stepped, declared]
  exact s.valueIn?_declareClass different superclass methods

/-- A method that is bound becomes a closure, which is given or, for an initializer, entered. -/
theorem advance_bindsMethod {m : Machine} {method : Method} {receiver : Instance}
    (binds : m.BindsMethod method receiver) (files : String → Except Failure String) :
    (∃ tasks, m.advance files =
      .giving (.value (.closure (m.state.bindMethod method receiver).1)) tasks
        (m.state.bindMethod method receiver).2) ∨
    ∃ (calling : Calling) (cls : Class), receiver = ⟨m.state.store.objects.size, cls⟩ ∧
      m.activation? = some (calling.ofInitializer cls method m.state) := by
  obtain ⟨control, tasks, s⟩ := m
  cases binds with
  | @super keyword name superclass now stands found =>
      obtain rfl : control = .eval (.super keyword name) := now
      have stands : s.superOf? keyword = some (superclass, receiver) := stands
      refine .inl ⟨tasks, ?_⟩
      show getSuper keyword name tasks s = _
      simp only [getSuper, stands, found]
  | @get name rest given waits noField found =>
      obtain rfl : control = .give (.value (.inst receiver)) := given
      obtain rfl : tasks = .get name :: rest := waits
      have noField : s.store.field? receiver.object name.lexeme = none := noField
      refine .inl ⟨rest, ?_⟩
      show getProperty (.inst receiver) name rest s = _
      simp only [getProperty, noField, found]
  | init calls isClass accepted found made =>
      exact .inr ⟨_, _, made, (Activates.init calls isClass accepted found).activation⟩

theorem advance_binding {m : Machine} {method : Method} {receiver : Instance}
    (binds : m.binding? = some (method, receiver)) (files : String → Except Failure String) :
    (m.advance files).state.store.valueIn? m.state.store.frames.size "this" =
      some (.inst receiver) := by
  rcases advance_bindsMethod (bindsMethod_of_binding binds) files with
    ⟨tasks, stepped⟩ | ⟨calling, cls, rfl, begins⟩
  · rw [stepped]
    exact m.state.valueIn?_bindMethod method receiver
  · rw [advance_activation begins, Activation.store_machine]
    have bound := (m.state.newInstance cls).2.valueIn?_bindMethod method
      ⟨m.state.store.objects.size, cls⟩
    have new := (m.state.newInstance cls).2.lt_frames_bindMethod method
      ⟨m.state.store.objects.size, cls⟩
    rw [State.bindMethod_eq, State.newInstance_eq] at bound new
    exact ((Store.Fixes.newFrame _).values _ new).trans bound

end Machine

/-! ## The past of a frame -/

section Histories

variable {past : Past} {m : Machine} {name : String}

/-- Nothing that follows changes what the frames bind that are there. -/
theorem Sequel.fixes {past' : Past} {n : Machine} (sequel : Sequel past m past' n)
    (reached : Reached past m) (reserved : Reserved name) :
    m.state.store.Fixes name n.state.store := by
  induction sequel with
  | here => exact .refl
  | begin _ _ ih => exact ih
  | advance files before ih => exact ih.trans ((before.reached reached).fixes reserved files)
  | pass _ _ _ ih => exact ih
  | setBase _ _ ih => exact ih

/--
A frame that was made for a scope was made at a step of the past.  If such steps bind a reserved
name, the frame binds it still, and to the same.
-/
theorem Reached.exists_making (reached : Reached past m) (reserved : Reserved name)
    {frame : Nat} {opener : Opener} (opened : past.opened[frame]? = some opener)
    (notGlobals : opener ≠ .globals) (Makes : Machine → Value → Prop)
    (making : ∀ {past : Past} {m : Machine} {index : Nat} (files : String → Except Failure String),
      Reached past m → m.opens[index]? = some opener → index = 0 ∧ ∃ value, Makes m value ∧
        (m.advance files).state.store.valueIn? m.state.store.frames.size name = some value) :
    ∃ past₀ m₀ value, Reached past₀ m₀ ∧ Sequel past₀ m₀ past m ∧
      m₀.state.store.frames.size = frame ∧ Makes m₀ value ∧
        m.state.store.valueIn? frame name = some value := by
  induction reached with
  | fresh output now =>
      cases frame with
      | zero => exact absurd (Option.some.inj opened).symm notGlobals
      | succ frame => cases opened
  | begin before compiled ih =>
      obtain ⟨past₀, m₀, value, reached, sequel, here, makes, bound⟩ := ih opened
      exact ⟨past₀, m₀, value, reached, .begin sequel compiled, here, makes, bound⟩
  | @advance past m files before ih =>
      have length := before.length_opened
      unfold Past.after at opened
      dsimp only at opened
      -- Either the frame was there, and the step leaves what it binds; or this step makes it.
      by_cases earlier : frame < past.opened.length
      · rw [List.getElem?_append_left earlier] at opened
        obtain ⟨past₀, m₀, value, reached, sequel, here, makes, bound⟩ := ih opened
        exact ⟨past₀, m₀, value, reached, .advance files sequel, here, makes,
          ((before.fixes reserved files).values frame (length ▸ earlier)).trans bound⟩
      · rw [List.getElem?_append_right (Nat.le_of_not_lt earlier)] at opened
        obtain ⟨first, value, makes, bound⟩ := making files before opened
        have here : m.state.store.frames.size = frame := by omega
        exact ⟨past, m, value, before, .advance files .here, here, makes, here ▸ bound⟩
  | pass now output before ih =>
      obtain ⟨past₀, m₀, value, reached, sequel, here, makes, bound⟩ := ih opened
      exact ⟨past₀, m₀, value, reached, .pass now output sequel, here, makes, bound⟩
  | setBase base before ih =>
      obtain ⟨past₀, m₀, value, reached, sequel, here, makes, bound⟩ := ih opened
      exact ⟨past₀, m₀, value, reached, .setBase base sequel, here, makes, bound⟩

end Histories

end Lox
