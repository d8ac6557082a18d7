import Lox.Proofs.Receivers.Bindings
import Lox.Proofs.Super

/-!
# Properties

Under each name an instance has the value that was set there last.  Where none was set it has the
nearest method on the way up its superclasses, which ends since a class is always declared after its
superclass.  Setting a field changes nothing else, whatever methods there are.
-/

namespace Lox

/-! ## Fields that are set -/

/-- A field of an object was set to a value. -/
structure Setting where
  object : Nat
  name : String
  value : Value

/-- It is this field of this object that was set. -/
def Setting.isOf (object : Nat) (name : String) (setting : Setting) : Bool :=
  setting.object == object && setting.name == name

/-- What the next step sets. -/
def Machine.setting? (m : Machine) : Option Setting :=
  match m with
  | ⟨.give (.value value), .set inst name :: _, _⟩ => some ⟨inst.object, name.lexeme, value⟩
  | _ => none

/-- The machines that a session gets to, with all that was set on the way, the latest first. -/
inductive Tracked : List Setting → Past → Machine → Prop where
  | fresh (output : Sink) (now : Float) :
      Tracked [] ⟨[], [.globals]⟩ ⟨.give .nil, [], .initial output now⟩
  | begin {log : List Setting} {past : Past} {outcome : Outcome} {s : State} {source : String}
      {program : Program} (before : Tracked log past ⟨.give outcome, [], s⟩)
      (compiled : Program.compile s.nextReference source = .ok program) :
      Tracked log ⟨past.loaded ++ [⟨s.nextReference, program⟩], past.opened⟩
        (.ofProgram program.stmts (s.load program))
  | advance {log : List Setting} {past : Past} {m : Machine}
      (files : String → Except Failure String) (before : Tracked log past m) :
      Tracked (m.setting?.toList ++ log) (past.after files m) (m.advance files)
  | pass {log : List Setting} {past : Past} {m : Machine} (now : Float) (output : Sink)
      (before : Tracked log past m) : Tracked log past (m.pass now output)
  | setBase {log : List Setting} {past : Past} {outcome : Outcome} {s : State} (base : String)
      (before : Tracked log past ⟨.give outcome, [], s⟩) :
      Tracked log past ⟨.give outcome, [], { s with context := { s.context with base := base } }⟩

theorem Store.field?_setField (store : Store) {object : Nat} (made : object < store.objects.size)
    (other : Nat) (name key : String) (value : Value) :
    (store.setField object name value).field? other key =
      if other = object ∧ key = name then some value else store.field? other key := by
  rw [Store.field?, store.fields_setField made]
  by_cases here : other = object
  · rw [if_pos here, Bindings.find?_insert, here]
    simp [Store.field?]
  · simp [here, Store.field?]

theorem Machine.setting?_of_sets {m : Machine} {object : Nat} {name : String} {value : Value}
    (sets : m.Sets object name value) : m.setting? = some ⟨object, name, value⟩ := by
  obtain ⟨control, tasks, s⟩ := m
  cases sets with
  | field given waits =>
      cases given
      cases waits
      rfl

section Tracked

variable {log : List Setting} {past : Past} {m : Machine}

theorem Tracked.reached (tracked : Tracked log past m) : Reached past m := by
  induction tracked with
  | fresh output now => exact .fresh output now
  | begin _ compiled ih => exact ih.begin compiled
  | advance files _ ih => exact ih.advance files
  | pass now output _ ih => exact ih.pass now output
  | setBase base _ ih => exact ih.setBase base

/-- Whatever a session gets to, something was set on the way, or nothing. -/
theorem Reached.tracked (reached : Reached past m) : ∃ log, Tracked log past m := by
  induction reached with
  | fresh output now => exact ⟨_, .fresh output now⟩
  | begin _ compiled ih => exact ih.imp fun _ before => before.begin compiled
  | advance files _ ih => exact ih.elim fun _ before => ⟨_, before.advance files⟩
  | pass now output _ ih => exact ih.imp fun _ before => before.pass now output
  | setBase base _ ih => exact ih.imp fun _ before => before.setBase base

/-- A field has the value that it was set to last. -/
theorem Tracked.field? (tracked : Tracked log past m) (object : Nat) (name : String) :
    m.state.store.field? object name = (log.find? (·.isOf object name)).map Setting.value := by
  induction tracked with
  | fresh output now => rfl
  | begin _ _ ih => exact ih
  | pass _ _ _ ih => exact ih
  | setBase _ _ ih => exact ih
  | @advance log past m files before ih =>
      cases sets : m.setting? with
      | none =>
          rcases (m.changes_advance files).fields object name with same | ⟨value, isSet, _⟩
          · exact same.trans ih
          · cases sets.symm.trans (Machine.setting?_of_sets isSet)
      | some setting =>
          obtain ⟨control, tasks, s⟩ := m
          unfold Machine.setting? at sets
          split at sets
          · next value inst key rest _ same =>
              cases same
              cases sets
              have made := before.reached.object_lt (.waiting (.head _) (.target inst key))
              show (s.store.setField inst.object key.lexeme value).field? object name = _
              rw [s.store.field?_setField made, Option.toList_some, List.singleton_append,
                List.find?_cons]
              by_cases here : object = inst.object ∧ name = key.lexeme
              · simp [Setting.isOf, here]
              · have elsewhere : Setting.isOf object name ⟨inst.object, key.lexeme, value⟩ = false := by
                  simp only [Setting.isOf, Bool.and_eq_false_imp, beq_iff_eq, beq_eq_false_iff_ne]
                  exact fun isObject isName => here ⟨isObject.symm, isName.symm⟩
                rw [if_neg here, elsewhere]
                exact ih
          · cases sets

end Tracked

/-! ## What an instance has under a name -/

inductive Property where
  | field (value : Value)
  | method (method : Method)

/-- A field, or else a method of its class. -/
def Instance.property? (inst : Instance) (name : String) (store : Store) : Option Property :=
  match store.field? inst.object name with
  | some value => some (.field value)
  | none => (inst.cls.findMethod? name).map .method

section Properties

variable {log : List Setting} {past : Past} {m : Machine}

/-- What was set last hides the methods, of which the nearest hides the others. -/
theorem Tracked.property? (tracked : Tracked log past m) (inst : Instance) (name : String) :
    inst.property? name m.state.store =
      match log.find? (·.isOf inst.object name) with
      | some setting => some (.field setting.value)
      | none => ((inst.cls :: inst.cls.ancestors).findSome? fun cls =>
          cls.methods.find? name).map .method := by
  rw [Instance.property?, tracked.field?, ← Class.findMethod?_eq]
  cases log.find? (·.isOf inst.object name) with
  | some setting => rfl
  | none => rfl

/-- Reading a property gives the field, or a closure of the method that is bound to the instance. -/
theorem Reached.advance_get (reached : Reached past m) {inst : Instance} {name : Token}
    {tasks : List Task} (given : m.control = .give (.value (.inst inst)))
    (waits : m.tasks = .get name :: tasks) (files : String → Except Failure String) :
    match inst.property? name.lexeme m.state.store with
    | some (.field value) => m.advance files = .giving (.value value) tasks m.state
    | some (.method method) => ∃ closure after,
      m.advance files = .giving (.value (.closure closure)) tasks after ∧
      closure.decl = method.decl ∧ closure.isInitializer = method.isInitializer ∧
      closure.env = method.env.branch m.state.store.frames.size ∧
      closure.BoundTo (past.after files m) (m.advance files) inst
    | none => m.advance files =
        .giving (.failAt name (.undefinedProperty name.lexeme inst.cls.name)) tasks m.state := by
  have stepped : m.advance files = .getProperty (.inst inst) name tasks m.state := by
    obtain ⟨control, _, s⟩ := m
    cases given
    cases waits
    rfl
  unfold Machine.getProperty at stepped
  unfold Instance.property?
  dsimp only at stepped
  cases noField : m.state.store.field? inst.object name.lexeme with
  | some value =>
      rw [noField] at stepped
      exact stepped
  | none =>
      rw [noField] at stepped
      cases found : inst.cls.findMethod? name.lexeme with
      | none =>
          rw [found] at stepped
          exact stepped
      | some method =>
          rw [found] at stepped
          dsimp only at stepped
          rw [State.bindMethod_eq] at stepped
          have binds : m.binding? = some (method, inst) := by
            obtain ⟨control, _, s⟩ := m
            cases given
            cases waits
            simp [Machine.binding?, noField, found]
          exact ⟨_, _, stepped, rfl, rfl, rfl, .now reached ⟨method, binds, rfl⟩ files⟩

/-- Setting a property always succeeds, and changes this one property of this object. -/
theorem Reached.advance_set (reached : Reached past m) {value : Value} {inst : Instance}
    {name : Token} {tasks : List Task} (given : m.control = .give (.value value))
    (waits : m.tasks = .set inst name :: tasks) (files : String → Except Failure String) :
    ∃ objects, m.advance files = .giving (.value value) tasks
        { m.state with store := { m.state.store with objects := objects } } ∧
      ∀ (other : Instance) (key : String),
        other.property? key { m.state.store with objects := objects } =
          if other.object = inst.object ∧ key = name.lexeme then some (.field value)
          else other.property? key m.state.store := by
  have made := reached.object_lt (.waiting (waits ▸ .head _) (.target inst name))
  refine ⟨(m.state.store.setField inst.object name.lexeme value).objects, ?_, fun other key => ?_⟩
  · obtain ⟨control, _, s⟩ := m
    cases given
    cases waits
    rfl
  · show other.property? key (m.state.store.setField inst.object name.lexeme value) = _
    unfold Instance.property?
    rw [m.state.store.field?_setField made]
    by_cases here : other.object = inst.object ∧ key = name.lexeme
    · rw [if_pos here, if_pos here]
    · rw [if_neg here, if_neg here]

/-! ## Instances and classes -/

/-- Instances that are the same object are the same, so it does not matter by which it is known. -/
theorem Reached.eq_of_object (reached : Reached past m) {inst other : Instance}
    (carries : m.Carries (.inst inst)) (carriesOther : m.Carries (.inst other))
    (same : inst.object = other.object) : inst = other := by
  revert inst other
  refine reached.kept (P := fun _ m => ∀ {inst other : Instance}, m.Carries (.inst inst) →
    m.Carries (.inst other) → inst.object = other.object → inst = other) ?_ ?_ ?_
  · intro output now inst other carries
    cases Machine.isPlain_of_fresh carries
  · intro past m reached ih files inst other carries carriesOther same
    rcases Machine.offers_of_carries carries, Machine.offers_of_carries carriesOther with
      ⟨before | makes, beforeOther | makesOther⟩
    · exact ih before beforeOther same
    · have old := reached.object_lt before
      have new := (Machine.objects_of_makes makesOther files).1
      omega
    · have old := reached.object_lt beforeOther
      have new := (Machine.objects_of_makes makes files).1
      omega
    · cases makes with
      | plain isPlain => cases isPlain
      | inst calls isClass =>
          cases makesOther with
          | plain isPlain => cases isPlain
          | inst calls' isClass' =>
              cases calls.symm.trans calls'
              cases isClass.symm.trans isClass'
              rfl
  · intro past m past' n _ ih rests inst other carries carriesOther same
    exact ih ((rests.carries carries).resolve_left (by simp [Value.isPlain]))
      ((rests.carries carriesOther).resolve_left (by simp [Value.isPlain])) same

/-- A class was declared with the given methods in its body. -/
def Class.DeclaredWith (cls : Class) (past : Past) (m : Machine) (methods : List FunDecl) : Prop :=
  Since past m fun m₀ => ∃ name superclass,
    m₀.control = .exec (.classDecl name superclass methods) ∧ m₀.DeclaresClass name cls

/-- Of several methods with one name the last is in the table. -/
theorem State.find?_methodTable (env : Env) (methods : List FunDecl) (name : String) :
    (State.methodTable env methods).find? name =
      (methods.reverse.find? (·.name.lexeme == name)).map (⟨·, env⟩) := by
  rw [State.methodTable, List.foldl_eq_foldr_reverse]
  induction methods.reverse with
  | nil => rfl
  | cons decl earlier ih =>
      rw [List.foldr_cons, Bindings.find?_insert, List.find?_cons, ih]
      by_cases here : name = decl.name.lexeme
      · simp [here]
      · have elsewhere : (decl.name.lexeme == name) = false := beq_eq_false_iff_ne.mpr (Ne.symm here)
        rw [if_neg here, elsewhere]

/-- A class has the methods of its body, of those with one name the last. -/
theorem Class.DeclaredWith.find?_methods {cls : Class} {methods : List FunDecl}
    (declared : cls.DeclaredWith past m methods) (name : String) :
    (cls.methods.find? name).map Method.decl = methods.reverse.find? (·.name.lexeme == name) := by
  obtain ⟨_, m₀, _, _, _, declaredName, superclass, now, declares⟩ := declared
  have table : ∃ env, cls.methods = State.methodTable env methods := by
    cases declares with
    | root isNow =>
        cases now.symm.trans isNow
        exact ⟨_, rfl⟩
    | derived isNow =>
        cases now.symm.trans isNow
        exact ⟨_, rfl⟩
  obtain ⟨env, table⟩ := table
  rw [table, State.find?_methodTable, Option.map_map]
  exact congrFun Option.map_id _

/-- A class that is declared gets the next identity. -/
theorem Machine.DeclaresClass.identity_eq {name : Token} {cls : Class}
    (declares : m.DeclaresClass name cls) : cls.identity = m.state.store.nextIdentity := by
  cases declares with
  | root now => rfl
  | derived now read => rfl

/-- The declaration of a class gives an identity out. -/
theorem Machine.DeclaresClass.nextIdentity {name : Token} {cls : Class}
    (declares : m.DeclaresClass name cls) (files : String → Except Failure String) :
    cls.identity < (m.advance files).state.store.nextIdentity := by
  obtain ⟨control, tasks, s⟩ := m
  cases declares with
  | root now =>
      cases now
      exact Nat.lt_succ_self _
  | @derived reference methods superclass now read =>
      cases now
      have stepped : Machine.advance files
          ⟨.exec (.classDecl name (some reference) methods), tasks, s⟩ =
            .giving .nil tasks (s.declareClass name (some superclass) methods) := by
        show Machine.execute (.classDecl name (some reference) methods) tasks s = _
        rw [Machine.execute, show s.read reference = _ from read]
      rw [stepped]
      exact Nat.lt_succ_self _

/-- The identities of classes have been given out. -/
theorem Reached.identity_lt (reached : Reached past m) {cls : Class}
    (carries : m.Carries (.cls cls)) : cls.identity < m.state.store.nextIdentity := by
  revert cls
  refine reached.kept (P := fun _ m => ∀ {cls : Class}, m.Carries (.cls cls) →
    cls.identity < m.state.store.nextIdentity) ?_ ?_ ?_
  · intro output now cls carries
    cases Machine.isPlain_of_fresh carries
  · intro past m _ ih files cls carries
    rcases Machine.offers_of_carries carries with before | makes
    · exact Nat.lt_of_lt_of_le (ih before) (m.changes_advance files).identities
    · cases makes with
      | plain isPlain => cases isPlain
      | cls declares => exact declares.nextIdentity files
  · intro past m past' n _ ih rests cls carries
    rw [rests.store]
    exact ih ((rests.carries carries).resolve_left (by simp [Value.isPlain]))

theorem Reached.declaredWith (reached : Reached past m) {cls : Class}
    (carries : m.Carries (.cls cls)) : ∃ methods, cls.DeclaredWith past m methods := by
  obtain ⟨past₀, m₀, files, before, sequel, name, declares⟩ := reached.declared_of_carries carries
  cases declares with
  | root now => exact ⟨_, past₀, m₀, files, before, sequel, name, _, now, .root now⟩
  | derived now read => exact ⟨_, past₀, m₀, files, before, sequel, name, _, now, .derived now read⟩

/-- On the way up from a class the identities get lower and lower, and each class was declared. -/
structure Class.Ordered (cls : Class) (past : Past) (m : Machine) : Prop where
  descends : (cls :: cls.ancestors).Pairwise (·.identity > ·.identity)
  declared : ∀ ancestor ∈ cls :: cls.ancestors, ∃ methods, ancestor.DeclaredWith past m methods

theorem Class.Ordered.sequel {cls : Class} (ordered : cls.Ordered past m) {past' : Past}
    {n : Machine} (later : Sequel past m past' n) : cls.Ordered past' n := by
  constructor
  · exact ordered.descends
  · intro ancestor above
    obtain ⟨methods, declared⟩ := ordered.declared ancestor above
    exact ⟨methods, Since.sequel declared later⟩

/-- A class is declared when its superclass has been declared already. -/
theorem Reached.ordered (reached : Reached past m) {cls : Class} (carries : m.Carries (.cls cls)) :
    cls.Ordered past m := by
  have declared := reached.declaredWith carries
  fun_induction Class.ancestors cls generalizing past m with
  | case1 identity className methods =>
      constructor
      · exact List.pairwise_singleton _ _
      · exact List.forall_mem_singleton.mpr declared
  | case2 identity className superclass methods ih =>
      obtain ⟨past₀, m₀, files, before, sequel, name, declares⟩ := reached.declared_of_carries carries
      have carried := declares.parts.2 superclass rfl
      have lower : superclass.identity < identity := by
        have own : identity = _ := declares.identity_eq
        exact own ▸ before.identity_lt carried
      have ordered := ih before carried (before.declaredWith carried)
      have later := ordered.sequel (.trans (.advance files .here) sequel)
      constructor
      · refine List.pairwise_cons.mpr ⟨fun ancestor above => ?_, later.descends⟩
        rcases List.mem_cons.mp above with rfl | further
        · exact lower
        · exact Nat.lt_trans (List.rel_of_pairwise_cons later.descends further) lower
      · exact List.forall_mem_cons.mpr ⟨declared, later.declared⟩

end Properties

/--
Property access and inheritance.

Under a name an instance has the value that was set there last, whichever way the instance is known;
and if none was, the method of the first class on the way up that has one of the name, which is the
last in the body that declared it.  Reading gives that value, or a closure of that method which is
bound to the instance for good, or is an error if there is neither.

Setting always succeeds, and changes nothing but this property of this object: not what else any
instance has, nor what `super` and the names of variables and classes stand for.

Classes were declared after their superclasses, so that no search for a method goes on forever.
-/
theorem properties_follow_history {log : List Setting} {past : Past} {m : Machine}
    (tracked : Tracked log past m) :
    (∀ (inst : Instance) (name : String), inst.property? name m.state.store =
      match log.find? (·.isOf inst.object name) with
      | some setting => some (.field setting.value)
      | none => ((inst.cls :: inst.cls.ancestors).findSome? fun cls =>
          cls.methods.find? name).map .method) ∧
    (∀ (inst : Instance) (name : Token) (tasks : List Task)
      (files : String → Except Failure String), m.control = .give (.value (.inst inst)) →
      m.tasks = .get name :: tasks →
        match inst.property? name.lexeme m.state.store with
        | some (.field value) => m.advance files = .giving (.value value) tasks m.state
        | some (.method method) => ∃ closure after,
          m.advance files = .giving (.value (.closure closure)) tasks after ∧
          closure.decl = method.decl ∧ closure.isInitializer = method.isInitializer ∧
          closure.env = method.env.branch m.state.store.frames.size ∧
          closure.BoundTo (past.after files m) (m.advance files) inst
        | none => m.advance files =
            .giving (.failAt name (.undefinedProperty name.lexeme inst.cls.name)) tasks m.state) ∧
    (∀ (value : Value) (inst : Instance) (name : Token) (tasks : List Task)
      (files : String → Except Failure String), m.control = .give (.value value) →
      m.tasks = .set inst name :: tasks → ∃ after,
        m.advance files = .giving (.value value) tasks after ∧
        (∀ (other : Instance) (key : String), other.property? key after.store =
          if other.object = inst.object ∧ key = name.lexeme then some (.field value)
          else other.property? key m.state.store) ∧
        (∀ keyword, after.superOf? keyword = m.state.superOf? keyword) ∧
        (∀ reference, after.valueOf? reference = m.state.valueOf? reference) ∧
        ∃ objects, after = { m.state with store := { m.state.store with objects := objects } }) ∧
    (∀ inst other : Instance, m.Carries (.inst inst) → m.Carries (.inst other) →
      inst.object = other.object → inst = other) ∧
    (∀ cls : Class, (m.Carries (.cls cls) ∨ ∃ inst, m.Carries (.inst inst) ∧ inst.cls = cls) →
      cls.Ordered past m) ∧
    (∀ (cls : Class) (methods : List FunDecl), cls.DeclaredWith past m methods → ∀ name,
      (cls.methods.find? name).map Method.decl =
        methods.reverse.find? (·.name.lexeme == name)) := by
  have reached := tracked.reached
  refine ⟨tracked.property?, ?_, ?_, ?_, ?_, fun _ _ declared => declared.find?_methods⟩
  · intro inst name tasks files given waits
    exact reached.advance_get given waits files
  · intro value inst name tasks files given waits
    obtain ⟨objects, stepped, sees⟩ := reached.advance_set given waits files
    exact ⟨_, stepped, sees, fun _ => rfl, fun _ => rfl, objects, rfl⟩
  · intro inst other carries carriesOther same
    exact reached.eq_of_object carries carriesOther same
  · rintro cls (carries | ⟨inst, carries, rfl⟩)
    · exact reached.ordered carries
    · obtain ⟨past₀, m₀, files, before, sequel, carried⟩ := reached.class_of_carries carries
      exact (before.ordered carried).sequel (.trans (.advance files .here) sequel)

/-- An instance whose method is hidden by a field, which is set by another name of the instance. -/
def setByAlias : String :=
  "class A \x7b m() \x7b\x7d m() \x7b\x7d \x7d class B < A \x7b\x7d " ++
    "var b = B(); var c = b; c.m = \"set\"; b.m;"

/-- Whether a property is read there that is both a field and a method. -/
def readsHidingField : Bool :=
  match Program.compile (Session.fresh .unlimited .unlimited false).state.nextReference
      setByAlias with
  | .ok program =>
    let m := Machine.stepped 25 ((Session.fresh .unlimited .unlimited false).begin 0 program)
    match m.control, m.tasks with
    | .give (.value (.inst inst)), .get name :: _ =>
      (inst.cls.findMethod? name.lexeme).isSome &&
        (m.state.store.field? inst.object name.lexeme).isSome
    | _, _ => false
  | .error _ => false

/-- What was set by the other name is read, and not the method above. -/
theorem properties_follow_history_of_alias :
    ∃ log past m inst name tasks, Tracked log past m ∧ m.control = .give (.value (.inst inst)) ∧
      m.tasks = .get name :: tasks ∧ (inst.cls.findMethod? name.lexeme).isSome = true ∧
      ∃ setting ∈ log, setting.isOf inst.object name.lexeme = true ∧
        ∀ files, m.advance files = .giving (.value setting.value) tasks m.state := by
  have computed : readsHidingField = true := by decide +kernel
  unfold readsHidingField at computed
  split at computed
  · next program compiled =>
      dsimp only at computed
      split at computed
      · next inst name tasks given waits =>
          obtain ⟨past, started, _⟩ :=
            (Session.Reachable.fresh _ _ _).atRest.begin 0 compiled
          obtain ⟨past, sequel⟩ := Sequel.of_stepped 25
          obtain ⟨log, tracked⟩ := (sequel.reached started).tracked
          generalize Machine.stepped 25 _ = m at computed given waits tracked
          obtain ⟨isMethod, isField⟩ := Bool.and_eq_true_iff.mp computed
          obtain ⟨history, reads, -⟩ := properties_follow_history tracked
          have read := history inst name.lexeme
          have reads (files) := reads inst name tasks files given waits
          rw [tracked.field?] at isField
          cases found : log.find? (·.isOf inst.object name.lexeme) with
          | none =>
              rw [found] at isField
              cases isField
          | some setting =>
              rw [found] at read
              rw [read] at reads
              exact ⟨log, past, m, inst, name, tasks, tracked, given, waits, isMethod, setting,
                List.mem_of_find?_eq_some found, List.find?_some found, reads⟩
      · cases computed
  · cases computed

end Lox
