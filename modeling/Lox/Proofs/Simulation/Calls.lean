import Lox.Proofs.Natives
import Lox.Proofs.Openings
import Lox.Proofs.Simulation.States
import Lox.Proofs.Simulation.Values

/-!
# Calls on corresponding machines

A step of corresponding machines leads to corresponding machines, in a world with the frames
that the step makes.  Here the steps that bind methods and call functions, which make frames for
scopes of programs that were left long ago.
-/

namespace Lox

open World

/-- What is left to do waits at a spot, and phrases of the spot can be executed. -/
structure Poised (r : Respelling) (w : World) (p : Spot) (tasks tasks' : List Task)
    (s s' : State) : Prop where
  opens : w.Opens s.context.env.chain p.sites
  holds : Holds s.store s.context.env p
  left : StackRel r w s.store p tasks tasks'
  states : StateRel r w s s'

/-- Two machines correspond after a step that made frames for the given scopes. -/
def Advances (r : Respelling) (w : World) (store : Store) (opened : List Opener)
    (n n' : Machine) : Prop :=
  ∃ w' : World, (w'.known = w.known ∧ w'.used = w.used) ∧ Grows w store w' n.state.store ∧
    w'.sites.map Site.opener = w.sites.map Site.opener ++ opened ∧ MachineRel r w' n n'

variable {r : Respelling} {w w' : World} {p : Spot} {tasks tasks' : List Task} {s s' : State}

namespace Advances

variable {store store' : Store} {n n' : Machine}

/-- A step that makes no frame. -/
theorem still (related : MachineRel r w n n') (grows : Grows w store w n.state.store) :
    Advances r w store [] n n' :=
  ⟨w, ⟨rfl, rfl⟩, grows, (List.append_nil _).symm, related⟩

/-- A step that makes one frame. -/
theorem opening (site : Site) (related : MachineRel r (w.open site) n n')
    (grows : Grows w store (w.open site) n.state.store) :
    Advances r w store [site.opener] n n' := by
  refine ⟨w.open site, ⟨rfl, rfl⟩, grows, ?_, related⟩
  rw [World.open, List.map_append]
  rfl

/-- One frame is made first. -/
theorem afterOpen {site : Site} {opened : List Opener}
    (grows : Grows w store (w.open site) store')
    (advances : Advances r (w.open site) store' opened n n') :
    Advances r w store (site.opener :: opened) n n' := by
  obtain ⟨w', known, later, openers, related⟩ := advances
  refine ⟨w', known, grows.trans later, ?_, related⟩
  rw [openers, World.open, List.map_append, List.append_assoc]
  rfl

/-- The store changes first, but no frame is made. -/
theorem afterGrows {opened : List Opener} (grows : Grows w store w store')
    (advances : Advances r w store' opened n n') : Advances r w store opened n n' := by
  obtain ⟨w', known, later, openers, related⟩ := advances
  exact ⟨w', known, grows.trans later, openers, related⟩

end Advances

/-- Passing an error on to those who wait at a spot. -/
theorem MachineRel.failing (opens : w.Opens s.context.env.chain p.sites)
    (left : StackRel r w s.store p tasks tasks') (states : StateRel r w s s')
    {error error' : Error} (related : ErrorRel r error error') :
    MachineRel r w (.giving (.failed error) tasks s) (.giving (.failed error') tasks' s') :=
  .intro opens (.failed related) left states

namespace Poised

theorem value (poised : Poised r w p tasks tasks' s s') {value value' : Value}
    (related : ValueRel r w s.store value value') :
    MachineRel r w (.giving (.value value) tasks s) (.giving (.value value') tasks' s') :=
  .intro poised.opens (.value poised.holds related) poised.left poised.states

theorem failed (poised : Poised r w p tasks tasks' s s') {error error' : Error}
    (related : ErrorRel r error error') :
    MachineRel r w (.giving (.failed error) tasks s) (.giving (.failed error') tasks' s') :=
  .failing poised.opens poised.left poised.states related

theorem failAt (poised : Poised r w p tasks tasks' s s') (token : Token) (fault : RuntimeFault) :
    MachineRel r w (.giving (.failAt token fault) tasks s)
      (.giving (.failAt token fault) tasks' s') :=
  poised.failed (.same _)

theorem gives (poised : Poised r w p tasks tasks' s s') {outcome outcome' : Outcome}
    (related : OutcomeRel r w s.store outcome outcome') :
    MachineRel r w (.giving outcome tasks s) (.giving outcome' tasks' s') := by
  cases related with
  | value related => exact poised.value related
  | failed related => exact poised.failed related

theorem eval (poised : Poised r w p tasks tasks' s s') {expr : Expr}
    (known : w.Knows (expr.walk p)) :
    MachineRel r w ⟨.eval expr, tasks, s⟩ ⟨.eval (expr.respell r p), tasks', s'⟩ :=
  .intro poised.opens (.eval poised.holds known) poised.left poised.states

/-- A task of the spot is put in front. -/
theorem push (poised : Poised r w p tasks tasks' s s') {task task' : Task}
    (first : TaskRel r w s.store p task task') (same : task.spotAfter p = p) :
    Poised r w p (task :: tasks) (task' :: tasks') s s' :=
  ⟨poised.opens, poised.holds, .task first (by rw [same]; exact poised.left), poised.states⟩

/-- The stores change, without that anything is lost. -/
theorem withStore (poised : Poised r w p tasks tasks' s s') {store store' : Store}
    (grows : Grows w s.store w' store) (stores : StoreRel r w' store store')
    (same : w'.known = w.known ∧ w'.used = w.used) :
    Poised r w' p tasks tasks' { s with store := store } { s' with store := store' } :=
  ⟨poised.opens.mono grows, poised.holds.mono grows.bound, poised.left.mono grows,
    poised.states.withStore stores same⟩

/-- Other corresponding states with the same store and context. -/
theorem withStates (poised : Poised r w p tasks tasks' s s') {t t' : State}
    (states : StateRel r w t t') (store : t.store = s.store) (context : t.context = s.context) :
    Poised r w p tasks tasks' t t' := by
  obtain ⟨opens, holds, left, _⟩ := poised
  rw [← context] at opens holds
  rw [← store] at holds left
  exact ⟨opens, holds, left, states⟩

theorem stands (poised : Poised r w p tasks tasks' s s') : w.Stands s.store s.context.env p :=
  ⟨poised.opens, poised.holds⟩

/-- The body of a closure is entered in a frame that was made for the scope of its function. -/
theorem enter (poised : Poised r w p tasks tasks' s s') {closure closure' : Closure}
    (related : ClosureRel r w s.store closure closure') {args args' : List Value}
    (each : List.Forall₂ (ValueRel r w s.store) args args')
    (count : args.length = closure.decl.params.length) {answer answer' : Answer}
    (answers : AnswerRel r w s.store answer answer') (line : Nat) :
    Advances r w s.store [.function closure.decl]
      (Machine.enter closure args line answer tasks s)
      (Machine.enter closure' args' line answer' tasks' s') := by
  obtain ⟨store', context', hops', nextReference', output', now'⟩ := s'
  obtain rfl : context' = s.context := poised.states.context
  obtain @⟨identity, env, isInitializer, decl, _, function, receiver⟩ := related
  obtain @⟨path, q, _, stands, settled, known⟩ := function
  obtain ⟨name, params, body⟩ := decl
  have sized : store'.frames.size = s.store.frames.size := by
    rw [poised.states.store.made, poised.states.store.made']
  obtain ⟨ofParams, ofBody⟩ := knows_append.mp known
  have sites := walkParameters_sites (p := q.forFunction path ⟨name, params, body⟩) [] params
  have fresh : ∀ param ∈ params, path = r.target → param.lexeme ≠ r.new := by
    intro param listed here
    obtain ⟨event, walked, seen, act⟩ := exists_walkParameters
      (p := q.forFunction path ⟨name, params, body⟩) [] listed
    refine (poised.states.fit event (ofParams event walked)).allowed param.lexeme ?_
      ⟨.function ⟨name, params, body⟩, path⟩ ?_ here
    · rw [act]
      exact List.mem_cons_self
    · rw [sites event walked]
      exact List.mem_cons_self
  have bound : Bindings.Respelled (ValueRel r w s.store) r ⟨.function ⟨name, params, body⟩, path⟩
      (bindParameters params args)
      (bindParameters (params.map (r.declared (q.forFunction path ⟨name, params, body⟩))) args') :=
    bindParameters_related (fun _ => rfl) fresh each
  have stores := poised.states.store.newFrame bound
  have grows : Grows w s.store (w.open ⟨.function ⟨name, params, body⟩, path⟩)
      (s.store.newFrame (bindParameters params args)).2 := StoreRel.grows_newFrame _ _
  unfold Machine.enter
  rw [State.extend_eq, State.extend_eq]
  dsimp only
  rw [sized]
  refine .opening ⟨.function ⟨name, params, body⟩, path⟩ ?_ grows
  refine .intro (p := q.forBody path ⟨name, params, body⟩) ?_ (.value ?_ .nil)
    (.task (.body ?_ (grows.knows ofBody)) ?_) ?_
  · rw [Spot.forBody_sites]
    exact .scope (poised.states.store.site_newFrame _) (stands.opens.mono grows)
  · refine stands.holds.push settled grows.bound (Spot.forBody_tail path _ q)
      (Spot.settled_forBody path _ q) fun name ready => ?_
    refine (congrArg (Bindings.has name) (Store.bindings_newFrame_size _ _)).trans ?_
    refine has_bindParameters count ?_
    rcases Spot.isReady_introduceAll ready with listed | none
    · exact listed
    · cases none
  · exact Spot.settled_forBody path _ q
  · exact .finishCall (answers.mono grows) (poised.stands.mono grows) (poised.left.mono grows)
  · exact (poised.states.withStore stores ⟨rfl, rfl⟩).setContext _

/-- A method is bound in a frame that was made for the scope of its receiver. -/
theorem bindMethod (poised : Poised r w p tasks tasks' s s') (proper : r.Proper)
    {method method' : Method} (related : MethodRel r w s.store method method')
    {receiver receiver' : Instance} (ofInstance : InstanceRel r w s.store receiver receiver') :
    ∃ site : Site, site.opener = .receiver method.decl ∧
      Grows w s.store (w.open site) (s.bindMethod method receiver).2.store ∧
      Poised r (w.open site) p tasks tasks' (s.bindMethod method receiver).2
        (s'.bindMethod method' receiver').2 ∧
      ClosureRel r (w.open site) (s.bindMethod method receiver).2.store
        (s.bindMethod method receiver).1 (s'.bindMethod method' receiver').1 := by
  rw [State.bindMethod_eq, State.bindMethod_eq, related.isInitializer, poised.states.store.made',
    ← poised.states.store.made, poised.states.store.identities]
  obtain @⟨env, path, index, q, decl, stands, settled, known⟩ := related
  have held : Bindings.Respelled (ValueRel r w s.store) r ⟨.receiver decl, path⟩
      [("this", .inst receiver)] [("this", .inst receiver')] :=
    .single proper.old_ne_this.symm proper.new_ne_this.symm (.inst ofInstance)
  have grows : Grows w s.store (w.open ⟨.receiver decl, path⟩)
      (s.store.newFrame [("this", .inst receiver)]).2.newIdentity.2 :=
    (StoreRel.grows_newFrame _ _).trans StoreRel.grows_newIdentity
  have stores := (poised.states.store.newFrame held).newIdentity
  have binds : (s.store.newFrame [("this", Value.inst receiver)]).2.newIdentity.2.valueIn?
      s.store.frames.size "this" = some (.inst receiver) :=
    congrArg (Bindings.find? "this") (Store.bindings_newFrame_size _ _)
  refine ⟨⟨.receiver decl, path⟩, rfl, grows, poised.withStore grows stores ⟨rfl, rfl⟩, ?_⟩
  have inFrame := (stands.mono grows).pushWith settled (poised.states.store.site_newFrame _)
    (Bindings.has_of_find? binds)
  exact .intro (.intro inFrame (Spot.settled_pushWith _ _ _) (grows.knows known))
    fun _ => ⟨receiver, binds⟩

/-- A method is given away bound to its receiver. -/
theorem givesMethod (poised : Poised r w p tasks tasks' s s') (proper : r.Proper)
    {method method' : Method} (related : MethodRel r w s.store method method')
    {receiver receiver' : Instance} (ofInstance : InstanceRel r w s.store receiver receiver') :
    Advances r w s.store [.receiver method.decl]
      (.giving (.value (.closure (s.bindMethod method receiver).1)) tasks
        (s.bindMethod method receiver).2)
      (.giving (.value (.closure (s'.bindMethod method' receiver').1)) tasks'
        (s'.bindMethod method' receiver').2) := by
  obtain ⟨site, opener, grows, bound, closures⟩ :=
    poised.bindMethod proper related ofInstance
  rw [← opener]
  exact .opening site (bound.value (.closure closures)) grows

theorem getProperty (poised : Poised r w p tasks tasks' s s') (proper : r.Proper)
    {object object' : Value} (related : ValueRel r w s.store object object') (name : Token) :
    Advances r w s.store (Machine.opensGet object name s)
      (Machine.getProperty object name tasks s) (Machine.getProperty object' name tasks' s') := by
  cases related with
  | inst ofInstance =>
      obtain @⟨object, cls, cls', ofClass⟩ := ofInstance
      have field := poised.states.store.fields object name.lexeme
      have method := ofClass.findMethod? name.lexeme
      unfold Machine.opensGet Machine.getProperty
      dsimp only
      revert field
      generalize s.store.field? object name.lexeme = a
      generalize s'.store.field? object name.lexeme = a'
      intro field
      cases field with
      | some value => exact .still (poised.value value) .refl
      | none =>
          revert method
          generalize cls.findMethod? name.lexeme = b
          generalize cls'.findMethod? name.lexeme = b'
          intro method
          cases method with
          | some found => exact poised.givesMethod proper found (.intro ofClass)
          | none =>
              dsimp only
              rw [ofClass.name]
              exact .still (poised.failAt ..) .refl
  | _ => exact .still (poised.failAt ..) .refl

theorem getSuper (poised : Poised r w p tasks tasks' s s') (proper : r.Proper)
    {keyword : Reference} (known : w.known ⟨p, .super keyword⟩) (name : Token) :
    Advances r w s.store (Machine.opensSuper keyword name s)
      (Machine.getSuper keyword name tasks s) (Machine.getSuper keyword name tasks' s') := by
  have found := poised.states.superOf? proper poised.opens known
  unfold Machine.opensSuper Machine.getSuper
  revert found
  generalize s.superOf? keyword = a
  generalize s'.superOf? keyword = a'
  intro found
  cases found with
  | none => exact .still (poised.failAt ..) .refl
  | @some x y found =>
      obtain ⟨superclass, receiver⟩ := x
      obtain ⟨superclass', receiver'⟩ := y
      obtain ⟨ofClass, ofInstance⟩ := found
      have method := ofClass.findMethod? name.lexeme
      dsimp only at ofClass ofInstance ⊢
      revert method
      generalize superclass.findMethod? name.lexeme = b
      generalize superclass'.findMethod? name.lexeme = b'
      intro method
      cases method with
      | some method => exact poised.givesMethod proper method ofInstance
      | none =>
          dsimp only
          rw [ofClass.name]
          exact .still (poised.failAt ..) .refl

/-- A line is written to both outputs, or refused by both. -/
theorem writes (poised : Poised r w p tasks tasks' s s') (text : String) (line : Nat) :
    MachineRel r w
        (.giving (.writtenAt line (s.writeLine text).1) tasks (s.writeLine text).2)
        (.giving (.writtenAt line (s'.writeLine text).1) tasks' (s'.writeLine text).2) ∧
      (s.writeLine text).2.store = s.store := by
  obtain ⟨taken, states⟩ := poised.states.writeLine text
  have store : (s.writeLine text).2.store = s.store := by rw [State.writeLine_eq]
  have context : (s.writeLine text).2.context = s.context := by rw [State.writeLine_eq]
  have written := poised.withStates states store context
  rw [taken]
  refine ⟨?_, store⟩
  cases (s.writeLine text).1 with
  | none => exact written.value .nil
  | some detail => exact written.failed (.same _)

/-- Corresponding arguments show the same texts. -/
theorem texts_eq {store : Store} {args args' : List Value}
    (each : List.Forall₂ (ValueRel r w store) args args') :
    args'.map Value.text = args.map Value.text := by
  induction each with
  | nil => rfl
  | cons first _ ih => rw [List.map_cons, List.map_cons, first.text, ih]

theorem callNative (poised : Poised r w p tasks tasks' s s') (native : Native)
    {args args' : List Value} (each : List.Forall₂ (ValueRel r w s.store) args args')
    (line : Nat) :
    MachineRel r w (Machine.callNative native args line tasks s)
        (Machine.callNative native args' line tasks' s') ∧
      (Machine.callNative native args line tasks s).state.store = s.store := by
  cases native with
  | clock =>
      unfold Machine.callNative Machine.runNative
      dsimp only
      rw [poised.states.now]
      split
      · exact ⟨poised.failed (.same _), rfl⟩
      · exact ⟨poised.value (.number _), rfl⟩
  | exit =>
      have code : args'.head?.bind Value.number? = args.head?.bind Value.number? := by
        cases each with
        | nil => rfl
        | cons first _ => exact first.number?
      unfold Machine.callNative Machine.runNative
      dsimp only
      rw [code]
      cases args.head?.bind Value.number? with
      | some x => exact ⟨.intro poised.opens (.exited _) poised.left poised.states, rfl⟩
      | none => exact ⟨poised.failed (.same _), rfl⟩
  | print =>
      rw [Machine.callNative_print, Machine.callNative_print, texts_eq each]
      exact poised.writes _ line

/-- An instance is made, and the initializer of its class is entered if there is one. -/
theorem instantiate (poised : Poised r w p tasks tasks' s s') (proper : r.Proper)
    {cls cls' : Class} (related : ClassRel r w s.store cls cls') {args args' : List Value}
    (each : List.Forall₂ (ValueRel r w s.store) args args') (count : args.length = cls.arity)
    (line : Nat) :
    Advances r w s.store (Machine.opensInvoke (.cls cls))
      (Machine.instantiate cls args line tasks s)
      (Machine.instantiate cls' args' line tasks' s') := by
  have grows : Grows w s.store w s.store.newObject.2 := StoreRel.grows_newObject
  have made := poised.withStore grows poised.states.store.newObject ⟨rfl, rfl⟩
  have ofInstance : InstanceRel r w s.store.newObject.2 ⟨s.store.objects.size, cls⟩
      ⟨s'.store.objects.size, cls'⟩ := by
    rw [poised.states.store.objects]
    exact .intro (related.mono grows)
  have init := (related.mono grows).findMethod? "init"
  unfold Machine.opensInvoke Machine.instantiate
  unfold Class.arity at count
  unfold Class.initializer? at count ⊢
  rw [State.newInstance_eq, State.newInstance_eq]
  dsimp only
  revert init count
  generalize cls.findMethod? "init" = a
  generalize cls'.findMethod? "init" = a'
  intro count init
  cases init with
  | none => exact .still (made.value (.inst ofInstance)) grows
  | @some method method' method =>
      obtain ⟨site, opener, later, bound, closures⟩ := made.bindMethod proper method ofInstance
      have same : ∀ (method : Method) (receiver : Instance) (t : State),
          (t.bindMethod method receiver).1.decl = method.decl := by
        intro method receiver t
        rw [State.bindMethod_eq]
      have entered := bound.enter closures
        (each.imp fun _ _ value => (value.mono grows).mono later) (by rw [same]; exact count)
        (.made (ofInstance.mono later)) line
      rw [same] at entered
      dsimp only
      rw [← opener]
      exact (Advances.afterOpen later entered).afterGrows grows

theorem invoke (poised : Poised r w p tasks tasks' s s') (proper : r.Proper)
    {callee callee' : Value} (related : ValueRel r w s.store callee callee')
    {args args' : List Value} (each : List.Forall₂ (ValueRel r w s.store) args args')
    {depth : Nat} (accepted : Machine.refusal? callee.arity? args.length depth = none)
    (paren : Token) :
    Advances r w s.store (Machine.opensInvoke callee)
      (Machine.invoke callee args paren tasks s)
      (Machine.invoke callee' args' paren tasks' s') := by
  cases related with
  | native native =>
      obtain ⟨related, same⟩ := poised.callNative native each paren.line
      refine .still related ?_
      rw [Machine.invoke, same]
      exact .refl
  | closure closures =>
      have count := Machine.count_of_accepted accepted
      obtain @⟨identity, env, isInitializer, decl, decl', function, receiver⟩ := closures
      have answers : AnswerRel r w s.store (if isInitializer then .receiver env else .result)
          (if isInitializer then .receiver env else .result) := by
        cases isInitializer with
        | false => exact .result
        | true =>
            obtain ⟨inst, bound⟩ := receiver rfl
            obtain ⟨sites, opens⟩ := function.opens
            exact .receiver opens bound
      exact poised.enter (.intro function receiver) each count answers paren.line
  | cls ofClass =>
      exact poised.instantiate proper ofClass each (Machine.count_of_accepted accepted) paren.line
  | _ => cases accepted

theorem call (poised : Poised r w p tasks tasks' s s') (proper : r.Proper)
    {callee callee' : Value} (related : ValueRel r w s.store callee callee')
    {args args' : List Value} (each : List.Forall₂ (ValueRel r w s.store) args args')
    (paren : Token) :
    Advances r w s.store (Machine.opensCall callee args s) (Machine.call callee args paren tasks s)
      (Machine.call callee' args' paren tasks' s') := by
  rw [Machine.call_eq, Machine.call_eq, related.arity?, ← each.length_eq, poised.states.context,
    Machine.opensCall]
  cases refused : Machine.refusal? callee.arity? args.length s.context.depth with
  | some fault => exact .still (poised.failAt ..) .refl
  | none => exact poised.invoke proper related each refused paren

end Poised

end Lox
