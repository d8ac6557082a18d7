import Lox.Proofs.Context
import Lox.Proofs.Super.Frames

/-!
# What `super` stands for

`super` is static in the class and dynamic in the receiver.  The method is looked for from the class
that the superclass of the nearest class in the text was when this class was declared; and it is
bound to the receiver that the method around was bound to.
-/

namespace Lox

/-- Methods are found in the nearest class that has one of the name. -/
theorem Class.findMethod?_eq (name : String) (cls : Class) :
    cls.findMethod? name =
      (cls :: cls.ancestors).findSome? fun ancestor => ancestor.methods.find? name := by
  fun_induction Class.findMethod? name cls with
  | case1 identity className methods =>
      simp [ancestors, Class.methods]
  | case2 identity className superclass methods own held =>
      simp [Class.methods, held]
  | case3 identity className superclass methods none ih =>
      rw [List.findSome?_cons, ancestors, Class.methods, none]
      exact ih

/-- The frames of some of the scopes of an environment come before those of the others. -/
theorem World.Opens.split {w : World} {frames : List Nat} {before after : List Site}
    (opens : w.Opens frames (before ++ after)) :
    ∃ first rest, frames = first ++ rest ∧ first.length = before.length ∧
      (∀ frame ∈ first, ∃ site ∈ before, w.sites[frame]? = some site) ∧ w.Opens rest after := by
  induction before generalizing frames with
  | nil => exact ⟨[], frames, rfl, rfl, fun _ none => (List.not_mem_nil none).elim, opens⟩
  | cons site before ih =>
      cases opens with
      | scope made outer =>
          obtain ⟨first, rest, rfl, long, each, opens⟩ := ih outer
          refine ⟨_ :: first, rest, rfl, congrArg (· + 1) long, ?_, opens⟩
          refine List.forall_mem_cons.mpr ⟨⟨site, List.mem_cons_self, made⟩, fun frame held => ?_⟩
          obtain ⟨inside, among, made⟩ := each frame held
          exact ⟨inside, List.mem_cons_of_mem _ among, made⟩

/-- A class with the given methods was declared before, below the class that it named. -/
def DeclaredBefore (past : Past) (m : Machine) (frame : Nat) (methods : List FunDecl)
    (superclass : Class) : Prop :=
  ∃ past₀ m₀, Reached past₀ m₀ ∧ Sequel past₀ m₀ past m ∧ m₀.state.store.frames.size = frame ∧
    m₀.Declares methods superclass

/-- A method was bound to a receiver before. -/
def BoundBefore (past : Past) (m : Machine) (frame : Nat) (decl : FunDecl) (receiver : Instance) :
    Prop :=
  ∃ past₀ m₀ method, Reached past₀ m₀ ∧ Sequel past₀ m₀ past m ∧
    m₀.state.store.frames.size = frame ∧ m₀.binding? = some (method, receiver) ∧
      method.decl = decl

namespace Reached

variable {past : Past} {m : Machine} {frame : Nat}

/-- The frame of a superclass holds the class that was named when it was made, for good. -/
theorem declared (reached : Reached past m) {methods : List FunDecl}
    (opened : past.opened[frame]? = some (.superclass methods)) :
    ∃ superclass, DeclaredBefore past m frame methods superclass ∧
      m.state.store.valueIn? frame "super" = some (.cls superclass) := by
  obtain ⟨past₀, m₀, _, before, sequel, here, ⟨superclass, rfl, declares⟩, bound⟩ :=
    reached.exists_making reserved_super opened nofun
      (fun m value => ∃ superclass, value = .cls superclass ∧ m.Declares methods superclass)
      fun files before opens => by
        obtain ⟨first, superclass, declares⟩ := Machine.opens_superclass opens
        exact ⟨first, _, ⟨superclass, rfl, declares⟩,
          Machine.advance_declares before.proper declares files⟩
  exact ⟨superclass, ⟨past₀, m₀, before, sequel, here, declares⟩, bound⟩

/-- The frame of a receiver holds the instance that the method was bound to. -/
theorem bound (reached : Reached past m) {decl : FunDecl}
    (opened : past.opened[frame]? = some (.receiver decl)) :
    ∃ receiver, BoundBefore past m frame decl receiver ∧
      m.state.store.valueIn? frame "this" = some (.inst receiver) := by
  obtain ⟨past₀, m₀, _, before, sequel, here, ⟨method, receiver, rfl, binds, same⟩, bound⟩ :=
    reached.exists_making reserved_this opened nofun
      (fun m value => ∃ method receiver, value = .inst receiver ∧
        m.binding? = some (method, receiver) ∧ method.decl = decl)
      fun files _ opens => by
        obtain ⟨first, method, receiver, binds, same⟩ := Machine.opens_receiver opens
        exact ⟨first, _, ⟨method, receiver, rfl, binds, same⟩,
          Machine.advance_binding binds files⟩
  exact ⟨receiver, ⟨past₀, m₀, method, before, sequel, here, binds, same⟩, bound⟩

end Reached

/--
Where `super` is evaluated: in the activation of a method of a class with a superclass, inside of any
blocks and functions.  Next to the frame of the activation is that of the receiver of the method, and
next to this is that of the superclass.  The frames were made for the scopes of the text.
-/
structure Machine.InMethodOf (m : Machine) (past : Past) (keyword : Reference) (method : FunDecl)
    (methods : List FunDecl) (receiver superclass : Nat) : Prop where
  listed : method ∈ methods
  text : ∃ p, past.Knows ⟨p, .super keyword⟩ ∧
    m.state.context.env.chain.map (fun frame => past.opened[frame]?) =
      (p.sites.map Site.opener ++ [Opener.globals]).map some
  chain : ∃ inner activation outer,
    m.state.context.env.chain = inner ++ activation :: receiver :: superclass :: outer ∧
    (∀ frame ∈ inner, ∃ opener, past.opened[frame]? = some opener ∧ opener.isInner = true) ∧
    past.opened[activation]? = some (.function method) ∧
    m.state.hops[keyword.id]? = some (inner.length + 2)
  ofReceiver : past.opened[receiver]? = some (.receiver method)
  ofSuperclass : past.opened[superclass]? = some (.superclass methods)

section InMethod

variable {past : Past} {m : Machine} {keyword : Reference} {name : Token}

/-- What `super` stands for is never missing: it is what the two frames hold. -/
theorem Machine.InMethodOf.superOf? {method : FunDecl} {methods : List FunDecl}
    {receiverFrame superFrame : Nat}
    (inMethod : m.InMethodOf past keyword method methods receiverFrame superFrame)
    {superclass : Class} {receiver : Instance}
    (above : m.state.store.valueIn? superFrame "super" = some (.cls superclass))
    (bound : m.state.store.valueIn? receiverFrame "this" = some (.inst receiver)) :
    m.state.superOf? keyword = some (superclass, receiver) := by
  obtain ⟨_, _, ⟨inner, activation, outer, chain, _, _, hops⟩, _, _⟩ := inMethod
  have far : m.state.context.env.ancestor? (inner.length + 1 + 1) = some superFrame := by
    rw [Env.ancestor?, chain, List.getElem?_append_right (by omega), Nat.add_assoc,
      Nat.add_sub_cancel_left]
    rfl
  have near : m.state.context.env.ancestor? (inner.length + 1) = some receiverFrame := by
    simp [Env.ancestor?, chain]
  have above : m.state.store.getAt? m.state.context.env (inner.length + 1 + 1) "super" =
      some (.cls superclass) := by
    rw [Store.getAt?, far]
    exact above
  have bound : m.state.store.getAt? m.state.context.env (inner.length + 1) "this" =
      some (.inst receiver) := by
    rw [Store.getAt?, near]
    exact bound
  unfold State.superOf?
  rw [hops]
  dsimp only
  rw [above, bound]

/-- `super` is only ever evaluated in a method of a class with a superclass. -/
theorem Reached.inMethodOf (reached : Reached past m)
    (evaluates : m.control = .eval (.super keyword name)) :
    ∃ method methods receiver superclass,
      m.InMethodOf past keyword method methods receiver superclass := by
  obtain ⟨w, sites, known, related⟩ := reached.related fun _ => Past.first_ne_unused
  obtain ⟨control, tasks, s⟩ := m
  obtain rfl : control = .eval (.super keyword name) := evaluates
  obtain @⟨p, _, _, _, _, _, _, _, opens, doing, _, states⟩ := related
  cases doing with
  | eval _ walked =>
  have isKnown : w.known ⟨p, .super keyword⟩ := (World.knows_cons.mp walked).1
  obtain ⟨loaded, among, listed⟩ := (known _).mp isKnown
  have nested : p.Nested := (reached.checked loaded among).nested _ listed
  obtain ⟨inner, method, methods, path, path', path'', outer, around, declared, plain, found⟩ :=
    nested.around_super (Event.derived_of_sound (states.fit _ isKnown).sound)
  have opener {frame : Nat} {site : Site} (made : w.sites[frame]? = some site) :
      past.opened[frame]? = some site.opener := by
    rw [← sites, List.getElem?_map, made]
    rfl
  -- Frames and scopes are in step, so the scopes around `super` say which frames are around.
  have lockstep := opens.lockstep states.store.globals
  rw [sites] at lockstep
  have hops := (states.hops_known isKnown rfl).trans found
  rw [around] at opens
  obtain ⟨first, rest, chain, long, each, opens⟩ := opens.split
  obtain _ | @⟨activation, _, _, _, ofMethod, opens⟩ := opens
  obtain _ | @⟨receiver, _, _, _, ofReceiver, opens⟩ := opens
  obtain _ | @⟨superclass, frames, _, _, ofSuperclass, _⟩ := opens
  refine ⟨method, methods, receiver, superclass, declared, ⟨p, ⟨loaded, among, listed⟩, lockstep⟩,
    ⟨first, activation, frames, chain, fun frame held => ?_, opener ofMethod, ?_⟩,
    opener ofReceiver, opener ofSuperclass⟩
  · obtain ⟨site, inside, made⟩ := each frame held
    exact ⟨site.opener, opener made, plain site inside⟩
  · rw [hops, long]

end InMethod

/--
`super` is static in the class and dynamic in the receiver.  Wherever a session evaluates
`super.name`, it does so in an activation of a method that the text declares in a class with a
superclass.  That class was declared before, when its superclass expression had a class as its
value; and the method was bound to a receiver.  From that class on upward the nearest method of the
name is found, and a closure of it is made whose `this` is that receiver; it is an error if there is
none.  What `super` stands for is never missing, and nothing that the session does later changes it.
-/
theorem super_is_static_in_class {past : Past} {m : Machine} {keyword : Reference} {name : Token}
    (reached : Reached past m) (evaluates : m.control = .eval (.super keyword name)) :
    ∃ method methods receiverFrame superFrame superclass receiver,
      m.InMethodOf past keyword method methods receiverFrame superFrame ∧
      DeclaredBefore past m superFrame methods superclass ∧
      BoundBefore past m receiverFrame method receiver ∧
      m.state.superOf? keyword = some (superclass, receiver) ∧
      (∀ files, match (superclass :: superclass.ancestors).findSome? fun ancestor =>
          ancestor.methods.find? name.lexeme with
        | some found => ∃ closure after,
          m.advance files = .giving (.value (.closure closure)) m.tasks after ∧
          closure.decl = found.decl ∧ closure.isInitializer = found.isInitializer ∧
          closure.env = found.env.branch m.state.store.frames.size ∧
          after.store.valueIn? m.state.store.frames.size "this" = some (.inst receiver)
        | none =>
          m.advance files =
            .giving (.failAt name (.undefinedSuperProperty name.lexeme superclass.name)) m.tasks
              m.state) ∧
      ∀ past' n, Sequel past m past' n →
        n.state.store.valueIn? superFrame "super" = some (.cls superclass) ∧
        n.state.store.valueIn? receiverFrame "this" = some (.inst receiver) := by
  obtain ⟨method, methods, receiverFrame, superFrame, inMethod⟩ := reached.inMethodOf evaluates
  obtain ⟨superclass, declared, above⟩ := reached.declared inMethod.ofSuperclass
  obtain ⟨receiver, binding, bound⟩ := reached.bound inMethod.ofReceiver
  have stands := inMethod.superOf? above bound
  refine ⟨method, methods, receiverFrame, superFrame, superclass, receiver, inMethod, declared,
    binding, stands, fun files => ?_, fun past' n sequel =>
      ⟨(sequel.fixes reached reserved_super).valueIn? above,
        (sequel.fixes reached reserved_this).valueIn? bound⟩⟩
  have stepped : m.advance files = .getSuper keyword name m.tasks m.state := by
    obtain ⟨control, tasks, s⟩ := m
    obtain rfl : control = .eval (.super keyword name) := evaluates
    rfl
  rw [← Class.findMethod?_eq, stepped]
  unfold Machine.getSuper
  rw [stands]
  dsimp only
  cases superclass.findMethod? name.lexeme with
  | none => rfl
  | some found =>
      refine ⟨(m.state.bindMethod found receiver).1, (m.state.bindMethod found receiver).2, rfl,
        ?_, ?_, ?_, m.state.valueIn?_bindMethod found receiver⟩
      all_goals rw [State.bindMethod_eq]

/-- A method that names `super`, called for an instance of a class below. -/
def calledFromBelow : String :=
  "class A \x7b m() \x7b\x7d \x7d class B < A \x7b m() \x7b super.m; \x7d \x7d " ++
    "class C < B \x7b\x7d C().m();"

/-- Whether `super` stands there for the class `A` and an instance of `C`. -/
def standsForBoth : Bool :=
  match Program.compile (Session.fresh .unlimited .unlimited false).state.nextReference
      calledFromBelow with
  | .ok program =>
    let m := Machine.stepped 17 ((Session.fresh .unlimited .unlimited false).begin 0 program)
    match m.control with
    | .eval (.super keyword _) =>
      match m.state.superOf? keyword with
      | some (superclass, receiver) => superclass.name = "A" && receiver.cls.name = "C"
      | none => false
    | _ => false
  | .error _ => false

/-- An instance of a class gets to a method above, and this one to what was above its own class. -/
theorem super_stands_for_both :
    ∃ past m keyword name methods frame superclass receiver,
      Reached past m ∧ m.control = .eval (.super keyword name) ∧
      DeclaredBefore past m frame methods superclass ∧
      m.state.superOf? keyword = some (superclass, receiver) ∧
      superclass.name = "A" ∧ receiver.cls.name = "C" := by
  have computed : standsForBoth = true := by decide +kernel
  unfold standsForBoth at computed
  split at computed
  · next program compiled =>
      dsimp only at computed
      split at computed
      · next keyword name evaluates =>
          split at computed
          · next superclass receiver stands =>
              obtain ⟨past, started, _⟩ :=
                (Session.Reachable.fresh _ _ _).atRest.begin 0 compiled
              obtain ⟨past, sequel⟩ := Sequel.of_stepped 17
              have reached := sequel.reached started
              obtain ⟨_, methods, _, frame, _, _, _, declared, _, stands', _⟩ :=
                super_is_static_in_class reached evaluates
              cases stands'.symm.trans stands
              obtain ⟨above, below⟩ := Bool.and_eq_true_iff.mp computed
              exact ⟨past, _, keyword, name, methods, frame, superclass, receiver, reached,
                evaluates, declared, stands, of_decide_eq_true above, of_decide_eq_true below⟩
          · cases computed
      · cases computed
  · cases computed

end Lox
