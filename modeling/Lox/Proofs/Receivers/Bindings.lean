import Lox.Proofs.Origins
import Lox.Proofs.Receivers.Spots
import Lox.Proofs.Super.Frames

/-!
# Methods that are bound

A method becomes a value only when it is bound to a receiver, in a frame of its own that nothing
changes later.  So `this` stands for that instance wherever it is evaluated in the method.
-/

namespace Lox

/-- The closure was made by binding a method to the receiver. -/
def Closure.BoundTo (closure : Closure) (past : Past) (m : Machine) (receiver : Instance) : Prop :=
  Since past m fun m₀ => ∃ method, m₀.binding? = some (method, receiver) ∧
    closure = ⟨m₀.state.store.nextIdentity, method.decl,
      method.env.branch m₀.state.store.frames.size, method.isInitializer⟩

/-- The closure was made by a statement that declares its function. -/
def Closure.Declared (closure : Closure) (past : Past) (m : Machine) : Prop :=
  Since past m fun m₀ => m₀.control = .exec (.funDecl closure.decl) ∧
    closure = ⟨m₀.state.store.nextIdentity, closure.decl, m₀.state.context.env, false⟩

/--
Where `this` is evaluated: in the body of an activation, inside of any blocks and functions.
-/
structure Machine.InBodyOf (m : Machine) (past : Past) (a : Activation) : Prop where
  begun : Since past m (·.activation? = some a)
  chain : ∃ inner, m.state.context.env.chain = inner ++ a.frame :: a.closure.env.chain ∧
    ∀ frame ∈ inner, ∃ opener, past.opened[frame]? = some opener ∧ opener.isInner = true

/-- Frames that were made for some scopes and the globals are told apart as the scopes are. -/
theorem Past.split_of_lockstep {past : Past} {chain : List Nat} {before after : List Site}
    {first second : Site}
    (lockstep : chain.map (fun frame => past.opened[frame]?) =
      ((before ++ first :: second :: after).map Site.opener ++ [Opener.globals]).map some) :
    ∃ inner frame frame' outer, chain = inner ++ frame :: frame' :: outer ∧
      inner.length = before.length ∧
      (∀ other ∈ inner, ∃ site ∈ before, past.opened[other]? = some site.opener) ∧
      past.opened[frame]? = some first.opener ∧ past.opened[frame']? = some second.opener := by
  simp only [List.map_append, List.map_cons, List.append_assoc, List.cons_append] at lockstep
  obtain ⟨inner, rest, rfl, ofBefore, ofRest⟩ := List.map_eq_append_iff.mp lockstep
  obtain ⟨frame, rest, rfl, ofFirst, ofRest⟩ := List.map_eq_cons_iff.mp ofRest
  obtain ⟨frame', outer, rfl, ofSecond, _⟩ := List.map_eq_cons_iff.mp ofRest
  refine ⟨inner, frame, frame', outer, rfl, ?_, fun other held => ?_, ofFirst, ofSecond⟩
  · have same := congrArg List.length ofBefore
    simpa using same
  · have among : past.opened[other]? ∈ inner.map fun frame => past.opened[frame]? :=
      List.mem_map_of_mem held
    rw [ofBefore, List.map_map] at among
    obtain ⟨site, listed, same⟩ := List.mem_map.mp among
    exact ⟨site, listed, same.symm⟩

section Closures

variable {past past' : Past} {m n : Machine} {closure : Closure} {receiver : Instance}

/-! ## Closures of methods -/

theorem Closure.BoundTo.sequel (bound : closure.BoundTo past m receiver)
    (later : Sequel past m past' n) : closure.BoundTo past' n receiver :=
  Since.sequel bound later

/-- A closure of a method has a frame that binds `this` to the receiver, for good. -/
theorem Closure.BoundTo.valueIn? (bound : closure.BoundTo past m receiver) :
    m.state.store.valueIn? closure.env.frame "this" = some (.inst receiver) := by
  obtain ⟨past₀, m₀, files, reached, sequel, method, binds, rfl⟩ := bound
  exact (sequel.fixes (reached.advance files) reserved_this).valueIn?
    (Machine.advance_binding binds files)

/-- The closures that a machine carries are those of functions, and of methods that were bound. -/
theorem Reached.origin_of_closure (reached : Reached past m) (carries : m.Carries (.closure closure)) :
    closure.Declared past m ∨ ∃ receiver, closure.BoundTo past m receiver := by
  rcases reached.origin carries with isPlain | ⟨past₀, m₀, files, before, sequel, makes⟩
  · cases isPlain
  · cases makes with
    | plain isPlain => cases isPlain
    | function now => exact .inl ⟨past₀, m₀, files, before, sequel, now, rfl⟩
    | method binds => exact .inr ⟨_, past₀, m₀, files, before, sequel, _, binds, rfl⟩

/-- So are those whose bodies are entered. -/
theorem Activation.origin {a : Activation} (begun : Since past m (·.activation? = some a)) :
    a.closure.Declared past m ∨ ∃ receiver, a.closure.BoundTo past m receiver := by
  obtain ⟨past₀, m₀, files, before, sequel, begins⟩ := begun
  cases Machine.activates_of_activation begins with
  | closure calls isClosure =>
      have carries := isClosure ▸ (Machine.Calling.offers calls).1
      exact (before.origin_of_closure carries).imp 
        (fun since => (since.advance files).sequel sequel)
        fun ⟨receiver, since⟩ => ⟨receiver, (since.advance files).sequel sequel⟩
  | init calls isClass accepted found =>
      exact .inr ⟨_, past₀, m₀, files, before, sequel, _,
        Machine.binding?_init calls isClass accepted found, rfl⟩

/-- What binds `this` is the frame of a closure of a method. -/
theorem Reached.bound_of_this (reached : Reached past m) {frame : Nat} {value : Value}
    (bound : m.state.store.valueIn? frame "this" = some value) :
    ∃ (closure : Closure) (receiver : Instance), closure.BoundTo past m receiver ∧
      closure.env.frame = frame ∧ value = .inst receiver := by
  revert frame value
  refine reached.kept (P := fun past m => ∀ {frame : Nat} {value : Value},
    m.state.store.valueIn? frame "this" = some value →
      ∃ (closure : Closure) (receiver : Instance), closure.BoundTo past m receiver ∧
        closure.env.frame = frame ∧ value = .inst receiver) ?_ ?_ ?_
  · intro output now frame value bound
    have none : State.natives.find? "this" = none := rfl
    cases frame with
    | zero => cases none.symm.trans bound
    | succ frame => cases bound
  · intro past m reached ih files frame value bound
    rcases (m.changes_advance files).bindings frame "this" with same | ⟨written, binds, found⟩
    · obtain ⟨closure, receiver, isBound, isFrame, isReceiver⟩ := ih (same.symm.trans bound)
      exact ⟨closure, receiver, isBound.advance files, isFrame, isReceiver⟩
    · cases found.symm.trans bound
      obtain ⟨rfl, method, receiver, binding, rfl⟩ := reached.binds_this binds
      exact ⟨_, receiver, .now reached ⟨method, binding, rfl⟩ files, rfl, rfl⟩
  · intro past m past' n _ ih rests frame value bound
    rw [rests.store] at bound
    obtain ⟨closure, receiver, isBound, isFrame, isReceiver⟩ := ih bound
    exact ⟨closure, receiver, isBound.sequel rests.sequel, isFrame, isReceiver⟩

/-! ## Where `this` is evaluated -/

/-- Where a function is declared, the innermost frame was made for the innermost scope. -/
theorem MachineRel.declares {r : Respelling} {w : World} {m' : Machine}
    (related : MachineRel r w m m') {decl : FunDecl}
    (declares : m.control = .exec (.funDecl decl)) :
    ∃ p, w.known ⟨p, .define decl.name⟩ ∧
      w.sites[m.state.context.env.frame]? = some (p.sites.head?.getD globalsSite) := by
  obtain @⟨p, _, _, _, _, _, _, _, opens, doing, _, states⟩ := related
  cases declares
  cases doing with
  | exec _ _ walked =>
      exact ⟨p, (World.knows_cons.mp walked).1, opens.innermost states.store.globals⟩

/-- A function is declared in a frame that was made for a block or a body, or in the globals. -/
theorem Reached.innermost (reached : Reached past m) {decl : FunDecl}
    (declares : m.control = .exec (.funDecl decl)) :
    ∃ opener, past.opened[m.state.context.env.frame]? = some opener ∧
      (opener = .globals ∨ opener.isInner = true) := by
  obtain ⟨w, sites, known, related⟩ := reached.related fun _ => Past.first_ne_unused
  obtain ⟨p, isKnown, made⟩ := related.declares declares
  obtain ⟨loaded, among, listed⟩ := (known _).mp isKnown
  have inClasses : p.InClasses := (reached.checked loaded among).inClasses _ listed
  refine ⟨_, by rw [← sites, List.getElem?_map, made]; rfl, ?_⟩
  cases first : p.sites.head? with
  | none => exact .inl rfl
  | some site => exact .inr (inClasses.innermost site first)

/-- A closure of a function is not in the frame of a receiver. -/
theorem Closure.Declared.not_receiver (declared : closure.Declared past m) {decl : FunDecl} :
    past.opened[closure.env.frame]? ≠ some (.receiver decl) := by
  obtain ⟨past₀, m₀, files, before, sequel, now, same⟩ := declared
  obtain ⟨opener, opened, isInner⟩ := before.innermost now
  have isFrame : closure.env.frame = m₀.state.context.env.frame := by rw [same]
  obtain ⟨added, joined⟩ := (Sequel.trans (.advance files .here) sequel).opened
  obtain ⟨made, _⟩ := List.getElem?_eq_some_iff.mp opened
  rw [← joined, isFrame, List.getElem?_append_left made, opened]
  rintro ⟨⟩
  rcases isInner with isGlobals | inside
  · cases isGlobals
  · cases inside

/-- The scope of a function is that of an activation, around which there is its environment. -/
theorem Grew.activation {frame : Nat} {outer : List Nat} (grew : Grew past m frame outer)
    {decl : FunDecl} (opened : past.opened[frame]? = some (.function decl)) :
    ∃ a, Since past m (·.activation? = some a) ∧ a.frame = frame ∧ a.closure.env.chain = outer := by
  obtain ⟨opener, isOpener, past₀, m₀, files, before, sequel, env, branches, around⟩ := grew
  cases isOpener.symm.trans opened
  cases branches with
  | activation begins => exact ⟨_, ⟨past₀, m₀, files, before, sequel, begins⟩, rfl, around⟩

/-- `this` is only evaluated in the body of a method, and is the receiver that this is bound to. -/
theorem Reached.reads_this (reached : Reached past m) {keyword : Reference}
    (evaluates : m.control = .eval (.this keyword)) :
    ∃ a receiver, m.InBodyOf past a ∧ a.closure.BoundTo past m receiver ∧
      m.state.read keyword = .value (.inst receiver) := by
  have next : m.lookup? = some (.this keyword) := by
    obtain ⟨control, tasks, s⟩ := m
    cases evaluates
    rfl
  obtain ⟨w, sites, known, related⟩ := reached.related fun _ => Past.first_ne_unused
  obtain ⟨p, reference, looksUp⟩ := related.looksUp next
  obtain @⟨_, _, control, _, tasks, _, s, _, _, _, _, states⟩ := related
  obtain ⟨loaded, among, listed⟩ := (known _).mp looksUp.known
  have inClasses : p.InClasses := (reached.checked loaded among).inClasses _ listed
  obtain ⟨before, method, path, path', after, around, plain⟩ :=
    inClasses.within (Event.inClass_of_sound (states.fit _ looksUp.known).sound)
  have agrees := looksUp.agrees states sites control tasks
  obtain ⟨rfl, isThis⟩ := Prod.mk.inj (Option.some.inj looksUp.sought)
  -- The scopes around `this` say which frames are around it, and how far the receiver is.
  have lockstep := agrees.lockstep
  dsimp only at lockstep
  rw [around] at lockstep
  obtain ⟨inner, frame, frame', outer, chain, long, each, ofMethod, ofReceiver⟩ :=
    Past.split_of_lockstep lockstep
  have far : s.hops[keyword.id]? = some (inner.length + 1) := by
    rw [long, ← inClasses.hops?_this around plain]
    exact agrees.recorded
  obtain ⟨a, begun, rfl, outside⟩ : ∃ a, Since past _ (·.activation? = some a) ∧
      a.frame = frame ∧ a.closure.env.chain = frame' :: outer := by
    rcases reached.grown .current inner frame (frame' :: outer) chain with ⟨_, none⟩ | grew
    · cases none
    · exact grew.activation ofMethod
  obtain ⟨rfl, _⟩ := List.cons.inj outside
  obtain ⟨receiver, bound⟩ :=
    (Activation.origin begun).resolve_left fun declared => declared.not_receiver ofReceiver
  refine ⟨a, receiver, ⟨begun, inner, outside ▸ chain, fun other held => ?_⟩, bound, ?_⟩
  · obtain ⟨site, inside, opened⟩ := each other held
    exact ⟨site.opener, opened, plain site inside⟩
  · have found : s.valueOf? keyword = some (.inst receiver) := by
      rw [State.valueOf?, far]
      dsimp only
      rw [← isThis, Store.getAt?, Env.ancestor?, chain, List.getElem?_append_right (by omega),
        Nat.add_sub_cancel_left]
      exact bound.valueIn?
    dsimp only
    rw [State.read, found]

end Closures

end Lox
