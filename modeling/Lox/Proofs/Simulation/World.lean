import Lox.Proofs.Compiled
import Lox.Proofs.Scope.Respelled

/-!
# What frames were made for

A world says of each frame of a store for which scope of a program it was made, and which events
of walks the run knows.  It grows while a program runs.  An environment is opened for a spot if
its frames were made for the scopes of the spot, in their order, and the last is that of the
globals; it holds the names of the spot if its frames bind them.
-/

namespace Lox

/-! ## Spots where statements stand -/

namespace Spot

/-- Whether the innermost scope knows the name and its initializer is over. -/
def isReady (name : String) (p : Spot) : Bool :=
  match p.scopes with
  | [] => false
  | scope :: _ => scope.names.find? name == some true

/-- No initializer is open; so it is wherever a statement stands. -/
def Settled (p : Spot) : Prop := ∀ name, p.isUnready name = false

theorem settled_root : Spot.root.Settled := fun _ => rfl

theorem settled_push (site : Site) (p : Spot) : (p.push site).Settled := fun _ => rfl

/-- Entering a name changes what the innermost scope knows of this name alone. -/
theorem find?_enter {name : String} {ready : Bool} {p : Spot} {scope : OpenScope}
    {outer : List OpenScope} (opened : p.scopes = scope :: outer) :
    (p.enter name ready).scopes =
      { scope with names := scope.names.insert name ready } :: outer := by
  simp [enter, opened]

theorem enter_of_root {name : String} {ready : Bool} {p : Spot} (opened : p.scopes = []) :
    p.enter name ready = p := by
  simp [enter, opened]

theorem isReady_declare {name other : String} {p : Spot}
    (ready : (p.declare name).isReady other = true) : p.isReady other = true := by
  cases opened : p.scopes with
  | nil => rwa [declare, enter_of_root opened] at ready
  | cons scope outer =>
      unfold isReady declare at ready
      rw [find?_enter opened] at ready
      dsimp only at ready
      rw [Bindings.find?_insert] at ready
      split at ready
      · cases ready
      · simpa [isReady, opened] using ready

theorem isReady_define {name other : String} {p : Spot}
    (ready : (p.define name).isReady other = true) : other = name ∨ p.isReady other = true := by
  cases opened : p.scopes with
  | nil =>
      rw [define, enter_of_root opened] at ready
      exact .inr ready
  | cons scope outer =>
      unfold isReady define at ready
      rw [find?_enter opened] at ready
      dsimp only at ready
      rw [Bindings.find?_insert] at ready
      split at ready
      · next same => exact .inl same
      · exact .inr (by simpa [isReady, opened] using ready)

theorem isUnready_define {name other : String} {p : Spot}
    (unready : (p.define name).isUnready other = true) : p.isUnready other = true := by
  unfold define at unready
  cases opened : p.scopes with
  | nil => rwa [enter_of_root opened] at unready
  | cons scope outer =>
      unfold isUnready at unready
      rw [find?_enter opened] at unready
      dsimp only at unready
      rw [Bindings.find?_insert] at unready
      split at unready
      · cases unready
      · simpa [isUnready, opened] using unready

theorem isUnready_declare {name other : String} {p : Spot} (different : other ≠ name)
    (unready : (p.declare name).isUnready other = true) : p.isUnready other = true := by
  unfold declare at unready
  cases opened : p.scopes with
  | nil => rwa [enter_of_root opened] at unready
  | cons scope outer =>
      unfold isUnready at unready
      rw [find?_enter opened] at unready
      dsimp only at unready
      rw [Bindings.find?_insert_of_ne different] at unready
      simpa [isUnready, opened] using unready

theorem Settled.introduce {p : Spot} (settled : p.Settled) (name : String) :
    (p.introduce name).Settled := by
  intro other
  refine eq_false_of_ne_true fun unready => ?_
  by_cases same : other = name
  · unfold Spot.introduce Spot.define Spot.declare at unready
    cases opened : p.scopes with
    | nil =>
        rw [enter_of_root opened, enter_of_root opened, settled] at unready
        cases unready
    | cons scope outer =>
        unfold isUnready at unready
        rw [find?_enter (find?_enter opened)] at unready
        simp [same] at unready
  · have before := isUnready_declare same (isUnready_define unready)
    rw [settled other] at before
    cases before

theorem Settled.introduceAll {p : Spot} (settled : p.Settled) (names : List String) :
    (p.introduceAll names).Settled := by
  induction names generalizing p with
  | nil => exact settled
  | cons name names ih => exact ih (settled.introduce name)

theorem Settled.after {p : Spot} (settled : p.Settled) (stmt : Stmt) : (p.after stmt).Settled :=
  settled.introduceAll stmt.declares

/-- A scope that is opened with one name in it, which is ready. -/
theorem settled_pushWith (site : Site) (name : String) (p : Spot) :
    ((p.push site).define name).Settled := by
  intro other
  unfold isUnready define
  rw [find?_enter rfl]
  dsimp only
  rw [Bindings.find?_insert]
  split <;> rfl

theorem settled_forBody (path : List Nat) (decl : FunDecl) (p : Spot) :
    (p.forBody path decl).Settled :=
  have settled : (p.forFunction path decl).Settled := fun _ => rfl
  settled.introduceAll _

/-- The names that are ready in the body of a function are those of its parameters. -/
theorem isReady_introduceAll {names : List String} {other : String} {p : Spot}
    (ready : (p.introduceAll names).isReady other = true) :
    other ∈ names ∨ p.isReady other = true := by
  induction names generalizing p with
  | nil => exact .inr ready
  | cons name names ih =>
      rcases ih ready with later | now
      · exact .inl (List.mem_cons_of_mem _ later)
      · rcases isReady_define now with rfl | before
        · exact .inl List.mem_cons_self
        · exact .inr (isReady_declare before)

end Spot

/-- What makes an event of a loaded program fit to be executed, as written and respelled. -/
structure Event.Fit (r : Respelling) (event : Event) : Prop where
  sound : event.fault? = none
  proper : event.act.Proper
  /-- Inside of the scopes of a respelling its new spelling is not used yet. -/
  allowed : ∀ name ∈ event.act.names, ∀ site ∈ event.spot.sites,
    site.path = r.target → name ≠ r.new
  /-- A function or a class is not declared under the name that is respelled. -/
  defined : ∀ name, event.act = .define name → r.spellHere event.spot name.lexeme = name.lexeme

structure World where
  /-- For each frame the scope that it was made for. -/
  sites : List Site
  /-- The events of the programs that were loaded. -/
  known : Event → Prop
  /-- A number that no token gets any more. -/
  used : Nat

/-- The site of the globals, which belong to no program. -/
def globalsSite : Site := ⟨.globals, []⟩

/-- Names of globals are never respelled. -/
theorem Respelling.spell_globals {r : Respelling} (inside : r.target ≠ []) (name : String) :
    r.spell globalsSite name = name :=
  spell_of_ne (fun path => inside path.symm) name

namespace World

/-- All of some events are known. -/
def Knows (w : World) (events : List Event) : Prop := ∀ event ∈ events, w.known event

/-- A chain of frames that were made for some scopes and for the globals. -/
inductive Opens (w : World) : List Nat → List Site → Prop where
  | globals : Opens w [0] []
  | scope {frame : Nat} {frames : List Nat} {site : Site} {sites : List Site}
      (made : w.sites[frame]? = some site) (outer : Opens w frames sites) :
      Opens w (frame :: frames) (site :: sites)

/-- The frames of an environment bind the names of a spot, but for those in an initializer. -/
structure Holds (store : Store) (env : Env) (p : Spot) : Prop where
  here : ∀ name, p.isReady name = true → (store.bindings env.frame).has name = true
  outer : ∀ (distance frame : Nat) (scope : OpenScope) (name : String),
    env.outer[distance]? = some frame → p.scopes.tail[distance]? = some scope →
      scope.names.has name = true → (store.bindings frame).has name = true
  /-- A receiver is bound at once, never by an initializer. -/
  free : p.isUnready "this" = false

/-- An environment in which what stands at a spot can be executed. -/
structure Stands (w : World) (store : Store) (env : Env) (p : Spot) : Prop where
  opens : w.Opens env.chain p.sites
  holds : Holds store env p

/-- A later world and store: nothing is lost, and no receiver is bound anew. -/
structure Grows (w : World) (store : Store) (w' : World) (store' : Store) : Prop where
  sites : w.sites <+: w'.sites
  known : ∀ event, w.known event → w'.known event
  bound : ∀ frame name, (store.bindings frame).has name = true →
    (store'.bindings frame).has name = true
  receiver : ∀ frame value, store.valueIn? frame "this" = some value →
    store'.valueIn? frame "this" = some value

variable {w w' w'' : World} {store store' store'' : Store}

@[simp] theorem knows_cons {event : Event} {events : List Event} :
    w.Knows (event :: events) ↔ w.known event ∧ w.Knows events :=
  List.forall_mem_cons

@[simp] theorem knows_append {before after : List Event} :
    w.Knows (before ++ after) ↔ w.Knows before ∧ w.Knows after :=
  List.forall_mem_append

namespace Grows

theorem refl : Grows w store w store :=
  ⟨List.prefix_rfl, fun _ isKnown => isKnown, fun _ _ has => has, fun _ _ found => found⟩

theorem trans (first : Grows w store w' store') (then' : Grows w' store' w'' store'') :
    Grows w store w'' store'' :=
  ⟨first.sites.trans then'.sites, fun event isKnown => then'.known event (first.known event isKnown),
    fun frame name has => then'.bound frame name (first.bound frame name has),
    fun frame value found => then'.receiver frame value (first.receiver frame value found)⟩

theorem site (grows : Grows w store w' store') {frame : Nat} {site : Site}
    (made : w.sites[frame]? = some site) : w'.sites[frame]? = some site := by
  obtain ⟨added, joined⟩ := grows.sites
  rw [← joined, List.getElem?_append_left (List.getElem?_eq_some_iff.mp made).1]
  exact made

end Grows

namespace Opens

variable {frames : List Nat} {sites : List Site}

theorem mono (opens : w.Opens frames sites) (grows : Grows w store w' store') :
    w'.Opens frames sites := by
  induction opens with
  | globals => exact .globals
  | scope made _ ih => exact .scope (grows.site made) ih

/-- Each scope has a frame of its own. -/
theorem frame (opens : w.Opens frames sites) {distance : Nat} {site : Site}
    (opened : sites[distance]? = some site) :
    ∃ frame, frames[distance]? = some frame ∧ w.sites[frame]? = some site := by
  induction opens generalizing distance with
  | globals => simp at opened
  | @scope frame _ _ _ made _ ih =>
      cases distance with
      | zero => exact ⟨frame, rfl, made.trans opened⟩
      | succ distance => exact ih opened

/-- The last frame of a chain is that of the globals. -/
theorem getLast? (opens : w.Opens frames sites) : frames.getLast? = some 0 := by
  induction opens with
  | globals => rfl
  | scope _ _ ih => rw [List.getLast?_cons, ih]; rfl

/-- All frames of a chain have been made. -/
theorem lt (opens : w.Opens frames sites) (globals : w.sites[0]? = some globalsSite) :
    ∀ frame ∈ frames, frame < w.sites.length := by
  induction opens with
  | globals =>
      intro frame held
      rw [List.mem_singleton.mp held]
      exact (List.getElem?_eq_some_iff.mp globals).1
  | scope made _ ih =>
      exact List.forall_mem_cons.mpr ⟨(List.getElem?_eq_some_iff.mp made).1, ih⟩

/-- The innermost frame was made for the innermost scope, or for the globals if there is none. -/
theorem innermost {env : Env} (opens : w.Opens env.chain sites)
    (globals : w.sites[0]? = some globalsSite) :
    w.sites[env.frame]? = some (sites.head?.getD globalsSite) := by
  obtain ⟨frame, outer⟩ := env
  cases opens with
  | globals => exact globals
  | scope made _ => exact made

end Opens

namespace Holds

variable {env : Env} {p : Spot}

theorem mono (holds : Holds store env p)
    (bound : ∀ frame name, (store.bindings frame).has name = true →
      (store'.bindings frame).has name = true) : Holds store' env p :=
  ⟨fun name ready => bound _ name (holds.here name ready),
    fun distance frame scope name found opened known =>
      bound frame name (holds.outer distance frame scope name found opened known), holds.free⟩

theorem root {p : Spot} (none : p.scopes = []) : Holds store env p := by
  refine ⟨fun name ready => ?_, fun distance frame scope name _ opened _ => ?_, ?_⟩
  · rw [Spot.isReady, none] at ready
    cases ready
  · rw [none] at opened
    cases opened
  · rw [Spot.isUnready, none]

/-- While its initializer is evaluated a variable need not be bound. -/
theorem declare (holds : Holds store env p) {name : String} (notThis : name ≠ "this") :
    Holds store env (p.declare name) := by
  refine ⟨fun other ready => holds.here other (Spot.isReady_declare ready), ?_, ?_⟩
  · rw [Spot.declare, Spot.enter_tail]
    exact holds.outer
  · refine eq_false_of_ne_true fun unready => ?_
    have before := Spot.isUnready_declare notThis.symm unready
    rw [holds.free] at before
    cases before

/-- Once it is bound, a variable is held. -/
theorem define {name : String} (holds : Holds store env p)
    (bound : (store.bindings env.frame).has name = true) : Holds store env (p.define name) := by
  refine ⟨fun other ready => ?_, ?_, ?_⟩
  · rcases Spot.isReady_define ready with rfl | before
    · exact bound
    · exact holds.here other before
  · rw [Spot.define, Spot.enter_tail]
    exact holds.outer
  · refine eq_false_of_ne_true fun unready => ?_
    have before := Spot.isUnready_define unready
    rw [holds.free] at before
    cases before

/-- A name that is bound at once is held. -/
theorem introduce (holds : Holds store env p) {name : String} (notThis : name ≠ "this")
    (bound : (store.bindings env.frame).has name = true) : Holds store env (p.introduce name) :=
  (holds.declare notThis).define bound

/-- What is around a spot is not held anywhere. -/
theorem inClass (holds : Holds store env p) (kind : ClassSurroundings) :
    Holds store env (p.inClass kind) :=
  ⟨holds.here, holds.outer, holds.free⟩

/-- A new frame that binds what the new scope knows is held in front of the others. -/
theorem push (holds : Holds store env p) (settled : p.Settled)
    (bound : ∀ frame name, (store.bindings frame).has name = true →
      (store'.bindings frame).has name = true)
    {q : Spot} {frame : Nat} (outer : q.scopes.tail = p.scopes) (settled' : q.Settled)
    (here : ∀ name, q.isReady name = true → (store'.bindings frame).has name = true) :
    Holds store' (env.branch frame) q := by
  refine ⟨here, fun distance frame scope name found opened known => ?_, settled' "this"⟩
  rw [outer] at opened
  cases distance with
  | zero =>
      cases found
      refine bound env.frame name (holds.here name ?_)
      cases scopes : p.scopes with
      | nil =>
          rw [scopes] at opened
          cases opened
      | cons scope' scopes' =>
          rw [scopes] at opened
          cases opened
          have ready := settled name
          simp only [Spot.isUnready, scopes] at ready
          simp only [Spot.isReady, scopes]
          unfold Bindings.has at known
          obtain ⟨state, isState⟩ := Option.isSome_iff_exists.mp known
          rw [isState] at ready ⊢
          cases state with
          | false => cases ready
          | true => rfl
  | succ distance =>
      refine bound frame name (holds.outer distance frame scope name found ?_ known)
      rwa [List.getElem?_tail]

/-- A name that analysis finds, and that is not in its initializer, is bound there. -/
theorem bound (holds : Holds store env p) {name : String} {distance frame : Nat}
    (ready : p.isUnready name = false) (found : Analysis.hops? name p.names = some distance)
    (at' : env.ancestor? distance = some frame) : (store.bindings frame).has name = true := by
  obtain ⟨inRange, has, _⟩ := List.findIdx?_eq_some_iff_getElem.mp found
  unfold Spot.names at inRange has
  rw [List.length_map] at inRange
  rw [List.getElem_map] at has
  cases distance with
  | zero =>
      cases at'
      refine holds.here name ?_
      cases scopes : p.scopes with
      | nil => simp [scopes] at inRange
      | cons scope outer =>
          simp only [scopes, List.getElem_cons_zero] at has
          simp only [Spot.isUnready, scopes] at ready
          simp only [Spot.isReady, scopes]
          obtain ⟨state, isState⟩ := Option.isSome_iff_exists.mp has
          rw [isState] at ready ⊢
          cases state with
          | false => cases ready
          | true => rfl
  | succ distance =>
      refine holds.outer distance frame p.scopes[distance + 1] name at' ?_ has
      rw [List.getElem?_tail]
      exact List.getElem?_eq_getElem inRange

end Holds

theorem Grows.knows (grows : Grows w store w' store') {events : List Event}
    (knows : w.Knows events) : w'.Knows events :=
  fun event listed => grows.known event (knows event listed)

/-- A scope with one name in it is opened in front of an environment. -/
theorem Stands.pushWith {env : Env} {p : Spot} (stands : w.Stands store env p)
    (settled : p.Settled) {site : Site} {frame : Nat} (made : w.sites[frame]? = some site)
    {name : String} (bound : (store.bindings frame).has name = true) :
    w.Stands store (env.branch frame) ((p.push site).define name) := by
  refine ⟨?_, stands.holds.push settled (fun _ _ has => has) (Spot.define_tail _ _)
    (Spot.settled_pushWith _ _ _) fun other ready => ?_⟩
  · rw [Spot.define_sites]
    exact .scope made stands.opens
  · rcases Spot.isReady_define ready with rfl | none
    · exact bound
    · cases none

theorem Stands.inClass {env : Env} {p : Spot} (stands : w.Stands store env p)
    (kind : ClassSurroundings) : w.Stands store env (p.inClass kind) :=
  ⟨stands.opens, stands.holds.inClass kind⟩

theorem Stands.mono {env : Env} {p : Spot} (stands : w.Stands store env p)
    (grows : Grows w store w' store') : w'.Stands store' env p :=
  ⟨stands.opens.mono grows, stands.holds.mono grows.bound⟩

end World

end Lox
