import Lox.Proofs.Contents
import Lox.Proofs.Extents
import Lox.Proofs.Loops.Meaning
import Lox.Proofs.Members

/-!
# What blocks share

A block is entered in a new frame.  While its statements run, the environment ends with that frame
and what is around it; so does the environment that a function or a class keeps which is declared
there, and with it that of every call of such a function.  Whatever is looked up in such an
environment is found in the frame just if the scope of the block is the nearest that knows the name.
-/

namespace Lox

/-- The environment in a block that is entered next. -/
def State.inner (s : State) : Env := s.context.env.branch s.store.frames.size

namespace Machine

variable {m : Machine} {env outer : Env}

/-- A function, or a method of a class, that the next step declares keeps an environment. -/
inductive DeclaresIn (m : Machine) : Env → Prop where
  | function {closure : Closure} (now : m.control = .exec (.funDecl closure.decl))
      (makes : m.Makes (.closure closure)) : DeclaresIn m closure.env
  | method {name : Token} {cls : Class} {key : String} {method : Method}
      (declares : m.DeclaresClass name cls) (held : cls.methods.find? key = some method) :
      DeclaresIn m method.env

/-- What is declared keeps the current environment, and for `super` one more frame. -/
theorem DeclaresIn.extends_env (declares : m.DeclaresIn env) :
    env.Extends m.state.context.env := by
  cases declares with
  | function now makes =>
      cases makes with
      | plain isPlain => cases isPlain
      | function => exact .refl _
      | @method made receiver binds =>
          obtain ⟨control, tasks, s⟩ := m
          obtain rfl : control = .exec (.funDecl made.decl) := now
          cases binds
  | method declares held =>
      cases declares with
      | root now =>
          rw [(State.mem_of_methodTable held).2.1]
          exact .refl _
      | derived now read =>
          rw [(State.mem_of_methodTable held).2.1]
          exact .branch (.refl _) _

end Machine

/-- A call runs in the environment that its function keeps. -/
theorem Activation.extends_env {a : Activation} {n : Machine} {outer : Env}
    (runs : Machine.RunsWithin a.waiting a.machine n) (keeps : a.closure.env.Extends outer) :
    n.state.context.env.Extends outer := by
  have inside := runs.extends_env [.body a.closure.decl.body] (by rw [a.machine_eq]; rfl) rfl
  refine inside.trans ?_
  rw [a.env_machine]
  exact keeps.branch a.frame

theorem State.extends_bindMethod {method : Method} {outer : Env} (keeps : method.env.Extends outer)
    (receiver : Instance) (s : State) : (s.bindMethod method receiver).1.env.Extends outer := by
  rw [bindMethod_eq]
  exact keeps.branch _

/-! ## What is found in a block -/

section Blocks

variable {past past' : Past} {m n : Machine} {body : List Stmt}
  {files : String → Except Failure String}

/-- The frame of a block stays that of the block. -/
theorem Reached.opened_block (reached : Reached past m) (executes : m.control = .exec (.block body))
    (sequel : Sequel (past.after files m) (m.advance files) past' n) :
    past'.opened[m.state.store.frames.size]? = some (.block body) := by
  obtain ⟨control, tasks, s⟩ := m
  cases executes
  obtain ⟨later, joined⟩ := sequel.opened
  have made : (past.after files ⟨.exec (.block body), tasks, s⟩).opened[s.store.frames.size]? =
      some (.block body) := by
    rw [Past.after, List.getElem?_append_right (Nat.le_of_eq reached.length_opened),
      reached.length_opened, Nat.sub_self]
    rfl
  obtain ⟨short, _⟩ := List.getElem?_eq_some_iff.mp made
  rw [← joined, List.getElem?_append_left short]
  exact made

/-- Frames and scopes of one number belong together. -/
theorem Machine.Agrees.scope_of_frame {event : Event} {reference : Reference} {name : String}
    (agrees : n.Agrees past event reference name) {inner outer : List Nat} {frame : Nat}
    {opener : Opener} (chain : n.state.context.env.chain = inner ++ frame :: outer)
    (opened : past.opened[frame]? = some opener) (notGlobals : opener ≠ .globals) :
    ∃ scope, event.spot.scopes[inner.length]? = some scope ∧ scope.site.opener = opener := by
  have here :
      (event.spot.sites.map Site.opener ++ [Opener.globals])[inner.length]? = some opener := by
    have lockstep := congrArg (fun made => made[inner.length]?) agrees.lockstep
    rw [chain, List.getElem?_map, List.getElem?_append_right (Nat.le_refl _), Nat.sub_self,
      List.getElem?_map] at lockstep
    obtain ⟨_, isMade, same⟩ := Option.map_eq_some_iff.mp lockstep.symm
    exact isMade.trans (same.trans opened)
  by_cases short : inner.length < event.spot.sites.length
  · rw [List.getElem?_append_left (by simpa using short), Spot.sites, List.map_map,
      List.getElem?_map] at here
    exact Option.map_eq_some_iff.mp here
  · rw [List.getElem?_append_right (by simpa using short)] at here
    exact absurd (List.mem_singleton.mp (List.mem_of_getElem? here)) notGlobals

/--
What is looked up inside of a block, in an environment that ends with the one of the block behind
some inner frames.  It stands in one of the statements of the block, and is found in the frame of
the block just if no nearer scope knows the name, and the scope of the block does.
-/
inductive Machine.FindsIn (n : Machine) (past : Past) (body : List Stmt) (inner : List Nat)
    (frame : Nat) : Act → Prop where
  | intro {reference : Reference} {event : Event} {scope : OpenScope} {before after : List Stmt}
      {member : Stmt}
      (agrees : n.Agrees past event reference reference.name.lexeme)
      (sought : event.act.sought? = some (reference, reference.name.lexeme))
      (isOpen : event.spot.scopes[inner.length]? = some scope)
      (isBlock : scope.site.opener = .block body)
      (whole : body = before ++ member :: after)
      (stands : scope.StandsIn [] before member event.act)
      (distance : event.distance? = some inner.length ↔
        (∀ nearer ∈ event.spot.scopes.take inner.length,
          nearer.names.has reference.name.lexeme = false) ∧
            scope.names.has reference.name.lexeme = true)
      (found : event.distance? = some inner.length → n.state.place? reference = some frame ∧
        n.state.valueOf? reference = n.state.store.valueIn? frame reference.name.lexeme) :
      FindsIn n past body inner frame event.act

theorem Reached.findsIn (reached : Reached past m) (executes : m.control = .exec (.block body))
    (sequel : Sequel (past.after files m) (m.advance files) past' n) {act : Act}
    (next : n.lookup? = some act) {inner : List Nat}
    (chain : n.state.context.env.chain = inner ++ m.state.inner.chain) :
    n.FindsIn past' body inner m.state.store.frames.size act := by
  have there := sequel.reached (reached.advance files)
  obtain ⟨w, sites, known, related⟩ := there.related fun _ => Past.first_ne_unused
  obtain ⟨p, reference, looksUp⟩ := related.looksUp next
  obtain @⟨_, _, control, _, tasks, _, s, _, _, _, _, states⟩ := related
  have agrees := looksUp.agrees states sites control tasks
  obtain ⟨loaded, among, walked⟩ := (known _).mp looksUp.known
  have opened := reached.opened_block executes sequel
  obtain ⟨scope, isOpen, isBlock⟩ := agrees.scope_of_frame chain opened nofun
  have seeks : act.sought?.isSome = true := by rw [looksUp.sought]; rfl
  obtain ⟨before, member, after, whole, stands⟩ :=
    walkProgram_follows walked seeks scope (List.mem_of_getElem? isOpen) [] body
      (by rw [isBlock]; rfl)
  have distance? : Event.distance? ⟨p, act⟩ = Analysis.hops? reference.name.lexeme p.names := by
    rw [Event.distance?, looksUp.sought]
    rfl
  refine .intro agrees looksUp.sought isOpen isBlock whole stands ?_ fun found => ?_
  · rw [distance?]
    exact Spot.hops?_eq_some_iff isOpen
  · have recorded := agrees.recorded.trans found
    have extends' : s.context.env.Extends m.state.inner := ⟨inner, chain⟩
    have length := congrArg List.length chain
    rw [List.length_append] at length
    have above := extends'.ancestor?_eq length
    rw [State.place?, State.valueOf?, recorded]
    refine ⟨above, ?_⟩
    dsimp only
    rw [Store.getAt?, above]
    rfl

/--
A block has a scope of its own: a new frame, which what runs in the block sees, what is declared
there, and whatever is called that was.
-/
structure Machine.OpensScope (past : Past) (m : Machine) (body : List Stmt) : Prop where
  /-- Nothing refers to the frame before, and it is empty at first. -/
  new : ∀ env, m.Sees env → m.state.store.frames.size ∉ env.chain
  entered : ∀ files, (m.advance files).state.context.env = m.state.inner ∧
    (m.advance files).state.store.bindings m.state.store.frames.size = []
  /-- No later frame is the same. -/
  later : ∀ files past' n, Sequel (past.after files m) (m.advance files) past' n →
    m.state.store.frames.size < n.state.store.frames.size
  /-- The frame binds only what the block declares. -/
  contents : ∀ files past' n name value, Sequel (past.after files m) (m.advance files) past' n →
    n.state.store.valueIn? m.state.store.frames.size name = some value → name ∈ declaresAll body
  inside : ∀ files n, RunsWithin (.leave m.state.context :: m.tasks) (m.advance files) n →
    n.state.context.env.Extends m.state.inner ∧
      ∀ env, n.DeclaresIn env → env.Extends m.state.inner
  bound : ∀ (method : Method) receiver (s : State), method.env.Extends m.state.inner →
    (s.bindMethod method receiver).1.env.Extends m.state.inner
  called : ∀ (a : Activation) n, a.closure.env.Extends m.state.inner →
    RunsWithin a.waiting a.machine n → n.state.context.env.Extends m.state.inner
  found : ∀ files past' n act inner, Sequel (past.after files m) (m.advance files) past' n →
    n.lookup? = some act → n.state.context.env.chain = inner ++ m.state.inner.chain →
      n.FindsIn past' body inner m.state.store.frames.size act

theorem Reached.opensScope (reached : Reached past m) (executes : m.control = .exec (.block body)) :
    m.OpensScope past body := by
  have enters : m.enters? = some m.state.store.frames.size := by rw [Machine.enters?, executes]
  have advanced : ∀ files, m.advance files =
      ⟨.give .nil, .body body :: .leave m.state.context :: m.tasks,
        m.state.openScope m.state.context⟩ := by
    intro files
    obtain ⟨control, tasks, s⟩ := m
    cases executes
    exact advance_block body tasks
  refine ⟨fun env seen held => ?_, fun files => ?_, fun files past' n sequel => ?_,
    fun files past' n name value sequel bound => ?_, fun files n runs => ?_,
    fun method receiver s keeps => s.extends_bindMethod keeps receiver,
    fun a n keeps runs => Activation.extends_env runs keeps,
    fun files past' n act inner sequel next chain => reached.findsIn executes sequel next chain⟩
  · exact Nat.lt_irrefl _ (reached.lt_of_sees seen _ held)
  · rw [advanced]
    exact ⟨rfl, Store.bindings_newFrame_size _ _⟩
  · exact Nat.lt_of_lt_of_le (Machine.frame_of_enters enters files).2.1
      (sequel.frames_le (reached.advance files))
  · have opened := reached.opened_block executes sequel
    exact (sequel.reached (reached.advance files)).contents opened bound
  · rw [advanced] at runs
    have inside : n.state.context.env.Extends m.state.inner :=
      runs.extends_env [.body body] rfl rfl
    exact ⟨inside, fun env declares => declares.extends_env.trans inside⟩

end Blocks

end Lox
