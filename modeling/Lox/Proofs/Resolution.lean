import Lox.Proofs.History

/-!
# Analysis tells where names are found

Wherever a run looks a name up, the frames of the current environment were made for the scopes
that analysis had open there.  So the frame at the distance that is on record is the one of the
scope in which analysis found the name; and whatever is not on record belongs to the globals, with
which every environment ends.
-/

namespace Lox

/-! ## What a machine sees -/

/-- The methods of a class and of its superclasses, also those that are overridden. -/
inductive Class.HasMethod : Class → Method → Prop where
  | own {cls : Class} {name : String} {method : Method}
      (held : cls.methods.find? name = some method) : HasMethod cls method
  | inherited {cls parent : Class} {method : Method} (above : cls.superclass = some parent)
      (held : HasMethod parent method) : HasMethod cls method

theorem Class.hasMethod_of_findMethod? {cls : Class} {name : String} {method : Method}
    (found : cls.findMethod? name = some method) : cls.HasMethod method := by
  fun_induction Class.findMethod? name cls with
  | case1 identity className methods => exact .own found
  | case2 identity className superclass methods own held =>
      cases found
      exact .own held
  | case3 identity className superclass methods none ih => exact .inherited rfl (ih found)

/-- The environments that a value keeps. -/
inductive Value.Captures : Value → Env → Prop where
  | closure (closure : Closure) : Captures (.closure closure) closure.env
  | cls {cls : Class} {method : Method} (held : cls.HasMethod method) :
      Captures (.cls cls) method.env
  | inst {inst : Instance} {method : Method} (held : inst.cls.HasMethod method) :
      Captures (.inst inst) method.env

/-- The values that a task keeps. -/
inductive Task.Carries : Task → Value → Prop where
  | left (left : Value) (operator : Token) : Carries (.operate left operator) left
  | callee (callee : Value) (before : List Value) (paren : Token) (args : List Expr) :
      Carries (.nextArgument callee before paren args) callee
  | argument {callee : Value} {before : List Value} {paren : Token} {args : List Expr}
      {value : Value} (held : value ∈ before) :
      Carries (.nextArgument callee before paren args) value
  | target (inst : Instance) (name : Token) : Carries (.set inst name) (.inst inst)
  | made (context : Context) (line : Nat) (inst : Instance) :
      Carries (.finishCall context line (.made inst)) (.inst inst)

/-- The environments that a task will go back to. -/
inductive Task.Saves : Task → Env → Prop where
  | leave (context : Context) : Saves (.leave context) context.env
  | finishCall (context : Context) (line : Nat) (answer : Answer) :
      Saves (.finishCall context line answer) context.env
  | receiver (context : Context) (line : Nat) (env : Env) :
      Saves (.finishCall context line (.receiver env)) env
  | finishInclusion (context : Context) : Saves (.finishInclusion context) context.env

namespace Machine

/-- The values that are anywhere in a machine. -/
inductive Carries (m : Machine) : Value → Prop where
  | bound {frame : Nat} {name : String} {value : Value}
      (held : m.state.store.valueIn? frame name = some value) : Carries m value
  | field {object : Nat} {name : String} {value : Value}
      (held : m.state.store.field? object name = some value) : Carries m value
  | given {value : Value} (held : m.control = .give (.value value)) : Carries m value
  | returned {value : Value} (held : m.control = .give (.returned value)) : Carries m value
  | waiting {task : Task} {value : Value} (waits : task ∈ m.tasks) (held : task.Carries value) :
      Carries m value

/-- The environments that are anywhere in a machine. -/
inductive Sees (m : Machine) : Env → Prop where
  | current : Sees m m.state.context.env
  | saved {task : Task} {env : Env} (waits : task ∈ m.tasks) (held : task.Saves env) : Sees m env
  | captured {value : Value} {env : Env} (carries : m.Carries value) (held : value.Captures env) :
      Sees m env

/-- The reference that the next step looks up, and whether it is read or assigned to. -/
def lookup? (m : Machine) : Option Act :=
  match m with
  | ⟨.eval (.var name), _, _⟩ => some (.read name)
  | ⟨.eval (.this keyword), _, _⟩ => some (.this keyword)
  | ⟨.exec (.classDecl _ (some superclass) _), _, _⟩ => some (.read superclass)
  | ⟨.give (.value _), .assign target :: _, _⟩ => some (.assign target)
  | _ => none

end Machine

/-- Whether a name is looked up for its value. -/
def Act.isRead : Act → Bool
  | .read _ => true
  | .this _ => true
  | _ => false

/-- The frame of a scope, at a distance from the innermost of the current environment. -/
structure Machine.HasFrame (m : Machine) (past : Past) (distance : Nat) (scope : OpenScope)
    (frame : Nat) : Prop where
  above : m.state.context.env.ancestor? distance = some frame
  made : frame < m.state.store.frames.size
  opener : past.opened[frame]? = some scope.site.opener

/-- A machine looks a reference up as analysis did, in an event of a program that was loaded. -/
structure Machine.Agrees (m : Machine) (past : Past) (event : Event) (reference : Reference)
    (name : String) : Prop where
  /-- The table tells what analysis found. -/
  recorded : m.state.hops[reference.id]? = event.distance?
  /-- The current frames were made for the scopes that were open, in their order. -/
  lockstep : m.state.context.env.chain.map (fun frame => past.opened[frame]?) =
    (event.spot.sites.map Site.opener ++ [Opener.globals]).map some
  /-- The frame at a distance on record is that of the nearest scope that knows the name. -/
  located : ∀ distance, m.state.hops[reference.id]? = some distance →
    ∃ scope frame, event.spot.scopes[distance]? = some scope ∧ scope.names.has name = true ∧
      (∀ nearer ∈ event.spot.scopes.take distance, nearer.names.has name = false) ∧
      m.HasFrame past distance scope frame ∧
      (event.act.isRead = true → (m.state.store.bindings frame).has name = true)
  /-- A reference on record is never undefined. -/
  defined : ∀ distance, m.state.hops[reference.id]? = some distance →
    (event.act.isRead = true → (m.state.valueOf? reference).isSome = true) ∧
      ∀ value, (m.state.assign reference value).1 = true
  /-- A reference that is not on record is looked for in the globals, and in no other frame. -/
  global : m.state.hops[reference.id]? = none →
    m.state.valueOf? reference = m.state.store.valueIn? 0 reference.name.lexeme ∧
      ∀ value frame, frame ≠ 0 →
        (m.state.assign reference value).2.store.bindings frame = m.state.store.bindings frame

/-! ## Every environment ends with the globals -/

section Rooted

variable {r : Respelling} {w : World} {store : Store}

theorem ClassRel.opens {cls cls' : Class} (related : ClassRel r w store cls cls')
    {method : Method} (held : cls'.HasMethod method) : ∃ sites, w.Opens method.env.chain sites := by
  have listed : ∀ {methods methods' : Bindings Method} {name : String} {method : Method},
      TableRel r w store methods methods' → methods'.find? name = some method →
        ∃ sites, w.Opens method.env.chain sites := by
    intro methods methods' name method table found
    have related := table name
    rw [found] at related
    generalize methods.find? name = other at related
    cases related with
    | some related =>
        cases related with
        | intro stands settled known => exact ⟨_, stands.opens⟩
  induction related with
  | root table =>
      cases held with
      | own held => exact listed table held
      | inherited above held => cases above
  | derived _ table ih =>
      cases held with
      | own held => exact listed table held
      | inherited above held =>
          cases above
          exact ih held

theorem ValueRel.opens {value value' : Value} (related : ValueRel r w store value value')
    {env : Env} (held : value'.Captures env) : ∃ sites, w.Opens env.chain sites := by
  cases held with
  | closure closure =>
      cases related with
      | closure related =>
          cases related with
          | intro function receiver => exact function.opens
  | cls held =>
      cases related with
      | cls related => exact related.opens held
  | inst held =>
      cases related with
      | inst related =>
          cases related with
          | intro ofClass => exact ofClass.opens held

/-- The environments that tasks go back to are chains of frames of programs. -/
theorem StackRel.opens {p : Spot} {tasks tasks' : List Task}
    (related : StackRel r w store p tasks tasks') {task : Task} (waits : task ∈ tasks') {env : Env}
    (held : task.Saves env) : ∃ sites, w.Opens env.chain sites := by
  induction related with
  | nil => cases waits
  | task first rest ih =>
      rcases List.mem_cons.mp waits with rfl | later
      · cases first <;> cases held
      · exact ih later
  | leave same stands rest ih =>
      rcases List.mem_cons.mp waits with rfl | later
      · cases held
        exact ⟨_, stands.opens⟩
      · exact ih later
  | finishCall answers stands rest ih =>
      rcases List.mem_cons.mp waits with rfl | later
      · cases held with
        | finishCall => exact ⟨_, stands.opens⟩
        | receiver =>
            cases answers with
            | receiver opens bound => exact ⟨_, opens⟩
      · exact ih later
  | finishInclusion outside stands rest ih =>
      rcases List.mem_cons.mp waits with rfl | later
      · cases held
        exact ⟨_, stands.opens⟩
      · exact ih later

theorem exists_left_of_forall₂ {α β : Type} {R : α → β → Prop} {xs : List α} {ys : List β}
    (each : List.Forall₂ R xs ys) {y : β} (listed : y ∈ ys) : ∃ x, R x y := by
  induction each with
  | nil => cases listed
  | cons first _ ih =>
      rcases List.mem_cons.mp listed with rfl | later
      · exact ⟨_, first⟩
      · exact ih later

/-- The values that tasks keep correspond to values. -/
theorem StackRel.carries {p : Spot} {tasks tasks' : List Task}
    (related : StackRel r w store p tasks tasks') {task : Task} (waits : task ∈ tasks')
    {value' : Value} (held : task.Carries value') : ∃ value, ValueRel r w store value value' := by
  induction related with
  | nil => cases waits
  | task first rest ih =>
      rcases List.mem_cons.mp waits with rfl | later
      · cases held with
        | left =>
            cases first with
            | operate related => exact ⟨_, related⟩
        | callee =>
            cases first with
            | nextArgument related each known => exact ⟨_, related⟩
        | argument listed =>
            cases first with
            | nextArgument related each known =>
                exact exists_left_of_forall₂ each listed
        | target =>
            cases first with
            | set related => exact ⟨_, .inst related⟩
        | made => cases first
      · exact ih later
  | leave same stands rest ih =>
      rcases List.mem_cons.mp waits with rfl | later
      · cases held
      · exact ih later
  | finishCall answers stands rest ih =>
      rcases List.mem_cons.mp waits with rfl | later
      · cases held with
        | made =>
            cases answers with
            | made related => exact ⟨_, .inst related⟩
      · exact ih later
  | finishInclusion outside stands rest ih =>
      rcases List.mem_cons.mp waits with rfl | later
      · cases held
      · exact ih later

theorem MachineRel.carries {m m' : Machine} (related : MachineRel r w m m') {value' : Value}
    (held : m'.Carries value') : ∃ value, ValueRel r w m.state.store value value' := by
  obtain @⟨p, q, control, control', tasks, tasks', s, s', opens, doing, left, states⟩ := related
  cases held with
  | @bound frame name _ held =>
      by_cases made : frame < w.sites.length
      · have found := states.store.bindings frame _ (List.getElem?_eq_getElem made) name
        rw [show (s'.store.bindings frame).find? name = some value' from held] at found
        generalize (r.unspell w.sites[frame] name).bind (s.store.bindings frame).find? = other
          at found
        cases found with
        | some related => exact ⟨_, related⟩
      · rw [← states.store.made'] at made
        change (s'.store.bindings frame).find? name = some value' at held
        rw [s'.store.bindings_of_size_le (Nat.le_of_not_lt made)] at held
        cases held
  | @field object name _ held =>
      have found := states.store.fields object name
      rw [show s'.store.field? object name = some value' from held] at found
      generalize s.store.field? object name = other at found
      cases found with
      | some related => exact ⟨_, related⟩
  | given held =>
      cases held
      cases doing with
      | value holds related => exact ⟨_, related⟩
  | returned held =>
      cases held
      cases doing with
      | returned within related => exact ⟨_, related⟩
  | waiting waits held => exact left.carries waits held

theorem MachineRel.opens {m m' : Machine} (related : MachineRel r w m m') {env : Env}
    (seen : m'.Sees env) : ∃ sites, w.Opens env.chain sites := by
  cases seen with
  | current =>
      obtain @⟨p, q, control, control', tasks, tasks', s, s', opens, doing, left, states⟩ := related
      have same : s'.context = s.context := states.context
      exact ⟨p.sites, same ▸ opens⟩
  | saved waits held =>
      obtain @⟨p, q, control, control', tasks, tasks', s, s', opens, doing, left, states⟩ := related
      exact left.opens waits held
  | captured carries held =>
      obtain ⟨value, values⟩ := related.carries carries
      exact values.opens held

end Rooted

/-- The globals are the root of every environment in a machine. -/
theorem Reached.rooted {past : Past} {m : Machine} (reached : Reached past m) {env : Env}
    (seen : m.Sees env) : env.chain.getLast? = some 0 ∧ past.opened[0]? = some .globals := by
  obtain ⟨w, sites, _, related⟩ := reached.related fun _ => Past.first_ne_unused
  obtain ⟨_, opens⟩ := related.opens seen
  refine ⟨opens.getLast?, ?_⟩
  obtain @⟨p, q, control, control', tasks, tasks', s, s', _, doing, left, states⟩ := related
  rw [← sites, List.getElem?_map, states.store.globals]
  rfl

/-! ## Lookups -/

section Lookups

variable {r : Respelling} {w : World} {p : Spot}

open World

/-- What a machine looks up is an event of a program, at a spot that the environment is open for. -/
structure LooksUp (w : World) (s : State) (act : Act) (reference : Reference) (p : Spot) :
    Prop where
  known : w.known ⟨p, act⟩
  sought : act.sought? = some (reference, reference.name.lexeme)
  opens : w.Opens s.context.env.chain p.sites
  held : act.isRead = true → ∀ distance frame,
    Analysis.hops? reference.name.lexeme p.names = some distance →
      s.context.env.ancestor? distance = some frame →
        (s.store.bindings frame).has reference.name.lexeme = true

theorem MachineRel.looksUp {m m' : Machine} (related : MachineRel r w m m') {act : Act}
    (next : m.lookup? = some act) : ∃ p reference, LooksUp w m.state act reference p := by
  obtain @⟨p, q, control, control', tasks, tasks', s, s', opens, doing, left, states⟩ := related
  cases doing with
  | @eval expr holds known =>
      cases expr with
      | var name =>
          cases next
          have isKnown := (knows_cons.mp known).1
          have ready := (states.fit _ isKnown).read_ready
          exact ⟨p, name, isKnown, rfl, opens, fun _ _ _ found at' => holds.bound ready found at'⟩
      | this keyword =>
          cases next
          have isKnown := (knows_cons.mp known).1
          have isThis := (states.fit _ isKnown).lexeme_this
          refine ⟨p, keyword, isKnown, by rw [isThis]; rfl, opens, fun _ _ _ found at' => ?_⟩
          exact holds.bound (isThis ▸ holds.free) found at'
      | _ => cases next
  | @exec path stmt holds settled known =>
      cases stmt with
      | classDecl name superclass methods =>
          cases superclass with
          | none => cases next
          | some reference =>
              cases next
              obtain ⟨-, known⟩ := knows_cons.mp known
              obtain ⟨inherits, known⟩ := knows_cons.mp known
              have different : reference.name.lexeme ≠ name.lexeme := by
                intro same
                have sound := (states.fit _ inherits).sound
                simp [Event.fault?, same] at sound
              refine ⟨p.introduce name.lexeme, reference, (knows_cons.mp known).1, rfl, ?_,
                fun _ _ _ found at' => ?_⟩
              · rw [Spot.introduce_sites]
                exact opens
              · rw [Spot.introduce, Spot.define, Spot.declare, Spot.hops?_enter different,
                  Spot.hops?_enter different] at found
                exact holds.bound (settled _) found at'
      | _ => cases next
  | value holds related =>
      cases left with
      | task first rest =>
          cases first with
          | assign known =>
              cases next
              exact ⟨p, _, known, rfl, opens, fun isRead => by cases isRead⟩
          | _ => cases next
      | _ => cases next
  | _ => cases next

/-- The frames of a chain were made for its scopes, the innermost first, and for the globals. -/
theorem World.Opens.lockstep {frames : List Nat} {sites : List Site} (opens : w.Opens frames sites)
    (globals : w.sites[0]? = some globalsSite) :
    frames.map (fun frame => (w.sites.map Site.opener)[frame]?) =
      (sites.map Site.opener ++ [Opener.globals]).map some := by
  induction opens with
  | globals => simp [globals, globalsSite]
  | scope made _ ih =>
      rw [List.map_cons, ih, List.getElem?_map, made]
      rfl

/-- No scope nearer than the one that analysis finds knows the name. -/
theorem Spot.nearer_unknown {name : String} {distance : Nat}
    (found : Analysis.hops? name p.names = some distance) :
    ∀ nearer ∈ p.scopes.take distance, nearer.names.has name = false := by
  obtain ⟨inRange, _, before⟩ := List.findIdx?_eq_some_iff_getElem.mp found
  intro nearer listed
  obtain ⟨index, short, rfl⟩ := List.mem_iff_getElem.mp listed
  rw [List.length_take] at short
  have missing := before index (by omega)
  unfold Spot.names at missing
  rw [List.getElem_map] at missing
  rw [List.getElem_take]
  simpa using missing

theorem LooksUp.agrees {s s' : State} {act : Act} {reference : Reference}
    (looksUp : LooksUp w s act reference p) (states : StateRel r w s s') {past : Past}
    (sites : w.sites.map Site.opener = past.opened) (control : Control) (tasks : List Task) :
    Machine.Agrees ⟨control, tasks, s⟩ past ⟨p, act⟩ reference reference.name.lexeme := by
  obtain ⟨known, sought, opens, held⟩ := looksUp
  have hops := states.hops_known known sought
  have recorded : Event.distance? ⟨p, act⟩ = Analysis.hops? reference.name.lexeme p.names := by
    rw [Event.distance?, sought]
    rfl
  refine ⟨hops.trans recorded.symm, ?_, fun distance record => ?_, fun distance record => ?_,
    fun record => ?_⟩
  · rw [← sites]
    exact opens.lockstep states.store.globals
  · have found := hops.symm.trans record
    obtain ⟨scope, frame, opened, has, at', made, _⟩ := opens.finds found
    refine ⟨scope, frame, opened, has, Spot.nearer_unknown found,
      ⟨at', states.store.lt_made made, ?_⟩, fun isRead => held isRead distance frame found at'⟩
    rw [← sites, List.getElem?_map, made]
    rfl
  · have found := hops.symm.trans record
    obtain ⟨_, frame, _, _, at', _, _⟩ := opens.finds found
    refine ⟨fun isRead => states.isSome_valueOf? opens known sought (held isRead) found,
      fun value => ?_⟩
    rw [State.assign_eq, hops, found]
    dsimp only [Store.assignAt]
    rw [at']
  · have record : s.hops[reference.id]? = none := record
    refine ⟨?_, fun value frame other => ?_⟩
    · dsimp only [State.valueOf?]
      rw [record]
      exact s.store.lookup?_globals _
    · dsimp only
      rw [State.assign_eq, record]
      dsimp only
      rw [Store.assign_globals]
      split
      · rw [s.store.bindings_define (states.store.lt_made states.store.globals)]
        exact if_neg other
      · rfl

end Lookups

/--
Static resolution agrees with evaluation, in every run of every compiled source from every
reachable session.  Where a variable, an assignment or `this` is looked up, the distance on
record is the one that analysis found in an event of a loaded program; the frame at that distance
exists, was made for the very scope in which the name was found, and holds the name if it is read,
so that nothing on record is ever undefined.  What is not on record is looked for in the globals,
which are the root of every environment.
-/
theorem resolution_agrees_with_evaluation :
    (∀ (session : Session) (now : Float) (source : String) (program : Program),
      session.Reachable →
        Program.compile session.state.nextReference source = .ok program →
          ∃ past, Reached past (session.begin now program) ∧
            ⟨session.state.nextReference, program⟩ ∈ past.loaded) ∧
    (∀ (past : Past) (m : Machine) (act : Act), Reached past m → m.lookup? = some act →
      ∃ reference name event, act.sought? = some (reference, name) ∧ past.Knows event ∧
        event.act = act ∧ m.Agrees past event reference name) ∧
    (∀ (past : Past) (m : Machine) (env : Env), Reached past m → m.Sees env →
      env.chain.getLast? = some 0 ∧ past.opened[0]? = some .globals) := by
  refine ⟨?_, ?_, ?_⟩
  · intro session now source program reachable compiled
    exact reachable.atRest.begin now compiled
  · intro past m act reached next
    obtain ⟨w, sites, known, related⟩ := reached.related fun _ => Past.first_ne_unused
    obtain ⟨p, reference, looksUp⟩ := related.looksUp next
    obtain @⟨_, _, control, _, tasks, _, s, _, _, _, _, states⟩ := related
    exact ⟨reference, reference.name.lexeme, ⟨p, act⟩, looksUp.sought,
      (known _).mp looksUp.known, rfl, looksUp.agrees states sites control tasks⟩
  · intro past m env reached seen
    exact reached.rooted seen

/-- Whether the sixth step of the program in the block looks up a name on record at distance 0. -/
def readsLocal : Bool :=
  match Program.compile 0 "\x7b var a; a; \x7d" with
  | .ok program =>
    match (Machine.stepped 6 ((Session.fresh .unlimited .unlimited false).begin 0
        program)).lookup? with
    | some (.read reference) =>
      decide (reference.name.lexeme = "a") &&
        decide ((Machine.stepped 6 ((Session.fresh .unlimited .unlimited false).begin 0
          program)).state.hops[reference.id]? = some 0)
    | _ => false
  | .error _ => false

/--
The variable of a block is read in the block: analysis finds it in the innermost scope, and there
is the frame that was made for the block.
-/
theorem resolution_agrees_in_block :
    ∃ past m reference event,
      Reached past m ∧ m.lookup? = some (.read reference) ∧
      m.state.hops[reference.id]? = some 0 ∧ m.Agrees past event reference "a" ∧
      m.state.context.env.chain.getLast? = some 0 := by
  have computed : readsLocal = true := by decide +kernel
  unfold readsLocal at computed
  split at computed
  · next program compiled =>
      split at computed
      · next reference next' =>
          obtain ⟨spelled, located⟩ := Bool.and_eq_true_iff.mp computed
          obtain ⟨past, started, _⟩ := resolution_agrees_with_evaluation.1
            (.fresh .unlimited .unlimited false) 0 _ program (.fresh _ _ _) compiled
          have reached : ∃ past, Reached past (Machine.stepped 6
              ((Session.fresh .unlimited .unlimited false).begin 0 program)) :=
            ⟨_, .advance _ (.advance _ (.advance _ (.advance _ (.advance _ (.advance _ started)))))⟩
          obtain ⟨past, reached⟩ := reached
          obtain ⟨other, name, event, sought, _, _, agrees⟩ :=
            resolution_agrees_with_evaluation.2.1 past _ _ reached next'
          cases sought
          rw [of_decide_eq_true spelled] at agrees
          exact ⟨past, _, reference, event, reached, next', of_decide_eq_true located, agrees,
            (resolution_agrees_with_evaluation.2.2 past _ _ reached .current).1⟩
      · cases computed
  · cases computed

end Lox
