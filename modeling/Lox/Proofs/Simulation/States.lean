import Lox.Proofs.Simulation.Stores

/-!
# Corresponding states

Where the names of known references are found, and what the operations of a state come to on
corresponding states.
-/

namespace Lox

/-- A name that analysis finds is the name of an open scope, and spelled as it is there. -/
theorem Spot.finds {p : Spot} {name : String} {distance : Nat}
    (found : Analysis.hops? name p.names = some distance) :
    ∃ scope, p.scopes[distance]? = some scope ∧ scope.names.has name = true ∧
      ∀ r : Respelling, r.spellFound p.scopes name = r.spell scope.site name := by
  unfold Spot.names at found
  obtain ⟨inRange, has, nearer⟩ := List.findIdx?_eq_some_iff_getElem.mp found
  have short : distance < p.scopes.length := by simpa using inRange
  rw [List.getElem_map] at has
  refine ⟨p.scopes[distance], List.getElem?_eq_getElem short, has, fun r => ?_⟩
  have first : p.scopes.find? (fun scope => scope.names.has name) = some p.scopes[distance] := by
    rw [List.find?_eq_some_iff_getElem]
    refine ⟨has, distance, short, rfl, fun i before => ?_⟩
    have missing := nearer i before
    rw [List.getElem_map] at missing
    simpa using missing
  rw [Respelling.spellFound, first]

/-- Entering a name leaves where other names are found. -/
theorem Spot.hops?_enter {p : Spot} {name other : String} (different : other ≠ name)
    (ready : Bool) :
    Analysis.hops? other (p.enter name ready).names = Analysis.hops? other p.names := by
  cases opened : p.scopes with
  | nil => rw [enter_of_root opened]
  | cons scope outer =>
      unfold Spot.names
      rw [find?_enter opened, opened]
      simp [Analysis.hops?, List.findIdx?_cons, Bindings.has_insert, different]

/-- A name that analysis does not find is not respelled. -/
theorem Spot.misses {p : Spot} {name : String} (missed : Analysis.hops? name p.names = none)
    (r : Respelling) : r.spellFound p.scopes name = name := by
  unfold Analysis.hops? Spot.names at missed
  have none : p.scopes.find? (fun scope => scope.names.has name) = none := by
    rw [List.find?_eq_none]
    intro scope opened has
    have absent := List.findIdx?_eq_none_iff.mp missed scope.names (List.mem_map_of_mem opened)
    rw [has] at absent
    cases absent
  rw [Respelling.spellFound, none]

namespace World

variable {w : World} {store : Store} {env : Env} {p : Spot}

/-- Where analysis finds a name there is a frame, and it was made for the scope it is found in. -/
theorem Opens.finds (opens : w.Opens env.chain p.sites) {name : String} {distance : Nat}
    (found : Analysis.hops? name p.names = some distance) :
    ∃ scope frame, p.scopes[distance]? = some scope ∧ scope.names.has name = true ∧
      env.ancestor? distance = some frame ∧ w.sites[frame]? = some scope.site ∧
      ∀ r : Respelling, r.spellFound p.scopes name = r.spell scope.site name := by
  obtain ⟨scope, opened, has, spelled⟩ := Spot.finds found
  have site : p.sites[distance]? = some scope.site := by
    rw [Spot.sites, List.getElem?_map, opened]
    rfl
  obtain ⟨frame, at', made⟩ := opens.frame site
  exact ⟨scope, frame, opened, has, at', made, spelled⟩

/-- The site of the innermost frame spells names as the innermost scope does. -/
theorem Opens.here (opens : w.Opens env.chain p.sites) (globals : w.sites[0]? = some globalsSite)
    {r : Respelling} (inside : r.target ≠ []) :
    ∃ site, w.sites[env.frame]? = some site ∧ (∀ name, r.spell site name = r.spellHere p name) ∧
      (site.path = r.target → site ∈ p.sites) := by
  refine ⟨p.sites.head?.getD globalsSite, opens.innermost globals, fun name => ?_, ?_⟩
  · cases sites : p.sites with
    | nil =>
        rw [Respelling.spellHere, sites]
        exact Respelling.spell_globals inside name
    | cons site outer =>
        rw [Respelling.spellHere, sites]
        rfl
  · cases sites : p.sites with
    | nil => exact fun path => absurd path.symm inside
    | cons site outer => exact fun _ => List.mem_cons_self

end World

namespace Event

variable {r : Respelling} {p : Spot}

theorem Fit.read_ne_new {reference : Reference} (fit : Event.Fit r ⟨p, .read reference⟩) :
    ∀ site ∈ p.sites, site.path = r.target → reference.name.lexeme ≠ r.new :=
  fit.allowed _ List.mem_cons_self

theorem Fit.assign_ne_new {target : Reference} (fit : Event.Fit r ⟨p, .assign target⟩) :
    ∀ site ∈ p.sites, site.path = r.target → target.name.lexeme ≠ r.new :=
  fit.allowed _ List.mem_cons_self

theorem Fit.read_ready {reference : Reference} (fit : Event.Fit r ⟨p, .read reference⟩) :
    p.isUnready reference.name.lexeme = false := by
  have sound := fit.sound
  simp only [Event.fault?] at sound
  split at sound
  · cases sound
  · next ready => exact eq_false_of_ne_true ready

theorem Fit.lexeme_this {keyword : Reference} (fit : Event.Fit r ⟨p, .this keyword⟩) :
    keyword.name.lexeme = "this" :=
  Token.IsOf.lexeme_this fit.proper

end Event

namespace StateRel

variable {r : Respelling} {w w' : World} {s s' : State} {p : Spot}

open World

/-- Corresponding states with other stores that correspond. -/
theorem withStore (states : StateRel r w s s') {store store' : Store}
    (stores : StoreRel r w' store store') (same : w'.known = w.known ∧ w'.used = w.used) :
    StateRel r w' { s with store := store } { s' with store := store' } := by
  obtain ⟨_, context, hops, nextReference, output, now, located, fit, used⟩ := states
  refine ⟨stores, context, hops, nextReference, output, now, ?_, ?_, ?_⟩
  · rw [same.1]
    exact ⟨located.unused, located.used, located.found⟩
  · rw [same.1]
    exact fit
  · rw [same.2]
    exact used

theorem setContext (states : StateRel r w s s') (context : Context) :
    StateRel r w (s.setContext context) (s'.setContext context) := by
  obtain ⟨stores, _, hops, nextReference, output, now, located, fit, used⟩ := states
  exact ⟨stores, rfl, hops, nextReference, output, now,
    ⟨located.unused, located.used, located.found⟩, fit, used⟩

/-- The host may look at the clock, and take or give back some output. -/
theorem pass (states : StateRel r w s s') (now : Float) (output : Sink) :
    StateRel r w { s with now := now, output := output }
      { s' with now := now, output := output } := by
  obtain ⟨stores, context, hops, nextReference, _, _, located, fit, used⟩ := states
  exact ⟨stores, context, hops, nextReference, rfl, rfl,
    ⟨located.unused, located.used, located.found⟩, fit, used⟩

/-- The table tells of a known reference what analysis finds out about it. -/
theorem hops_known (states : StateRel r w s s') {act : Act} (known : w.known ⟨p, act⟩)
    {reference : Reference} {name : String} (sought : act.sought? = some (reference, name)) :
    s.hops[reference.id]? = Analysis.hops? name p.names := by
  have found := states.located.found ⟨p, act⟩ known reference.id
    (by rw [Act.id?, sought]; rfl)
  rw [found, Event.distance?, sought]
  rfl

/-- What a known reference reads is what the reference reads as it is spelled. -/
theorem valueOf? (states : StateRel r w s s') (inside : r.target ≠ [])
    (opens : w.Opens s.context.env.chain p.sites) {act : Act} (known : w.known ⟨p, act⟩)
    {reference : Reference} (sought : act.sought? = some (reference, reference.name.lexeme))
    (allowed : ∀ site ∈ p.sites, site.path = r.target → reference.name.lexeme ≠ r.new) :
    Option.Rel (ValueRel r w s.store) (s.valueOf? reference)
      (s'.valueOf? (r.referred p reference)) := by
  have hops := states.hops_known known sought
  have hops' : s'.hops[(r.referred p reference).id]? = s.hops[reference.id]? := by
    rw [states.hops]
    rfl
  unfold State.valueOf?
  rw [hops', hops, states.context]
  cases found : Analysis.hops? reference.name.lexeme p.names with
  | none =>
      dsimp only
      rw [Store.lookup?_globals, Store.lookup?_globals, Respelling.referred, Spot.misses found r]
      have elsewhere : globalsSite.path = r.target → reference.name.lexeme ≠ r.new :=
        fun path => absurd path.symm inside
      have read := states.store.valueIn? states.store.globals elsewhere
      rwa [Respelling.spell_globals inside] at read
  | some distance =>
      obtain ⟨scope, frame, opened, _, at', made, spelled⟩ := opens.finds found
      dsimp only [Store.getAt?]
      rw [at', Option.bind_some, Option.bind_some, Respelling.referred, spelled r]
      refine states.store.valueIn? made fun path => allowed _ ?_ path
      exact List.mem_map_of_mem (List.mem_of_getElem? opened)

/-- A known reference is bound if analysis finds it, and its name is held where it is found. -/
theorem isSome_valueOf? (states : StateRel r w s s') (opens : w.Opens s.context.env.chain p.sites)
    {act : Act} (known : w.known ⟨p, act⟩) {reference : Reference}
    (sought : act.sought? = some (reference, reference.name.lexeme))
    (held : ∀ distance frame, Analysis.hops? reference.name.lexeme p.names = some distance →
      s.context.env.ancestor? distance = some frame →
        (s.store.bindings frame).has reference.name.lexeme = true) {distance : Nat}
    (found : Analysis.hops? reference.name.lexeme p.names = some distance) :
    (s.valueOf? reference).isSome = true := by
  obtain ⟨scope, frame, _, _, at', _, _⟩ := opens.finds found
  unfold State.valueOf?
  rw [states.hops_known known sought, found]
  dsimp only [Store.getAt?]
  rw [at', Option.bind_some]
  exact held distance frame found at'

/-- A name that no respelling concerns is found alike in the frame of an open scope. -/
theorem getAt? (states : StateRel r w s s') (opens : w.Opens s.context.env.chain p.sites)
    {distance : Nat} (short : distance < p.sites.length) {name : String} (notOld : name ≠ r.old)
    (notNew : name ≠ r.new) :
    Option.Rel (ValueRel r w s.store) (s.store.getAt? s.context.env distance name)
      (s'.store.getAt? s'.context.env distance name) := by
  obtain ⟨frame, at', made⟩ := opens.frame (List.getElem?_eq_getElem short)
  have at' : s.context.env.ancestor? distance = some frame := at'
  have found := states.store.valueIn? made fun _ => notNew
  rw [Respelling.spell_self notOld] at found
  rw [states.context, Store.getAt?, Store.getAt?, at']
  exact found

/-- `super` stands for corresponding classes and receivers. -/
theorem superOf? (states : StateRel r w s s') (proper : r.Proper)
    (opens : w.Opens s.context.env.chain p.sites) {keyword : Reference}
    (known : w.known ⟨p, .super keyword⟩) :
    Option.Rel (fun x y => ClassRel r w s.store x.1 y.1 ∧ InstanceRel r w s.store x.2 y.2)
      (s.superOf? keyword) (s'.superOf? keyword) := by
  have hops := states.hops_known known rfl
  unfold State.superOf?
  rw [states.hops, hops]
  cases found : Analysis.hops? "super" p.names with
  | none => exact .none
  | some distance =>
      cases distance with
      | zero => exact .none
      | succ distance =>
          obtain ⟨inRange, _⟩ := List.findIdx?_eq_some_iff_getElem.mp found
          have short : distance + 1 < p.sites.length := by
            simpa [Spot.names, Spot.sites] using inRange
          have superclass := states.getAt? opens short proper.old_ne_super.symm
            proper.new_ne_super.symm
          have receiver := states.getAt? opens (Nat.lt_of_succ_lt short) proper.old_ne_this.symm
            proper.new_ne_this.symm
          dsimp only
          revert superclass receiver
          generalize s.store.getAt? s.context.env (distance + 1) "super" = a
          generalize s'.store.getAt? s'.context.env (distance + 1) "super" = a'
          generalize s.store.getAt? s.context.env distance "this" = b
          generalize s'.store.getAt? s'.context.env distance "this" = b'
          intro superclass receiver
          cases superclass with
          | none => exact .none
          | some superclass =>
              cases superclass with
              | cls ofClass =>
                  cases receiver with
                  | none => exact .none
                  | some receiver =>
                      cases receiver with
                      | inst ofInstance => exact .some ⟨ofClass, ofInstance⟩
                      | _ => exact .none
              | _ => exact .none

/-- Binding a declared name in the innermost frame, in the one state as it is spelled. -/
theorem define (states : StateRel r w s s') (inside : r.target ≠ [])
    (opens : w.Opens s.context.env.chain p.sites) {name : String} (notThis : name ≠ "this")
    (allowed : ∀ site ∈ p.sites, site.path = r.target → name ≠ r.new) {value value' : Value}
    (related : ValueRel r w (s.define name value).store value value') :
    StateRel r w (s.define name value) (s'.define (r.spellHere p name) value') := by
  obtain ⟨site, made, spelled, listed⟩ := opens.here states.store.globals inside
  have stores := states.store.define made notThis
    (fun path => allowed site (listed path) path) related
  rw [spelled name] at stores
  obtain ⟨store', context', hops', nextReference', output', now'⟩ := s'
  obtain rfl : context' = s.context := states.context
  exact states.withStore stores ⟨rfl, rfl⟩

theorem grows_define (states : StateRel r w s s') (inside : r.target ≠ [])
    (opens : w.Opens s.context.env.chain p.sites) {name : String} (notThis : name ≠ "this")
    (value : Value) : Grows w s.store w (s.define name value).store := by
  obtain ⟨site, made, _, _⟩ := opens.here states.store.globals inside
  exact states.store.grows_define made notThis value

/-- A name is bound where it was defined. -/
theorem bound_define (states : StateRel r w s s') (inside : r.target ≠ [])
    (opens : w.Opens s.context.env.chain p.sites) (name : String) (value : Value) :
    ((s.define name value).store.bindings s.context.env.frame).has name = true := by
  obtain ⟨site, made, _, _⟩ := opens.here states.store.globals inside
  unfold State.define
  rw [s.store.bindings_define (states.store.lt_made made), if_pos rfl, Bindings.has_insert]
  simp

/-- A known assignment stores corresponding values in corresponding places, or in none. -/
theorem assign (states : StateRel r w s s') (inside : r.target ≠ [])
    (opens : w.Opens s.context.env.chain p.sites) {target : Reference}
    (known : w.known ⟨p, .assign target⟩) {value value' : Value}
    (related : ValueRel r w s.store value value') :
    (s'.assign (r.referred p target) value').1 = (s.assign target value).1 ∧
      Grows w s.store w (s.assign target value).2.store ∧
      StateRel r w (s.assign target value).2 (s'.assign (r.referred p target) value').2 := by
  obtain ⟨store', context', hops', nextReference', output', now'⟩ := s'
  obtain rfl : context' = s.context := states.context
  obtain rfl : hops' = s.hops := states.hops
  have fit := states.fit _ known
  have hops := states.hops_known known rfl
  have notThis : target.name.lexeme ≠ "this" := (Token.IsOf.lexeme_ne fit.proper).1
  have same : (r.referred p target).id = target.id := rfl
  rw [State.assign_eq, State.assign_eq]
  dsimp only
  rw [same, hops]
  cases found : Analysis.hops? target.name.lexeme p.names with
  | none =>
      have elsewhere : globalsSite.path = r.target → target.name.lexeme ≠ r.new :=
        fun path => absurd path.symm inside
      have bound := states.store.valueIn? states.store.globals elsewhere
      have grows := states.store.grows_define states.store.globals notThis value
      have stores := states.store.define states.store.globals notThis elsewhere
        (related.mono grows)
      rw [Respelling.spell_globals inside] at bound stores
      dsimp only
      rw [Respelling.referred, Spot.misses found r, Store.assign_globals, Store.assign_globals]
      have alike : (store'.bindings 0).has target.name.lexeme =
          (s.store.bindings 0).has target.name.lexeme := by
        unfold Store.valueIn? at bound
        unfold Bindings.has
        revert bound
        generalize (s.store.bindings 0).find? target.name.lexeme = a
        generalize (store'.bindings 0).find? target.name.lexeme = a'
        intro bound
        cases bound <;> rfl
      rw [alike]
      split
      · exact ⟨rfl, grows, states.withStore stores ⟨rfl, rfl⟩⟩
      · exact ⟨rfl, .refl, states⟩
  | some distance =>
      obtain ⟨scope, frame, opened, _, at', made, spelled⟩ := opens.finds found
      have listed : scope.site ∈ p.sites := List.mem_map_of_mem (List.mem_of_getElem? opened)
      have grows := states.store.grows_define made notThis value
      have stores := states.store.define made notThis
        (fun path => fit.assign_ne_new _ listed path) (related.mono grows)
      dsimp only [Store.assignAt]
      rw [at', Respelling.referred, spelled r]
      exact ⟨rfl, grows, states.withStore stores ⟨rfl, rfl⟩⟩

/-- Writing a line goes to the same output. -/
theorem writeLine (states : StateRel r w s s') (text : String) :
    (s'.writeLine text).1 = (s.writeLine text).1 ∧
      StateRel r w (s.writeLine text).2 (s'.writeLine text).2 := by
  rw [State.writeLine_eq, State.writeLine_eq]
  obtain ⟨stores, context, hops, nextReference, output, now, located, fit, used⟩ := states
  rw [output]
  exact ⟨rfl, stores, context, hops, nextReference, rfl, now,
    ⟨located.unused, located.used, located.found⟩, fit, used⟩

end StateRel

end Lox
