import Lox.Proofs.Simulation.Calls

/-!
# Steps of corresponding machines

Each step of corresponding machines leads to corresponding machines again, whatever the files
are.  The cases follow the phrases and the tasks.
-/

namespace Lox

open World

@[simp] theorem Expr.mainLine_respell (r : Respelling) (p : Spot) (expr : Expr) :
    (expr.respell r p).mainLine = expr.mainLine := by
  fun_induction Expr.mainLine expr <;> simp_all [Expr.respell, Expr.mainLine, Respelling.referred]

@[simp] theorem Task.spotAfter_sites (p : Spot) (task : Task) :
    (task.spotAfter p).sites = p.sites := by
  cases task <;> simp [Task.spotAfter]

@[simp] theorem Task.spotAfter_around (p : Spot) (task : Task) :
    (task.spotAfter p).around = p.around := by
  cases task <;> simp [Task.spotAfter]

variable {r : Respelling} {w w' : World} {p : Spot} {tasks tasks' : List Task} {s s' : State}

/-- A known reference reads corresponding values; if it is not bound, it is not respelled. -/
theorem StateRel.read (states : StateRel r w s s') (inside : r.target ≠ [])
    (opens : w.Opens s.context.env.chain p.sites) {act : Act} (known : w.known ⟨p, act⟩)
    {reference : Reference} (sought : act.sought? = some (reference, reference.name.lexeme))
    (allowed : ∀ site ∈ p.sites, site.path = r.target → reference.name.lexeme ≠ r.new)
    (held : ∀ distance frame, Analysis.hops? reference.name.lexeme p.names = some distance →
      s.context.env.ancestor? distance = some frame →
        (s.store.bindings frame).has reference.name.lexeme = true) :
    OutcomeRel r w s.store (s.read reference) (s'.read (r.referred p reference)) := by
  have found := states.valueOf? inside opens known sought allowed
  have bound : ∀ distance, Analysis.hops? reference.name.lexeme p.names = some distance →
      (s.valueOf? reference).isSome = true :=
    fun _ found => states.isSome_valueOf? opens known sought held found
  unfold State.read
  revert found bound
  generalize s.valueOf? reference = a
  generalize s'.valueOf? (r.referred p reference) = a'
  intro found bound
  cases found with
  | some related => exact .value related
  | none =>
      cases missed : Analysis.hops? reference.name.lexeme p.names with
      | some distance => cases bound distance missed
      | none =>
          dsimp only
          rw [Respelling.referred, Spot.misses missed r]
          exact .failAt ..

namespace Poised

theorem readsThis (poised : Poised r w p tasks tasks' s s') (inside : r.target ≠ [])
    (proper : r.Proper) {keyword : Reference} (known : w.known ⟨p, .this keyword⟩) :
    OutcomeRel r w s.store (s.read keyword) (s'.read keyword) := by
  have isThis := (poised.states.fit _ known).lexeme_this
  have sought : (Act.this keyword).sought? = some (keyword, keyword.name.lexeme) := by
    rw [isThis]
    rfl
  have read := poised.states.read inside poised.opens known sought
    (fun _ _ _ => isThis ▸ proper.new_ne_this.symm)
    fun _ _ found at' => poised.holds.bound (isThis ▸ poised.holds.free) found at'
  have same : r.referred p keyword = keyword := by
    rw [Respelling.referred, isThis, Respelling.spellFound_self _ proper.old_ne_this.symm, ← isThis]
  rwa [same] at read

/-- Looking at an expression. -/
theorem evaluate (poised : Poised r w p tasks tasks' s s') (inside : r.target ≠ [])
    (proper : r.Proper) {expr : Expr} (known : w.Knows (expr.walk p)) :
    Advances r w s.store (Machine.opens ⟨.eval expr, tasks, s⟩)
      (Machine.evaluate expr tasks s) (Machine.evaluate (expr.respell r p) tasks' s') := by
  cases expr with
  | assign target value =>
      obtain ⟨inValue, atTarget⟩ := knows_append.mp known
      have pushed := poised.push (.assign (knows_cons.mp atTarget).1) rfl
      exact .still (pushed.eval inValue) .refl
  | binary left operator right =>
      obtain ⟨inLeft, inRight⟩ := knows_append.mp known
      exact .still ((poised.push (.rightOperand inRight) rfl).eval inLeft) .refl
  | call callee paren args =>
      obtain ⟨inCallee, inArgs⟩ := knows_append.mp known
      exact .still ((poised.push (.firstArgument inArgs) rfl).eval inCallee) .refl
  | get object name => exact .still ((poised.push .get rfl).eval known) .refl
  | grouping inner => exact .still (poised.eval known) .refl
  | literal value => exact .still (poised.value (.ofLiteral value)) .refl
  | logical left operator right =>
      obtain ⟨inLeft, inRight⟩ := knows_append.mp known
      exact .still ((poised.push (.decide inRight) rfl).eval inLeft) .refl
  | set object name value =>
      obtain ⟨inValue, inObject⟩ := knows_append.mp known
      exact .still ((poised.push (.storedValue inValue) rfl).eval inObject) .refl
  | super keyword method => exact poised.getSuper proper (knows_cons.mp known).1 method
  | this keyword =>
      exact .still (poised.gives (poised.readsThis inside proper (knows_cons.mp known).1)) .refl
  | unary operator operand => exact .still ((poised.push .operateUnary rfl).eval known) .refl
  | var name =>
      have isKnown := (knows_cons.mp known).1
      have fit := poised.states.fit _ isKnown
      have read := poised.states.read inside poised.opens isKnown rfl fit.read_ne_new
        fun _ _ found at' => poised.holds.bound fit.read_ready found at'
      exact .still (poised.gives read) .refl

end Poised

/-- Defining a name gives nothing to those who wait at a spot that knows the name. -/
theorem MachineRel.defines {q : Spot} (states : StateRel r w s s') (inside : r.target ≠ [])
    (opens : w.Opens s.context.env.chain p.sites) (same : q.sites = p.sites) {name : String}
    (notThis : name ≠ "this") (allowed : ∀ site ∈ p.sites, site.path = r.target → name ≠ r.new)
    {value value' : Value} (related : ValueRel r w (s.define name value).store value value')
    (holds : Holds (s.define name value).store s.context.env q)
    (left : StackRel r w s.store q tasks tasks') :
    MachineRel r w (.giving .nil tasks (s.define name value))
      (.giving .nil tasks' (s'.define (r.spellHere p name) value')) := by
  have grows := states.grows_define inside opens notThis value
  refine .intro (p := q) ?_ (.value holds .nil) (left.mono grows)
    (states.define inside opens notThis allowed related)
  rw [same]
  exact opens

/-- The methods of a class correspond once its own name is bound. -/
theorem methodTable_related {store : Store} {env : Env} {path : List Nat}
    (stands : w.Stands store env p) (settled : p.Settled) (index : Nat) {methods : List FunDecl}
    (known : w.Knows (walkMethods path p index methods)) :
    TableRel r w store (State.methodTable env methods)
      (State.methodTable env (respellMethods r path p index methods)) := by
  have folded : ∀ (methods : List FunDecl) (index : Nat) (table table' : Bindings Method),
      w.Knows (walkMethods path p index methods) → TableRel r w store table table' →
      TableRel r w store
        (methods.foldl (fun (table : Bindings Method) decl =>
          table.insert decl.name.lexeme ⟨decl, env⟩) table)
        ((respellMethods r path p index methods).foldl (fun (table : Bindings Method) decl =>
          table.insert decl.name.lexeme ⟨decl, env⟩) table') := by
    intro methods
    induction methods with
    | nil => exact fun _ _ _ _ tables => tables
    | cons method methods ih =>
        intro index table table' known tables
        obtain ⟨inMethod, later⟩ := knows_append.mp known
        refine ih (index + 1) _ _ later fun name => ?_
        dsimp only
        rw [FunDecl.respell_name, Bindings.find?_insert, Bindings.find?_insert]
        split
        · exact .some (.intro stands settled inMethod)
        · exact tables name
  exact folded methods index [] [] known fun _ => .none

/-- What is known of the declaration of a function or a class. -/
theorem StateRel.declared (states : StateRel r w s s') {name : Token}
    (known : w.known ⟨p, .define name⟩) :
    name.lexeme ≠ "this" ∧
      (∀ site ∈ p.sites, site.path = r.target → name.lexeme ≠ r.new) ∧
      r.spellHere p name.lexeme = name.lexeme := by
  have fit := states.fit _ known
  have isName : name.IsOf [.identifier, .printWord] :=
    Token.IsOf.mono fit.proper (by simp)
  exact ⟨isName.lexeme_ne.1, fit.allowed _ List.mem_cons_self, fit.defined name rfl⟩

namespace Poised

variable {path : List Nat}

/-- A class without a superclass is declared. -/
theorem declareClass_none (opens : w.Opens s.context.env.chain p.sites)
    (holds : Holds s.store s.context.env p) (settled : p.Settled) (inside : r.target ≠ [])
    {name : Token} {methods : List FunDecl} (known : w.known ⟨p, .define name⟩)
    (inMethods : w.Knows (walkMethods path ((p.introduce name.lexeme).inClass .plain) 0 methods))
    (left : StackRel r w s.store (p.introduce name.lexeme) tasks tasks')
    (states : StateRel r w s s') :
    Advances r w s.store []
      (.giving .nil tasks (s.declareClass name none methods))
      (.giving .nil tasks' (s'.declareClass name none
        (respellMethods r path ((p.introduce name.lexeme).inClass .plain) 0 methods))) := by
  obtain ⟨notThis, allowed, spelled⟩ := states.declared known
  obtain ⟨store', context', hops', nextReference', output', now'⟩ := s'
  obtain rfl : context' = s.context := states.context
  have identities : store'.nextIdentity = s.store.nextIdentity := states.store.identities
  have grows : Grows w s.store w s.store.newIdentity.2 := StoreRel.grows_newIdentity
  have numbered := states.withStore states.store.newIdentity ⟨rfl, rfl⟩
  unfold State.declareClass
  rw [State.newIdentity_eq, State.newIdentity_eq]
  dsimp only
  rw [identities]
  have later := numbered.grows_define inside opens notThis
    (.cls (.mk s.store.nextIdentity name.lexeme none (State.methodTable s.context.env methods)))
  have held := (holds.mono (grows.trans later).bound).introduce notThis
    (numbered.bound_define inside opens name.lexeme _)
  have stands : w.Stands _ s.context.env (p.introduce name.lexeme) :=
    ⟨(p.introduce_sites name.lexeme).symm ▸ opens, held⟩
  have table := methodTable_related (r := r) (stands.inClass .plain)
    (settled.introduce name.lexeme) 0 inMethods
  refine .still ?_ (grows.trans later)
  have related := MachineRel.defines numbered inside opens (p.introduce_sites name.lexeme) notThis
    allowed (.cls (.root table)) held (left.mono grows)
  rwa [spelled] at related

/-- A class is declared below a superclass, in front of which its methods see one more frame. -/
theorem declareClass_some (opens : w.Opens s.context.env.chain p.sites)
    (holds : Holds s.store s.context.env p) (settled : p.Settled) (inside : r.target ≠ [])
    (proper : r.Proper) {name : Token} {methods : List FunDecl}
    (known : w.known ⟨p, .define name⟩)
    (inMethods : w.Knows (walkMethods path
      (((p.introduce name.lexeme).forSuperclass path methods).inClass .derived) 0 methods))
    (left : StackRel r w s.store (p.introduce name.lexeme) tasks tasks')
    (states : StateRel r w s s') {parent parent' : Class}
    (inherited : ClassRel r w s.store parent parent') :
    Advances r w s.store [.superclass methods]
      (.giving .nil tasks (s.declareClass name (some parent) methods))
      (.giving .nil tasks' (s'.declareClass name (some parent')
        (respellMethods r path
          (((p.introduce name.lexeme).forSuperclass path methods).inClass .derived) 0
          methods))) := by
  obtain ⟨notThis, allowed, spelled⟩ := states.declared known
  obtain ⟨store', context', hops', nextReference', output', now'⟩ := s'
  obtain rfl : context' = s.context := states.context
  have identities : store'.nextIdentity = s.store.nextIdentity := states.store.identities
  have sized : store'.newIdentity.2.frames.size = s.store.newIdentity.2.frames.size :=
    (states.store.newIdentity.made').trans states.store.newIdentity.made.symm
  have first : Grows w s.store w s.store.newIdentity.2 := StoreRel.grows_newIdentity
  have numbered := states.store.newIdentity
  have framed : Bindings.Respelled (ValueRel r w s.store.newIdentity.2) r
      ⟨.superclass methods, path⟩ [("super", .cls parent)] [("super", .cls parent')] :=
    .single proper.old_ne_super.symm proper.new_ne_super.symm (.cls (inherited.mono first))
  have second : Grows w s.store.newIdentity.2 (w.open ⟨.superclass methods, path⟩)
      (s.store.newIdentity.2.newFrame [("super", .cls parent)]).2 := StoreRel.grows_newFrame _ _
  have opened := states.withStore (numbered.newFrame framed) ⟨rfl, rfl⟩
  have opens' := opens.mono (first.trans second)
  unfold State.declareClass
  rw [State.newIdentity_eq, State.newIdentity_eq]
  dsimp only
  rw [State.extend_eq, State.extend_eq, identities]
  dsimp only
  rw [sized]
  have third := opened.grows_define inside opens' notThis
    (.cls (.mk s.store.nextIdentity name.lexeme (some parent)
      (State.methodTable (s.context.env.branch s.store.newIdentity.2.frames.size) methods)))
  have grows := first.trans (second.trans third)
  have held := (holds.mono grows.bound).introduce notThis
    (opened.bound_define inside opens' name.lexeme _)
  have declared : (w.open ⟨.superclass methods, path⟩).Stands _ s.context.env
      (p.introduce name.lexeme) :=
    ⟨(p.introduce_sites name.lexeme).symm ▸ opens', held⟩
  have stands := declared.pushWith (settled.introduce name.lexeme)
    (numbered.site_newFrame ⟨.superclass methods, path⟩)
    (third.bound _ _ (congrArg (Bindings.has "super")
      (Store.bindings_newFrame_size [("super", .cls parent)] s.store.newIdentity.2)))
  have table := methodTable_related (r := r) (stands.inClass .derived)
    (Spot.settled_pushWith ⟨.superclass methods, path⟩ "super" (p.introduce name.lexeme)) 0
    ((second.trans third).knows inMethods)
  refine .opening ⟨.superclass methods, path⟩ ?_ grows
  have related := MachineRel.defines opened inside opens' (p.introduce_sites name.lexeme) notThis
    allowed (.cls (.derived (inherited.mono grows) table)) held (left.mono (first.trans second))
  rwa [spelled] at related

/-- A class is looked at, and its superclass is read if it names one. -/
theorem executeClass (opens : w.Opens s.context.env.chain p.sites)
    (holds : Holds s.store s.context.env p) (settled : p.Settled) (inside : r.target ≠ [])
    (proper : r.Proper) {name : Token} {superclass : Option Reference} {methods : List FunDecl}
    (known : w.Knows ((Stmt.classDecl name superclass methods).walk path p))
    (left : StackRel r w s.store (p.introduce name.lexeme) tasks tasks')
    (states : StateRel r w s s') :
    Advances r w s.store (Machine.opensExec (.classDecl name superclass methods) s)
      (Machine.execute (.classDecl name superclass methods) tasks s)
      (Machine.execute ((Stmt.classDecl name superclass methods).respell r path p) tasks' s') := by
  have sites := p.introduce_sites name.lexeme
  have isKnown : w.known ⟨p, .define name⟩ := by
    cases superclass <;> exact (knows_cons.mp known).1
  obtain ⟨notThis, -, -⟩ := states.declared isKnown
  cases superclass with
  | none =>
      exact declareClass_none opens holds settled inside isKnown (knows_cons.mp known).2 left states
  | some reference =>
      obtain ⟨-, known⟩ := knows_cons.mp known
      obtain ⟨inherits, known⟩ := knows_cons.mp known
      obtain ⟨atRead, inMethods⟩ := knows_cons.mp known
      have opens' : w.Opens s.context.env.chain (p.introduce name.lexeme).sites := sites.symm ▸ opens
      have fit := states.fit _ atRead
      have different : reference.name.lexeme ≠ name.lexeme := by
        intro same
        have sound := (states.fit _ inherits).sound
        simp [Event.fault?, same] at sound
      -- The class is declared before its superclass is read, but only bound afterwards.
      have read := states.read inside opens' atRead rfl fit.read_ne_new
        fun distance frame found at' => by
          rw [Spot.introduce, Spot.define, Spot.declare, Spot.hops?_enter different,
            Spot.hops?_enter different] at found
          exact holds.bound (settled _) found at'
      unfold Machine.opensExec Machine.execute
      rw [Stmt.respell]
      dsimp only
      revert read
      generalize s.read reference = a
      generalize s'.read (r.referred (p.introduce name.lexeme) reference) = a'
      intro read
      cases read with
      | failed related => exact .still (.failing opens' left states related) .refl
      | value related =>
          have refused : ErrorRel r
              (.runtimeAt reference.name (.superclassNotClass reference.name.lexeme))
              (.runtimeAt (r.referred (p.introduce name.lexeme) reference).name
                (.superclassNotClass
                  (r.referred (p.introduce name.lexeme) reference).name.lexeme)) := by
            rcases Respelling.spellFound_cases (r := r) (p.introduce name.lexeme).scopes
              reference.name.lexeme with same | ⟨old, new⟩
            · rw [Respelling.referred, same]
              exact .same _
            · rw [Respelling.referred, new, old]
              exact .superclass _
          cases related with
          | cls ofClass =>
              exact declareClass_some opens holds settled inside proper isKnown inMethods left states
                ofClass
          | _ => exact .still (.failing opens' left states refused) .refl

/-- A block is entered in a frame that was made for its scope. -/
theorem executeBlock (opens : w.Opens s.context.env.chain p.sites)
    (holds : Holds s.store s.context.env p) (settled : p.Settled) {body : List Stmt}
    (known : w.Knows ((Stmt.block body).walk path p))
    (left : StackRel r w s.store p tasks tasks') (states : StateRel r w s s') :
    Advances r w s.store [.block body] (Machine.execute (.block body) tasks s)
      (Machine.execute ((Stmt.block body).respell r path p) tasks' s') := by
  obtain ⟨store', context', hops', nextReference', output', now'⟩ := s'
  obtain rfl : context' = s.context := states.context
  have sized : store'.frames.size = s.store.frames.size :=
    states.store.made'.trans states.store.made.symm
  have grows : Grows w s.store (w.open ⟨.block body, path⟩) (s.store.newFrame []).2 :=
    StoreRel.grows_newFrame _ _
  have empty : Bindings.Respelled (ValueRel r w s.store) r ⟨.block body, path⟩ [] [] := .nil
  have stores := states.store.newFrame empty
  unfold Machine.execute
  rw [Stmt.respell]
  dsimp only
  rw [State.extend_eq, State.extend_eq]
  dsimp only
  rw [sized]
  refine .opening ⟨.block body, path⟩ ?_ grows
  refine .intro (p := p.push ⟨.block body, path⟩) ?_ (.value ?_ .nil)
    (.task (.body (Spot.settled_push _ p) (grows.knows known)) ?_)
    ((states.withStore stores ⟨rfl, rfl⟩).setContext _)
  · exact .scope (states.store.site_newFrame _) (opens.mono grows)
  · exact holds.push settled grows.bound rfl (Spot.settled_push _ p) fun _ none => by cases none
  · refine .leave ?_ ⟨opens.mono grows, holds.mono grows.bound⟩ (left.mono grows)
    rw [Task.spotAfter_around]
    rfl

/-- A function is declared: its closure sees its own name. -/
theorem executeFunction (opens : w.Opens s.context.env.chain p.sites)
    (holds : Holds s.store s.context.env p) (settled : p.Settled) (inside : r.target ≠ [])
    {decl : FunDecl} (known : w.Knows ((Stmt.funDecl decl).walk path p))
    (left : StackRel r w s.store (p.introduce decl.name.lexeme) tasks tasks')
    (states : StateRel r w s s') :
    Advances r w s.store [] (Machine.execute (.funDecl decl) tasks s)
      (Machine.execute ((Stmt.funDecl decl).respell r path p) tasks' s') := by
  obtain ⟨isKnown, inDecl⟩ := knows_cons.mp known
  obtain ⟨notThis, allowed, spelled⟩ := states.declared isKnown
  obtain ⟨store', context', hops', nextReference', output', now'⟩ := s'
  obtain rfl : context' = s.context := states.context
  have identities : store'.nextIdentity = s.store.nextIdentity := states.store.identities
  have grows : Grows w s.store w s.store.newIdentity.2 := StoreRel.grows_newIdentity
  have numbered := states.withStore states.store.newIdentity ⟨rfl, rfl⟩
  unfold Machine.execute
  rw [Stmt.respell]
  dsimp only
  rw [State.makeClosure_eq, State.makeClosure_eq, identities, FunDecl.respell_name]
  dsimp only
  have later := numbered.grows_define inside opens notThis
    (.closure ⟨s.store.nextIdentity, decl, s.context.env, false⟩)
  have held := (holds.mono (grows.trans later).bound).introduce notThis
    (numbered.bound_define inside opens decl.name.lexeme _)
  have stands : w.Stands _ s.context.env (p.introduce decl.name.lexeme) :=
    ⟨(p.introduce_sites decl.name.lexeme).symm ▸ opens, held⟩
  refine .still ?_ (grows.trans later)
  have related := MachineRel.defines numbered inside opens (p.introduce_sites decl.name.lexeme)
    notThis allowed
    (.closure (.intro (.intro stands (settled.introduce _) inDecl) fun none => by cases none)) held
    (left.mono grows)
  rwa [spelled] at related

/-- A variable is declared; until its initializer is over, its spot waits for it to be bound. -/
theorem executeVariable (opens : w.Opens s.context.env.chain p.sites)
    (holds : Holds s.store s.context.env p) (inside : r.target ≠ []) {name : Token}
    {init : Option Expr} (known : w.Knows ((Stmt.varDecl name init).walk path p))
    (left : StackRel r w s.store (p.introduce name.lexeme) tasks tasks')
    (states : StateRel r w s s') :
    Advances r w s.store [] (Machine.execute (.varDecl name init) tasks s)
      (Machine.execute ((Stmt.varDecl name init).respell r path p) tasks' s') := by
  obtain ⟨isKnown, inInit⟩ := knows_cons.mp known
  have fit := states.fit _ isKnown
  have isName : name.IsOf [.identifier, .printWord] := Token.IsOf.mono fit.proper (by simp)
  have notThis := isName.lexeme_ne.1
  cases init with
  | none =>
      have grows := states.grows_define inside opens notThis .nil
      have held := (holds.mono grows.bound).introduce notThis
        (states.bound_define inside opens name.lexeme .nil)
      exact .still (.defines states inside opens (p.introduce_sites name.lexeme) notThis
        (fit.allowed _ List.mem_cons_self) .nil held left) grows
  | some init =>
      have sites : (p.declare name.lexeme).sites = p.sites := p.declare_sites name.lexeme
      have same : r.declared p name = r.declared (p.declare name.lexeme) name := by
        rw [Respelling.declared, Respelling.declared, Respelling.spellHere_of_sites sites]
      have poised : Poised r w (p.declare name.lexeme) (.define name :: tasks)
          (.define (r.declared p name) :: tasks') s s' := by
        rw [same]
        exact ⟨sites.symm ▸ opens, holds.declare notThis, .task (.define sites.symm isKnown) left,
          states⟩
      exact .still (poised.eval inInit) .refl

/-- The branches of a condition stand at the spot of the condition and declare nothing. -/
theorem executeIf (opens : w.Opens s.context.env.chain p.sites)
    (holds : Holds s.store s.context.env p) (settled : p.Settled)
    {condition : Expr} {thenBranch : Stmt} {elseBranch : Option Stmt}
    (known : w.Knows ((Stmt.ifElse condition thenBranch elseBranch).walk path p))
    (left : StackRel r w s.store (p.after (.ifElse condition thenBranch elseBranch)) tasks tasks')
    (states : StateRel r w s s') :
    Advances r w s.store []
      (Machine.execute (.ifElse condition thenBranch elseBranch) tasks s)
      (Machine.execute ((Stmt.ifElse condition thenBranch elseBranch).respell r path p) tasks' s') := by
  cases elseBranch with
  | none =>
      obtain ⟨inCondition, known⟩ := knows_append.mp known
      obtain ⟨isBranch, inThen⟩ := knows_cons.mp known
      have alone : thenBranch.declares = [] := (states.fit _ isBranch).proper
      rw [Spot.after, Stmt.declares, alone] at left
      have poised : Poised r w p tasks tasks' s s' := ⟨opens, holds, left, states⟩
      exact .still ((poised.push (.choose settled alone inThen) rfl).eval inCondition) .refl
  | some elseBranch =>
      obtain ⟨inCondition, known⟩ := knows_append.mp known
      obtain ⟨known, known'⟩ := knows_append.mp known
      obtain ⟨isBranch, inThen⟩ := knows_cons.mp known
      obtain ⟨isBranch', inElse⟩ := knows_cons.mp known'
      have alone : thenBranch.declares = [] := (states.fit _ isBranch).proper
      have alone' : elseBranch.declares = [] := (states.fit _ isBranch').proper
      rw [Spot.after, Stmt.declares, alone, alone'] at left
      have poised : Poised r w p tasks tasks' s s' := ⟨opens, holds, left, states⟩
      have same : p.after thenBranch = p := by rw [Spot.after, alone]; rfl
      rw [same] at inElse
      rw [Stmt.respell, same]
      exact .still ((poised.push (.chooseElse settled alone inThen alone' inElse) rfl).eval
        inCondition) .refl

/-- A statement is looked at, with what follows waiting at the spot after it. -/
theorem execute (opens : w.Opens s.context.env.chain p.sites)
    (holds : Holds s.store s.context.env p) (settled : p.Settled) (inside : r.target ≠ [])
    (proper : r.Proper) {stmt : Stmt} (known : w.Knows (stmt.walk path p))
    (left : StackRel r w s.store (p.after stmt) tasks tasks') (states : StateRel r w s s') :
    Advances r w s.store (Machine.opensExec stmt s) (Machine.execute stmt tasks s)
      (Machine.execute (stmt.respell r path p) tasks' s') := by
  cases stmt with
  | block body => exact executeBlock opens holds settled known left states
  | classDecl name superclass methods =>
      exact executeClass opens holds settled inside proper known left states
  | expression expr => exact .still (Poised.eval ⟨opens, holds, left, states⟩ known) .refl
  | funDecl decl => exact executeFunction opens holds settled inside known left states
  | ifElse condition thenBranch elseBranch =>
      exact executeIf opens holds settled known left states
  | inclusion path =>
      refine .still ?_ .refl
      unfold Machine.execute
      rw [Stmt.respell]
      dsimp only
      rw [states.context]
      exact .intro opens (.awaitFile holds) left states
  | print value =>
      have poised : Poised r w p tasks tasks' s s' := ⟨opens, holds, left, states⟩
      have pushed : Poised r w p (.print value.mainLine :: tasks) (.print value.mainLine :: tasks')
          s s' := poised.push .print rfl
      unfold Machine.execute
      rw [Stmt.respell]
      dsimp only
      rw [Expr.mainLine_respell]
      exact .still (pushed.eval known) .refl
  | ret keyword value =>
      obtain ⟨isReturn, inValue⟩ := knows_cons.mp known
      have within : p.around.inFunction = true := by
        have sound := (states.fit _ isReturn).sound
        simp only [Event.fault?] at sound
        split at sound
        · assumption
        · cases sound
      cases value with
      | none => exact .still (.intro opens (.returned within .nil) left states) .refl
      | some value =>
          have poised : Poised r w p tasks tasks' s s' := ⟨opens, holds, left, states⟩
          exact .still ((poised.push (.ret within) rfl).eval inValue) .refl
  | varDecl name init => exact executeVariable opens holds inside known left states
  | whileLoop condition body =>
      obtain ⟨inCondition, known⟩ := knows_append.mp known
      obtain ⟨isBranch, inBody⟩ := knows_cons.mp known
      have alone : body.declares = [] := (states.fit _ isBranch).proper
      rw [Spot.after, Stmt.declares, alone] at left
      have poised : Poised r w p tasks tasks' s s' := ⟨opens, holds, left, states⟩
      exact .still ((poised.push (.loopBody settled inCondition alone inBody) rfl).eval inCondition)
        .refl

end Poised

/-! ## Tasks -/

/-- A frame that binds a name was made. -/
theorem StoreRel.exists_site {store store' : Store} (stores : StoreRel r w store store')
    {frame : Nat} {name : String} {value : Value}
    (bound : store.valueIn? frame name = some value) : ∃ site, w.sites[frame]? = some site := by
  by_cases made : frame < w.sites.length
  · exact ⟨_, List.getElem?_eq_getElem made⟩
  · rw [← stores.made] at made
    rw [Store.valueIn?, store.bindings_of_size_le (Nat.le_of_not_lt made)] at bound
    cases bound

/-- The values of calls that answer alike correspond. -/
theorem AnswerRel.value (states : StateRel r w s s') (proper : r.Proper) {answer answer' : Answer}
    (related : AnswerRel r w s.store answer answer') {returned returned' : Option Value}
    (values : Option.Rel (ValueRel r w s.store) returned returned') :
    ValueRel r w s.store (Machine.answerValue answer returned s)
      (Machine.answerValue answer' returned' s') := by
  cases related with
  | result =>
      cases values with
      | some value => exact value
      | none => exact .nil
  | @receiver env inst sites opens bound =>
      obtain ⟨site, made⟩ := states.store.exists_site bound
      have allowed : site.path = r.target → "this" ≠ r.new := fun _ => proper.new_ne_this.symm
      have found := states.store.valueIn? made allowed
      rw [Respelling.spell_self proper.old_ne_this.symm] at found
      unfold Machine.answerValue Store.getAt?
      dsimp only [Env.ancestor?_zero, Option.bind_some]
      revert found
      generalize s.store.valueIn? env.frame "this" = a
      generalize s'.store.valueIn? env.frame "this" = a'
      intro found
      cases found with
      | some value => exact value
      | none => exact .nil
  | made related => exact .inst related

/-- Variables that are assigned to are bound in both states, or in none. -/
theorem Poised.assigns (poised : Poised r w p tasks tasks' s s') (inside : r.target ≠ [])
    {target : Reference} (known : w.known ⟨p, .assign target⟩) {value value' : Value}
    (related : ValueRel r w s.store value value') :
    Advances r w s.store [] (Machine.resume value (.assign target) tasks s)
      (Machine.resume value' (.assign (r.referred p target)) tasks' s') := by
  obtain ⟨same, grows, assigned⟩ := poised.states.assign inside poised.opens known related
  have spelled : (s.assign target value).1 = false → r.referred p target = target := by
    intro missed
    cases found : Analysis.hops? target.name.lexeme p.names with
    | none => rw [Respelling.referred, Spot.misses found r]
    | some distance =>
        obtain ⟨_, frame, _, _, at', _, _⟩ := poised.opens.finds found
        rw [State.assign_eq, poised.states.hops_known known rfl, found] at missed
        dsimp only [Store.assignAt] at missed
        rw [at'] at missed
        cases missed
  have context : (s.assign target value).2.context = s.context := by rw [State.assign_eq]
  have left : StackRel r w (s.assign target value).2.store p tasks tasks' := poised.left.mono grows
  have opens : w.Opens (s.assign target value).2.context.env.chain p.sites :=
    context.symm ▸ poised.opens
  dsimp only [Machine.resume]
  rw [same]
  split
  · next found =>
      exact .still (.intro opens (.value (context.symm ▸ poised.holds.mono grows.bound)
        (related.mono grows)) left assigned) grows
  · next missed =>
      have missed := eq_false_of_ne_true missed
      rw [spelled missed] at assigned ⊢
      exact .still (.failing opens left assigned (.same _)) grows

/-- A statement that declares nothing is executed. -/
theorem Poised.exec (poised : Poised r w p tasks tasks' s s') (settled : p.Settled)
    {path : List Nat} {stmt : Stmt} (alone : stmt.declares = [])
    (known : w.Knows (stmt.walk path p)) :
    MachineRel r w ⟨.exec stmt, tasks, s⟩ ⟨.exec (stmt.respell r path p), tasks', s'⟩ := by
  have same : p.after stmt = p := by
    rw [Spot.after, alone]
    rfl
  refine .intro poised.opens (.exec poised.holds settled known) ?_ poised.states
  rw [same]
  exact poised.left

/-- A task of the frame at hand is carried out with a value. -/
theorem TaskRel.resume (opens : w.Opens s.context.env.chain p.sites)
    (holds : Holds s.store s.context.env p) (inside : r.target ≠ []) (proper : r.Proper)
    {value value' : Value} (related : ValueRel r w s.store value value') {task task' : Task}
    (first : TaskRel r w s.store p task task')
    (rest : StackRel r w s.store (task.spotAfter p) tasks tasks') (states : StateRel r w s s') :
    Advances r w s.store (Machine.opens ⟨.give (.value value), task :: tasks, s⟩)
      (Machine.resume value task tasks s) (Machine.resume value' task' tasks' s') := by
  -- Most tasks are done at the spot where they are carried out.
  have poised : task.spotAfter p = p → Poised r w p tasks tasks' s s' :=
    fun same => ⟨opens, holds, by rwa [same] at rest, states⟩
  cases first with
  | assign known => exact (poised rfl).assigns inside known related
  | rightOperand known =>
      exact .still (((poised rfl).push (.operate related) rfl).eval known) .refl
  | operate left => exact .still ((poised rfl).gives (.operate left related)) .refl
  | operateUnary => exact .still ((poised rfl).gives (.operateUnary related)) .refl
  | decide known =>
      dsimp only [Machine.resume]
      rw [related.decidesAlone]
      split
      · exact .still ((poised rfl).value related) .refl
      · exact .still ((poised rfl).eval known) .refl
  | @firstArgument paren args known =>
      cases args with
      | nil => exact (poised rfl).call proper related .nil paren
      | cons arg args =>
          obtain ⟨inArg, later⟩ := knows_append.mp known
          exact .still (((poised rfl).push (.nextArgument related .nil later) rfl).eval inArg) .refl
  | @nextArgument callee callee' before before' paren args ofCallee each known =>
      have each' := List.Forall₂.cons related each
      cases args with
      | nil => exact (poised rfl).call proper ofCallee (List.rel_reverse each') paren
      | cons arg args =>
          obtain ⟨inArg, later⟩ := knows_append.mp known
          exact .still (((poised rfl).push (.nextArgument ofCallee each' later) rfl).eval inArg)
            .refl
  | @get name => exact (poised rfl).getProperty proper related name
  | storedValue known =>
      cases related with
      | inst ofInstance =>
          exact .still (((poised rfl).push (.set ofInstance) rfl).eval known) .refl
      | _ => exact .still ((poised rfl).failAt ..) .refl
  | @set inst inst' name ofInstance =>
      obtain @⟨object, cls, cls', ofClass⟩ := ofInstance
      have grows : Grows w s.store w (s.store.setField object name.lexeme value) :=
        StoreRel.grows_setField ..
      have set := (poised rfl).withStore grows (states.store.setField object name.lexeme related)
        ⟨rfl, rfl⟩
      exact .still (set.value (related.mono grows)) grows
  | @define name declared same known =>
      have fit := states.fit _ known
      have isName : name.IsOf [.identifier, .printWord] := Token.IsOf.mono fit.proper (by simp)
      have allowed := fit.allowed _ List.mem_cons_self
      rw [same] at allowed
      have grows := states.grows_define inside opens isName.lexeme_ne.1 value
      have held := (holds.mono grows.bound).define
        (states.bound_define inside opens name.lexeme value)
      exact .still (.defines states inside opens (p.define_sites name.lexeme) isName.lexeme_ne.1
        allowed (related.mono grows) held rest) grows
  | @print line =>
      obtain ⟨written, same⟩ := (poised rfl).writes value.text line
      rw [Machine.resume_print, Machine.resume_print, related.text]
      exact .still written (same ▸ .refl)
  | ret within => exact .still (.intro opens (.returned within related) rest states) .refl
  | choose settled alone known =>
      dsimp only [Machine.resume]
      rw [related.isTruthy]
      split
      · exact .still ((poised rfl).exec settled alone known) .refl
      · exact .still ((poised rfl).value .nil) .refl
  | chooseElse settled alone known alone' known' =>
      dsimp only [Machine.resume]
      rw [related.isTruthy]
      split
      · exact .still ((poised rfl).exec settled alone known) .refl
      · exact .still ((poised rfl).exec settled alone' known') .refl
  | loopBody settled tested alone known =>
      dsimp only [Machine.resume]
      rw [related.isTruthy]
      split
      · exact .still (((poised rfl).push (.loopAgain settled tested alone known) rfl).exec settled
          alone known) .refl
      · exact .still ((poised rfl).value .nil) .refl
  | loopAgain settled tested alone known =>
      exact .still (((poised rfl).push (.loopBody settled tested alone known) rfl).eval tested) .refl
  | @body path index stmts settled known =>
      cases stmts with
      | nil => exact .still ((poised rfl).value .nil) .refl
      | cons stmt stmts =>
          obtain ⟨inStmt, later⟩ := knows_append.mp known
          have left := StackRel.task (.body (settled.after stmt) later) rest
          exact .still (.intro opens (.exec holds settled inStmt) left states) .refl
  | @program path index stmts settled outside known =>
      cases stmts with
      | nil => exact .still ((poised rfl).value .nil) .refl
      | cons stmt stmts =>
          obtain ⟨inStmt, later⟩ := knows_append.mp known
          have outside' : (p.after stmt).around.inFunction = false := by
            rw [Spot.after_around]
            exact outside
          have left := StackRel.task (.program (settled.after stmt) outside' later) rest
          exact .still (.intro opens (.exec holds settled inStmt) left states) .refl

/-- The context that is restored at the end of a block, a call or an inclusion. -/
theorem Poised.restore {q : Spot} {saved : Context} (stands : w.Stands s.store saved.env q)
    (rest : StackRel r w s.store q tasks tasks') (states : StateRel r w s s') :
    Poised r w q tasks tasks' (s.setContext saved) (s'.setContext saved) :=
  ⟨stands.opens, stands.holds, rest, states.setContext saved⟩

/-- The first task is carried out with a value. -/
theorem StackRel.resume (opens : w.Opens s.context.env.chain p.sites)
    (holds : Holds s.store s.context.env p) (inside : r.target ≠ []) (proper : r.Proper)
    {value value' : Value} (related : ValueRel r w s.store value value') {task task' : Task}
    (stack : StackRel r w s.store p (task :: tasks) (task' :: tasks')) (states : StateRel r w s s') :
    Advances r w s.store (Machine.opens ⟨.give (.value value), task :: tasks, s⟩)
      (Machine.resume value task tasks s) (Machine.resume value' task' tasks' s') := by
  cases stack with
  | task first rest => exact first.resume opens holds inside proper related rest states
  | leave same stands rest => exact .still ((Poised.restore stands rest states).value .nil) .refl
  | finishCall answers stands rest =>
      exact .still ((Poised.restore stands rest states).value (answers.value states proper .none))
        .refl
  | finishInclusion outside stands rest =>
      exact .still ((Poised.restore stands rest states).value .nil) .refl

/--
A `return` is passed on to the first task.  It is inside of a function, so neither a whole
program nor an inclusion ends before the call does.
-/
theorem StackRel.unwind (opens : w.Opens s.context.env.chain p.sites) (proper : r.Proper)
    (within : p.around.inFunction = true) {value value' : Value}
    (related : ValueRel r w s.store value value') {task task' : Task}
    (stack : StackRel r w s.store p (task :: tasks) (task' :: tasks')) (states : StateRel r w s s') :
    MachineRel r w (Machine.unwind value task tasks s) (Machine.unwind value' task' tasks' s') ∧
      (Machine.unwind value task tasks s).state.store = s.store := by
  cases stack with
  | task first rest =>
      have opens' : w.Opens s.context.env.chain (task.spotAfter p).sites := by
        rw [Task.spotAfter_sites]
        exact opens
      have within' : (task.spotAfter p).around.inFunction = true := by
        rw [Task.spotAfter_around]
        exact within
      have passed : MachineRel r w (.giving (.returned value) tasks s)
          (.giving (.returned value') tasks' s') :=
        .intro opens' (.returned within' related) rest states
      cases first with
      | program settled outside known =>
          rw [outside] at within
          cases within
      | _ => exact ⟨passed, rfl⟩
  | leave same stands rest =>
      rw [← same] at within
      exact ⟨.intro stands.opens (.returned within related) rest (states.setContext _), rfl⟩
  | finishCall answers stands rest =>
      exact ⟨(Poised.restore stands rest states).value
        (answers.value states proper (.some related)), rfl⟩
  | finishInclusion outside stands rest =>
      rw [outside] at within
      cases within

/-- An error is passed on to the first task. -/
theorem StackRel.abandon (opens : w.Opens s.context.env.chain p.sites) {error error' : Error}
    (related : ErrorRel r error error') {task task' : Task}
    (stack : StackRel r w s.store p (task :: tasks) (task' :: tasks')) (states : StateRel r w s s') :
    MachineRel r w (Machine.abandon error task tasks s) (Machine.abandon error' task' tasks' s') ∧
      (Machine.abandon error task tasks s).state.store = s.store := by
  cases stack with
  | task first rest =>
      have opens' : w.Opens s.context.env.chain (task.spotAfter p).sites := by
        rw [Task.spotAfter_sites]
        exact opens
      have passed : MachineRel r w (.giving (.failed error) tasks s)
          (.giving (.failed error') tasks' s') :=
        .failing opens' rest states related
      cases first with
      | _ => exact ⟨passed, rfl⟩
  | leave same stands rest => exact ⟨(Poised.restore stands rest states).failed related, rfl⟩
  | @finishCall _ _ _ line _ _ _ _ answers stands rest =>
      exact ⟨(Poised.restore stands rest states).failed (related.withLineIfMissing line), rfl⟩
  | finishInclusion outside stands rest =>
      exact ⟨(Poised.restore stands rest states).failed related, rfl⟩

end Lox
