import Lox.Machine.Task
import Lox.Proofs.Compiled
import Lox.Proofs.Matching.Stores

/-!
# Matching states

Two states match if their stores do, if the tables of distances tell the same of counterparts, and
if output and clock are the same.  Their contexts match apart from that: while a file is included,
the context of whoever includes it does not matter.
-/

namespace Lox

/-- Errors differ at most in the line that they tell of. -/
inductive ErrorMatch (σ : Leeway) : Error → Error → Prop where
  | runtime {line line' : Nat} (lines : σ.lines line line') (fault : RuntimeFault) :
      ErrorMatch σ (.runtime line fault) (.runtime line' fault)
  | inclusion {line line' : Nat} (lines : σ.lines line line') (path : String)
      (causes : List Error) :
      ErrorMatch σ (.inclusion line path causes) (.inclusion line' path causes)

theorem ErrorMatch.at {σ : Leeway} (t : Twin σ) (token : Token) (fault : RuntimeFault) :
    ErrorMatch σ (.runtimeAt (token.move t.left) fault) (.runtimeAt (token.move t.right) fault) :=
  .runtime (t.lines token.line) fault

theorem ErrorMatch.withLineIfMissing {σ : Leeway} {error error' : Error} {line line' : Nat}
    (related : ErrorMatch σ error error') (lines : σ.lines line line') :
    ErrorMatch σ (error.withLineIfMissing line) (error'.withLineIfMissing line') := by
  cases related with
  | @runtime known known' lines' fault =>
      obtain ⟨left, right, original, moves, isKnown, isKnown'⟩ := id lines'
      have same : known = 0 ↔ known' = 0 := by
        rw [isKnown, isKnown']
        exact σ.zero moves original
      cases known with
      | zero =>
          obtain rfl := same.mp rfl
          exact .runtime lines fault
      | succ known =>
          cases known' with
          | zero => cases same.mpr rfl
          | succ known' => exact .runtime lines' fault
  | inclusion lines' path causes => exact .inclusion lines' path causes

inductive OutcomeMatch (σ : Leeway) (w : Pairing) : Outcome → Outcome → Prop where
  | value {value value' : Value} (related : ValueMatch σ w value value') :
      OutcomeMatch σ w (.value value) (.value value')
  | returned {value value' : Value} (related : ValueMatch σ w value value') :
      OutcomeMatch σ w (.returned value) (.returned value')
  | failed {error error' : Error} (related : ErrorMatch σ error error') :
      OutcomeMatch σ w (.failed error) (.failed error')

theorem OutcomeMatch.nil {σ : Leeway} {w : Pairing} : OutcomeMatch σ w .nil .nil := .value .nil

theorem OutcomeMatch.failAt {σ : Leeway} {w : Pairing} (t : Twin σ) (token : Token)
    (fault : RuntimeFault) :
    OutcomeMatch σ w (.failAt (token.move t.left) fault) (.failAt (token.move t.right) fault) :=
  .failed (.at t token fault)

structure ContextMatch (σ : Leeway) (w : Pairing) (context context' : Context) : Prop where
  env : EnvMatch w context.env context'.env
  base : σ.bases context.base context'.base
  depth : context.depth = context'.depth + σ.deeper

theorem ContextMatch.mono {σ : Leeway} {w w' : Pairing} {context context' : Context}
    (contexts : ContextMatch σ w context context') (within : w.Within w') :
    ContextMatch σ w' context context' :=
  ⟨contexts.env.mono within, contexts.base, contexts.depth⟩

/-- All of two states matches but the contexts. -/
structure CoreMatch (σ : Leeway) (w : Pairing) (s s' : State) : Prop where
  store : StoreMatch σ w s.store s'.store
  references : ∀ {id id'}, w.references id id' →
    id < s.nextReference ∧ id' < s'.nextReference ∧ s.hops[id]? = s'.hops[id']?
  unused : ∀ id, s.nextReference ≤ id → s.hops[id]? = none
  unused' : ∀ id, s'.nextReference ≤ id → s'.hops[id]? = none
  output : s'.output = s.output
  now : s'.now = s.now

structure StateMatch (σ : Leeway) (w : Pairing) (s s' : State) : Prop where
  core : CoreMatch σ w s s'
  context : ContextMatch σ w s.context s'.context

/-- What is known of references that were numbered before stays known, and the clock stands. -/
structure State.Extends (s t : State) : Prop where
  nextReference : s.nextReference ≤ t.nextReference
  hops : ∀ id < s.nextReference, t.hops[id]? = s.hops[id]?
  now : t.now = s.now

/-- States after steps that were taken side by side. -/
structure StateGrows (w : Pairing) (s s' : State) (w' : Pairing) (t t' : State) : Prop where
  stores : StoreGrows w s.store s'.store w' t.store t'.store
  left : s.Extends t
  right : s'.Extends t'

theorem State.Extends.refl (s : State) : s.Extends s := ⟨Nat.le_refl _, fun _ _ => rfl, rfl⟩

theorem State.Extends.trans {s t u : State} (first : s.Extends t) (next : t.Extends u) :
    s.Extends u :=
  ⟨Nat.le_trans first.nextReference next.nextReference, fun id early =>
    (next.hops id (Nat.lt_of_lt_of_le early first.nextReference)).trans (first.hops id early),
    next.now.trans first.now⟩

namespace StateGrows

variable {w w' w'' : Pairing} {s s' t t' u u' : State}

theorem refl : StateGrows w s s' w s s' := ⟨.refl, .refl s, .refl s'⟩

theorem trans (first : StateGrows w s s' w' t t') (next : StateGrows w' t t' w'' u u') :
    StateGrows w s s' w'' u u' :=
  ⟨first.stores.trans next.stores, first.left.trans next.left, first.right.trans next.right⟩

theorem within (grows : StateGrows w s s' w' t t') : w.Within w' := grows.stores.within

/-- Only the stores change. -/
theorem ofStores {store store' : Store} (stores : StoreGrows w s.store s'.store w' store store') :
    StateGrows w s s' w' { s with store := store } { s' with store := store' } :=
  ⟨stores, ⟨Nat.le_refl _, fun _ _ => rfl, rfl⟩, ⟨Nat.le_refl _, fun _ _ => rfl, rfl⟩⟩

/-- In which contexts states are, and what was written, makes no difference. -/
theorem toSimilar (grows : StateGrows w s s' w' t t')
    (left : u.store = t.store ∧ u.hops = t.hops ∧ u.nextReference = t.nextReference ∧
      u.now = t.now)
    (right : u'.store = t'.store ∧ u'.hops = t'.hops ∧ u'.nextReference = t'.nextReference ∧
      u'.now = t'.now) :
    StateGrows w s s' w' u u' := by
  obtain ⟨store, hops, next, now⟩ := left
  obtain ⟨store', hops', next', now'⟩ := right
  refine ⟨?_, ⟨?_, fun id early => ?_, now.trans grows.left.now⟩,
    ⟨?_, fun id early => ?_, now'.trans grows.right.now⟩⟩
  · rw [store, store']
    exact grows.stores
  · rw [next]
    exact grows.left.nextReference
  · rw [hops]
    exact grows.left.hops id early
  · rw [next']
    exact grows.right.nextReference
  · rw [hops']
    exact grows.right.hops id early

end StateGrows

/-- One name is bound to counterparts. -/
theorem single_matches {σ : Leeway} {w : Pairing} (name : String) {value value' : Value}
    (related : ValueMatch σ w value value') (key : String) :
    Option.Rel (ValueMatch σ w) (Bindings.find? key [(name, value)])
      (Bindings.find? key [(name, value')]) := by
  simp only [Bindings.find?]
  split
  · exact .some related
  · exact .none

/-! ## Operations on matching states -/

namespace CoreMatch

variable {σ : Leeway} {w w' : Pairing} {s s' : State}

/-- Matching states with other stores that match. -/
theorem withStore (cores : CoreMatch σ w s s') {store store' : Store}
    (stores : StoreMatch σ w' store store') (same : w'.references = w.references) :
    CoreMatch σ w' { s with store := store } { s' with store := store' } :=
  ⟨stores, fun {_ _} paired => cores.references (same ▸ paired), cores.unused, cores.unused',
    cores.output, cores.now⟩

theorem setContext (cores : CoreMatch σ w s s') (context context' : Context) :
    CoreMatch σ w (s.setContext context) (s'.setContext context') :=
  ⟨cores.store, cores.references, cores.unused, cores.unused', cores.output, cores.now⟩

theorem widen {σ' : Leeway} (cores : CoreMatch σ w s s') (wider : σ.Within σ') :
    CoreMatch σ' w s s' :=
  ⟨cores.store.widen wider, cores.references, cores.unused, cores.unused', cores.output, cores.now⟩

theorem inContext (cores : CoreMatch σ w s s') {context context' : Context}
    (contexts : ContextMatch σ w context context') :
    StateMatch σ w (s.setContext context) (s'.setContext context') :=
  ⟨cores.setContext context context', contexts⟩

theorem setField (cores : CoreMatch σ w s s') {inst inst' : Instance}
    (ofInstance : InstanceMatch σ w inst inst') (name : String) {value value' : Value}
    (related : ValueMatch σ w value value') :
    StateGrows w s s' w { s with store := s.store.setField inst.object name value }
        { s' with store := s'.store.setField inst'.object name value' } ∧
      CoreMatch σ w { s with store := s.store.setField inst.object name value }
        { s' with store := s'.store.setField inst'.object name value' } := by
  obtain ⟨paired, _⟩ := ofInstance
  exact ⟨.ofStores (StoreMatch.grows_setField paired name value value'),
    cores.withStore (cores.store.setField paired name related) rfl⟩

theorem writeLine (cores : CoreMatch σ w s s') (text : String) :
    (s'.writeLine text).1 = (s.writeLine text).1 ∧
      CoreMatch σ w (s.writeLine text).2 (s'.writeLine text).2 := by
  rw [State.writeLine_eq, State.writeLine_eq, cores.output]
  exact ⟨rfl, cores.store, cores.references, cores.unused, cores.unused', rfl, cores.now⟩

end CoreMatch

namespace StateMatch

variable {σ : Leeway} {w w' : Pairing} {s s' : State}

theorem withStore (states : StateMatch σ w s s') {store store' : Store}
    (stores : StoreMatch σ w' store store') (within : w.Within w')
    (same : w'.references = w.references) :
    StateMatch σ w' { s with store := store } { s' with store := store' } :=
  ⟨states.core.withStore stores same, states.context.mono within⟩

/-- The innermost frames are counterparts. -/
theorem frame (states : StateMatch σ w s s') :
    w.frames s.context.env.frame s'.context.env.frame :=
  (List.forall₂_cons.mp states.context.env).1

theorem define (states : StateMatch σ w s s') (name : String) {value value' : Value}
    (related : ValueMatch σ w value value') :
    StateGrows w s s' w (s.define name value) (s'.define name value') ∧
      StateMatch σ w (s.define name value) (s'.define name value') :=
  ⟨.ofStores (StoreMatch.grows_define states.frame name value value'),
    states.withStore (states.core.store.define states.frame name related) (.refl w) rfl⟩

/-- Counterparts of a reference read counterparts of a value. -/
theorem valueOf? (states : StateMatch σ w s s') (t : Twin σ) {reference : Reference}
    (paired : w.references (reference.id + t.left.offset) (reference.id + t.right.offset)) :
    Option.Rel (ValueMatch σ w) (s.valueOf? (reference.move t.left))
      (s'.valueOf? (reference.move t.right)) := by
  obtain ⟨_, _, same⟩ := states.core.references paired
  have same : s'.hops[(reference.move t.right).id]? = s.hops[(reference.move t.left).id]? :=
    same.symm
  unfold State.valueOf?
  rw [same]
  cases s.hops[(reference.move t.left).id]? with
  | some distance => exact states.core.store.getAt? states.context.env distance _
  | none => exact states.core.store.lookup?_globals _

theorem read (states : StateMatch σ w s s') (t : Twin σ) {reference : Reference}
    (paired : w.references (reference.id + t.left.offset) (reference.id + t.right.offset)) :
    OutcomeMatch σ w (s.read (reference.move t.left)) (s'.read (reference.move t.right)) := by
  have found := states.valueOf? t paired
  unfold State.read
  revert found
  generalize s.valueOf? (reference.move t.left) = value?
  generalize s'.valueOf? (reference.move t.right) = value?'
  intro found
  cases found with
  | some related => exact .value related
  | none => exact .failAt t reference.name _

theorem assign (states : StateMatch σ w s s') (t : Twin σ) {target : Reference}
    (paired : w.references (target.id + t.left.offset) (target.id + t.right.offset))
    {value value' : Value} (related : ValueMatch σ w value value') :
    (s'.assign (target.move t.right) value').1 = (s.assign (target.move t.left) value).1 ∧
      StateGrows w s s' w (s.assign (target.move t.left) value).2
        (s'.assign (target.move t.right) value').2 ∧
      StateMatch σ w (s.assign (target.move t.left) value).2
        (s'.assign (target.move t.right) value').2 := by
  obtain ⟨_, _, same⟩ := states.core.references paired
  have same : s'.hops[(target.move t.right).id]? = s.hops[(target.move t.left).id]? :=
    same.symm
  rw [State.assign_eq, State.assign_eq, same]
  cases s.hops[(target.move t.left).id]? with
  | some distance =>
      obtain ⟨found, grows, stores⟩ := states.core.store.assignAt states.context.env distance
        target.name.lexeme related
      exact ⟨found, .ofStores grows, states.withStore stores (.refl w) rfl⟩
  | none =>
      obtain ⟨found, grows, stores⟩ := states.core.store.assign_globals target.name.lexeme related
      exact ⟨found, .ofStores grows, states.withStore stores (.refl w) rfl⟩

/-- `super` stands for counterparts of a class and of a receiver. -/
theorem superOf? (states : StateMatch σ w s s') (t : Twin σ) {keyword : Reference}
    (paired : w.references (keyword.id + t.left.offset) (keyword.id + t.right.offset)) :
    Option.Rel (fun x y => ClassMatch σ w x.1 y.1 ∧ InstanceMatch σ w x.2 y.2)
      (s.superOf? (keyword.move t.left)) (s'.superOf? (keyword.move t.right)) := by
  obtain ⟨_, _, same⟩ := states.core.references paired
  have same : s'.hops[(keyword.move t.right).id]? = s.hops[(keyword.move t.left).id]? :=
    same.symm
  unfold State.superOf?
  rw [same]
  rcases s.hops[(keyword.move t.left).id]? with _ | _ | distance
  · exact .none
  · exact .none
  · have superclass := states.core.store.getAt? states.context.env (distance + 1) "super"
    have receiver := states.core.store.getAt? states.context.env distance "this"
    dsimp only
    revert superclass receiver
    generalize s.store.getAt? s.context.env (distance + 1) "super" = a
    generalize s'.store.getAt? s'.context.env (distance + 1) "super" = a'
    generalize s.store.getAt? s.context.env distance "this" = b
    generalize s'.store.getAt? s'.context.env distance "this" = b'
    intro superclass receiver
    cases superclass with
    | none => exact .none
    | some superclass =>
        cases superclass with
        | cls ofClass =>
            cases receiver with
            | none => exact .none
            | some receiver =>
                cases receiver with
                | inst ofInstance => exact .some ⟨ofClass, ofInstance⟩
                | _ => exact .none
        | _ => exact .none

/-- What operations come to that make something new: more is paired then. -/
def Later (σ : Leeway) (w : Pairing) (s s' t t' : State) (P : Pairing → Prop) : Prop :=
  ∃ w' : Pairing, StateGrows w s s' w' t t' ∧ StateMatch σ w' t t' ∧ P w'

/-- A frame is put in front of environments, both with counterparts bound in it. -/
theorem extend (states : StateMatch σ w s s') {env env' : Env} (envs : EnvMatch w env env')
    {bindings bindings' : Bindings Value}
    (bound : ∀ name, Option.Rel (ValueMatch σ w) (bindings.find? name) (bindings'.find? name)) :
    Later σ w s s' (s.extend env bindings).2 (s'.extend env' bindings').2 fun w' =>
      EnvMatch w' (s.extend env bindings).1 (s'.extend env' bindings').1 := by
  rw [State.extend_eq, State.extend_eq]
  have within := w.within_withFrame s.store.frames.size s'.store.frames.size
  exact ⟨w.withFrame s.store.frames.size s'.store.frames.size,
    .ofStores (StoreMatch.grows_newFrame bindings bindings'),
    states.withStore (states.core.store.newFrame bound) within rfl,
    .cons (.inr ⟨rfl, rfl⟩) (envs.mono within)⟩

theorem newInstance (states : StateMatch σ w s s') {cls cls' : Class}
    (ofClass : ClassMatch σ w cls cls') :
    Later σ w s s' (s.newInstance cls).2 (s'.newInstance cls').2 fun w' =>
      InstanceMatch σ w' (s.newInstance cls).1 (s'.newInstance cls').1 := by
  rw [State.newInstance_eq, State.newInstance_eq]
  have within := w.within_withObject s.store.objects.size s'.store.objects.size
  exact ⟨w.withObject s.store.objects.size s'.store.objects.size,
    .ofStores StoreMatch.grows_newObject,
    states.withStore states.core.store.newObject within rfl,
    .intro (.inr ⟨rfl, rfl⟩) (ofClass.mono within)⟩

theorem newIdentity (states : StateMatch σ w s s') :
    Later σ w s s' { s with store := s.store.newIdentity.2 }
      { s' with store := s'.store.newIdentity.2 } fun w' =>
        w'.identities s.store.nextIdentity s'.store.nextIdentity := by
  have within := w.within_withIdentity s.store.nextIdentity s'.store.nextIdentity
  exact ⟨w.withIdentity s.store.nextIdentity s'.store.nextIdentity,
    .ofStores (StoreMatch.grows_newIdentity _ _),
    states.withStore states.core.store.newIdentity within rfl, .inr ⟨rfl, rfl⟩⟩

theorem bindMethod (states : StateMatch σ w s s') {method method' : Method}
    (related : MethodMatch σ w method method') {receiver receiver' : Instance}
    (ofInstance : InstanceMatch σ w receiver receiver') :
    Later σ w s s' (s.bindMethod method receiver).2 (s'.bindMethod method' receiver').2 fun w' =>
      ClosureMatch σ w' (s.bindMethod method receiver).1 (s'.bindMethod method' receiver').1 := by
  have initializer := related.isInitializer
  obtain @⟨env, env', t, decl, covers, envs⟩ := related
  obtain ⟨w₁, grows₁, states₁, envs₁⟩ :=
    states.extend envs (single_matches "this" (.inst ofInstance))
  obtain ⟨w₂, grows₂, states₂, same⟩ := states₁.newIdentity
  unfold State.bindMethod
  dsimp only
  rw [State.makeClosure_eq, State.makeClosure_eq, initializer]
  exact ⟨w₂, grows₁.trans grows₂, states₂,
    .intro t decl (covers.mono (grows₁.trans grows₂).within) same (envs₁.mono grows₂.within)⟩

/-- A function is declared: its closure sees its own name. -/
theorem declareFunction (states : StateMatch σ w s s') (t : Twin σ) {decl : FunDecl}
    (covers : w.Covers t decl.acts) :
    Later σ w s s'
      ((s.makeClosure (decl.move t.left) s.context.env false).2.define decl.name.lexeme
        (.closure (s.makeClosure (decl.move t.left) s.context.env false).1))
      ((s'.makeClosure (decl.move t.right) s'.context.env false).2.define decl.name.lexeme
        (.closure (s'.makeClosure (decl.move t.right) s'.context.env false).1)) fun _ => True := by
  obtain ⟨w₁, grows₁, states₁, same⟩ := states.newIdentity
  rw [State.makeClosure_eq, State.makeClosure_eq]
  have related : ClosureMatch σ w₁
      ⟨s.store.nextIdentity, decl.move t.left, s.context.env, false⟩
      ⟨s'.store.nextIdentity, decl.move t.right, s'.context.env, false⟩ :=
    .intro t decl (covers.mono grows₁.within) same states₁.context.env
  obtain ⟨grows₂, states₂⟩ := states₁.define decl.name.lexeme (.closure related)
  exact ⟨w₁, grows₁.trans grows₂, states₂, trivial⟩

end StateMatch

/-- The methods of a class are those of its counterpart. -/
theorem methodTable_matches {σ : Leeway} {w : Pairing} (t : Twin σ) {env env' : Env}
    (envs : EnvMatch w env env') {methods : List FunDecl}
    (covers : w.Covers t (actsMethods methods)) :
    TableMatch σ w (State.methodTable env (moveMethods t.left methods))
      (State.methodTable env' (moveMethods t.right methods)) := by
  have folded : ∀ (methods : List FunDecl) (table table' : Bindings Method),
      w.Covers t (actsMethods methods) → TableMatch σ w table table' →
      TableMatch σ w
        ((moveMethods t.left methods).foldl (fun (table : Bindings Method) decl =>
          table.insert decl.name.lexeme ⟨decl, env⟩) table)
        ((moveMethods t.right methods).foldl (fun (table : Bindings Method) decl =>
          table.insert decl.name.lexeme ⟨decl, env'⟩) table') := by
    intro methods
    induction methods with
    | nil => exact fun _ _ _ tables => tables
    | cons method methods ih =>
        intro table table' covers tables
        obtain ⟨inMethod, later⟩ := Pairing.covers_append.mp covers
        refine ih _ _ later fun name => ?_
        dsimp only
        rw [FunDecl.move_name, FunDecl.move_name, Token.move_lexeme, Token.move_lexeme,
          Bindings.find?_insert, Bindings.find?_insert]
        split
        · exact .some (.intro t method inMethod envs)
        · exact tables name
  exact folded methods [] [] covers fun _ => .none

/-- Counterparts of arguments are bound to a parameter and to its counterpart. -/
theorem bindParameters_matches {σ : Leeway} {w : Pairing} (t : Twin σ) (params : List Token)
    {args args' : List Value} (each : List.Forall₂ (ValueMatch σ w) args args') (name : String) :
    Option.Rel (ValueMatch σ w)
      ((bindParameters (params.map (Token.move t.left)) args).find? name)
      ((bindParameters (params.map (Token.move t.right)) args').find? name) := by
  have folded : ∀ (params : List Token) (args args' : List Value) (b b' : Bindings Value),
      List.Forall₂ (ValueMatch σ w) args args' →
      (∀ name, Option.Rel (ValueMatch σ w) (b.find? name) (b'.find? name)) →
      ∀ name, Option.Rel (ValueMatch σ w)
        ((((params.map (Token.move t.left)).zip args).foldl
          (fun (bindings : Bindings Value) pair => bindings.insert pair.1.lexeme pair.2) b).find? name)
        ((((params.map (Token.move t.right)).zip args').foldl
          (fun (bindings : Bindings Value) pair =>
            bindings.insert pair.1.lexeme pair.2) b').find? name) := by
    intro params
    induction params with
    | nil => exact fun _ _ _ _ _ bound => bound
    | cons param params ih =>
        intro args args' b b' each bound
        cases each with
        | nil => exact bound
        | cons first rest =>
            refine ih _ _ _ _ rest fun name => ?_
            dsimp only
            rw [Token.move_lexeme, Token.move_lexeme, Bindings.find?_insert, Bindings.find?_insert]
            split
            · exact .some first
            · exact bound name
  exact folded params args args' [] [] each (fun _ => .none) name

namespace StateMatch

variable {σ : Leeway} {w : Pairing} {s s' : State}

theorem declareClass (states : StateMatch σ w s s') (t : Twin σ) (name : Token)
    {superclass superclass' : Option Class}
    (inherited : Option.Rel (ClassMatch σ w) superclass superclass') {methods : List FunDecl}
    (covers : w.Covers t (actsMethods methods)) :
    Later σ w s s'
      (s.declareClass (name.move t.left) superclass (moveMethods t.left methods))
      (s'.declareClass (name.move t.right) superclass' (moveMethods t.right methods))
      fun _ => True := by
  obtain ⟨w₁, grows₁, states₁, same⟩ := states.newIdentity
  unfold State.declareClass
  rw [State.newIdentity_eq, State.newIdentity_eq]
  dsimp only
  rw [Token.move_lexeme, Token.move_lexeme]
  cases inherited with
  | none =>
      have table := methodTable_matches t states₁.context.env (covers.mono grows₁.within)
      obtain ⟨grows₂, states₂⟩ := states₁.define name.lexeme (.cls (.root same table))
      exact ⟨w₁, grows₁.trans grows₂, states₂, trivial⟩
  | some parent =>
      have parent₁ := parent.mono grows₁.within
      obtain ⟨w₂, grows₂, states₂, envs⟩ :=
        states₁.extend states₁.context.env (single_matches "super" (.cls parent₁))
      have table := methodTable_matches t envs (covers.mono (grows₁.trans grows₂).within)
      obtain ⟨grows₃, states₃⟩ := states₂.define name.lexeme
        (.cls (.derived (grows₂.within.identities same) (parent₁.mono grows₂.within) table))
      exact ⟨w₂, grows₁.trans (grows₂.trans grows₃), states₃, trivial⟩

end StateMatch

end Lox
