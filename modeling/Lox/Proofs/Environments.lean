import Mathlib.Data.List.Nodup
import Lox.Machine.Step
import Lox.Proofs.Simulation.Stores

/-!
# Environments as trees of maps

Environments share their frames: whoever holds one holds the frames around it too.  Seen as a whole
they are a tree, in which a frame knows the one around it and binds names of its own.  What
is asked of an environment, by searching its chain or by counting hops, is answered as this
tree tells, and changes one binding of one frame at most.
-/

namespace Lox

/-- What can be asked of an environment, and the request for one without anything around it. -/
inductive EnvRequest where
  | root
  | branch (env : Env)
  | define (env : Env) (name : String) (value : Value)
  | get (env : Env) (name : Token)
  | lookup (env : Env) (name : String)
  | assign (env : Env) (name : Token) (value : Value)
  | getAt (env : Env) (distance : Nat) (name : String)
  | assignAt (env : Env) (distance : Nat) (name : String) (value : Value)

/-- The environment that is asked. -/
def EnvRequest.env? : EnvRequest → Option Env
  | root => none
  | branch env => some env
  | define env _ _ => some env
  | get env _ => some env
  | lookup env _ => some env
  | assign env _ _ => some env
  | getAt env _ _ => some env
  | assignAt env _ _ _ => some env

inductive EnvAnswer where
  /-- A new environment, by its frame. -/
  | made (frame : Nat)
  | done
  | outcome (outcome : Outcome)
  | found (value : Option Value)
  | reached (yes : Bool)

/-- The value of a name in an environment; without one it is a fault at the name. -/
def Store.get (store : Store) (env : Env) (name : Token) : Outcome :=
  match store.lookup? env name.lexeme with
  | some value => .value value
  | none => .failAt name (.undefinedVariable name.lexeme)

namespace Store

theorem frames_define (store : Store) (frame : Nat) (name : String) (value : Value) :
    (store.define frame name value).frames.size = store.frames.size := Array.size_modify

theorem frames_assign (store : Store) (env : Env) (name : String) (value : Value) :
    (store.assign env name value).2.frames.size = store.frames.size := by
  unfold assign
  split
  · exact store.frames_define ..
  · rfl

theorem frames_assignAt (store : Store) (env : Env) (distance : Nat) (name : String)
    (value : Value) :
    (store.assignAt env distance name value).2.frames.size = store.frames.size := by
  unfold assignAt
  split
  · exact store.frames_define ..
  · rfl

end Store

/-- Environments that were handed out, and the store of their frames. -/
structure SharedEnvs where
  store : Store
  envs : List Env

namespace SharedEnvs

def perform (shared : SharedEnvs) : EnvRequest → EnvAnswer × SharedEnvs
  | .root =>
    let (frame, store) := shared.store.newFrame []
    (.made frame, ⟨store, shared.envs ++ [⟨frame, []⟩]⟩)
  | .branch env =>
    let (frame, store) := shared.store.newFrame []
    (.made frame, ⟨store, shared.envs ++ [env.branch frame]⟩)
  | .define env name value => (.done, ⟨shared.store.define env.frame name value, shared.envs⟩)
  | .get env name => (.outcome (shared.store.get env name), shared)
  | .lookup env name => (.found (shared.store.lookup? env name), shared)
  | .assign env name value =>
    let (assigned, store) := shared.store.assign env name.lexeme value
    (.outcome (if assigned then .nil else .failAt name (.undefinedVariable name.lexeme)),
      ⟨store, shared.envs⟩)
  | .getAt env distance name => (.found (shared.store.getAt? env distance name), shared)
  | .assignAt env distance name value =>
    let (reached, store) := shared.store.assignAt env distance name value
    (.reached reached, ⟨store, shared.envs⟩)

/-- What a sequence of requests comes to, each of an environment that was handed out before. -/
inductive Reachable : SharedEnvs → Prop where
  | start : Reachable ⟨.empty, []⟩
  | perform {shared : SharedEnvs} {request : EnvRequest} (before : Reachable shared)
      (held : ∀ env ∈ request.env?, env ∈ shared.envs) : Reachable (shared.perform request).2

end SharedEnvs

/-! ## Trees of maps -/

/-- A tree, or several of them: for each frame the one around it, and what it binds. -/
@[ext]
structure FrameTree where
  count : Nat
  parent : Nat → Option Nat
  binding : Nat → String → Option Value

namespace FrameTree

variable {tree : FrameTree}

/-- One frame is a number of hops up from another. -/
inductive Up (tree : FrameTree) : Nat → Nat → Nat → Prop where
  | here (frame : Nat) : Up tree 0 frame frame
  | above {distance frame outer top : Nat} (isParent : tree.parent frame = some outer)
      (up : Up tree distance outer top) : Up tree (distance + 1) frame top

/-- Of the frames that bind a name, one is the nearest to another. -/
inductive Nearest (tree : FrameTree) (name : String) : Nat → Nat → Prop where
  | here {frame : Nat} (binds : tree.binding frame name ≠ none) : Nearest tree name frame frame
  | above {frame outer holder : Nat} (free : tree.binding frame name = none)
      (isParent : tree.parent frame = some outer) (nearest : Nearest tree name outer holder) :
      Nearest tree name frame holder

theorem Nearest.binds {name : String} {frame holder : Nat}
    (nearest : tree.Nearest name frame holder) : tree.binding holder name ≠ none := by
  induction nearest with
  | here binds => exact binds
  | above _ _ _ ih => exact ih

/-- No frame within fewer hops binds the name. -/
def FreeWithin (tree : FrameTree) (distance frame : Nat) (name : String) : Prop :=
  ∀ nearer < distance, ∀ between, tree.Up nearer frame between → tree.binding between name = none

/-- A frame that binds a name is the nearest to one below it if no frame between them binds it. -/
theorem Up.nearest {name : String} {distance frame top : Nat} (up : tree.Up distance frame top)
    (binds : tree.binding top name ≠ none) (free : tree.FreeWithin distance frame name) :
    tree.Nearest name frame top := by
  induction up with
  | here => exact .here binds
  | above isParent up ih =>
      refine .above (free 0 (Nat.succ_pos _) _ (.here _)) isParent (ih binds ?_)
      intro nearer less between further
      exact free (nearer + 1) (Nat.succ_lt_succ less) between (.above isParent further)

/-- The tree with one more frame, which binds nothing yet. -/
def grow (parent : Option Nat) (tree : FrameTree) : FrameTree :=
  ⟨tree.count + 1, fun frame => if frame = tree.count then parent else tree.parent frame,
    fun frame name => if frame = tree.count then none else tree.binding frame name⟩

/-- The tree with one binding changed or added. -/
def bind (frame : Nat) (name : String) (value : Value) (tree : FrameTree) : FrameTree :=
  { tree with
    binding := fun other key =>
      if other = frame ∧ key = name then some value else tree.binding other key }

/-- How a request is answered, and what becomes of the tree by it. -/
inductive Does (tree : FrameTree) : EnvRequest → EnvAnswer → FrameTree → Prop where
  | root : Does tree .root (.made tree.count) (tree.grow none)
  | branch (env : Env) : Does tree (.branch env) (.made tree.count) (tree.grow (some env.frame))
  | define (env : Env) (name : String) (value : Value) :
      Does tree (.define env name value) .done (tree.bind env.frame name value)
  | gets {env : Env} {name : Token} {holder : Nat} {value : Value}
      (nearest : tree.Nearest name.lexeme env.frame holder)
      (bound : tree.binding holder name.lexeme = some value) :
      Does tree (.get env name) (.outcome (.value value)) tree
  | getsNone {env : Env} {name : Token}
      (free : ∀ holder, ¬ tree.Nearest name.lexeme env.frame holder) :
      Does tree (.get env name) (.outcome (.failAt name (.undefinedVariable name.lexeme))) tree
  | finds {env : Env} {name : String} {holder : Nat} {value : Value}
      (nearest : tree.Nearest name env.frame holder)
      (bound : tree.binding holder name = some value) :
      Does tree (.lookup env name) (.found (some value)) tree
  | findsNone {env : Env} {name : String} (free : ∀ holder, ¬ tree.Nearest name env.frame holder) :
      Does tree (.lookup env name) (.found none) tree
  | assigns {env : Env} {name : Token} {holder : Nat} (value : Value)
      (nearest : tree.Nearest name.lexeme env.frame holder) :
      Does tree (.assign env name value) (.outcome .nil) (tree.bind holder name.lexeme value)
  | assignsNone {env : Env} {name : Token} (value : Value)
      (free : ∀ holder, ¬ tree.Nearest name.lexeme env.frame holder) :
      Does tree (.assign env name value)
        (.outcome (.failAt name (.undefinedVariable name.lexeme))) tree
  | getsAt {env : Env} {distance top : Nat} (name : String) (up : tree.Up distance env.frame top) :
      Does tree (.getAt env distance name) (.found (tree.binding top name)) tree
  | getsAtNone {env : Env} {distance : Nat} (name : String)
      (short : ∀ top, ¬ tree.Up distance env.frame top) :
      Does tree (.getAt env distance name) (.found none) tree
  | assignsAt {env : Env} {distance top : Nat} (name : String) (value : Value)
      (up : tree.Up distance env.frame top) :
      Does tree (.assignAt env distance name value) (.reached true) (tree.bind top name value)
  | assignsAtNone {env : Env} {distance : Nat} (name : String) (value : Value)
      (short : ∀ top, ¬ tree.Up distance env.frame top) :
      Does tree (.assignAt env distance name value) (.reached false) tree

/-- A frame that was made keeps the one around it. -/
theorem Does.parent {request : EnvRequest} {answer : EnvAnswer} {after : FrameTree}
    (does : tree.Does request answer after) {frame : Nat} (made : frame < tree.count) :
    after.parent frame = tree.parent frame := by
  cases does with
  | root => exact if_neg (Nat.ne_of_lt made)
  | branch => exact if_neg (Nat.ne_of_lt made)
  | define => rfl
  | gets => rfl
  | getsNone => rfl
  | finds => rfl
  | findsNone => rfl
  | assigns => rfl
  | assignsNone => rfl
  | getsAt => rfl
  | getsAtNone => rfl
  | assignsAt => rfl
  | assignsAtNone => rfl

end FrameTree

namespace SharedEnvs

/-- What environments look like as a tree. -/
def tree (shared : SharedEnvs) : FrameTree :=
  ⟨shared.store.frames.size, fun frame => shared.envs[frame]?.bind fun env => env.outer.head?,
    shared.store.valueIn?⟩

theorem tree_parent (shared : SharedEnvs) (frame : Nat) :
    shared.tree.parent frame = shared.envs[frame]?.bind fun env => env.outer.head? := rfl

theorem tree_binding (shared : SharedEnvs) (frame : Nat) (name : String) :
    shared.tree.binding frame name = (shared.store.bindings frame).find? name := rfl

/-- For each frame there is one environment that starts with it, and goes on with an earlier one. -/
structure Grown (shared : SharedEnvs) : Prop where
  count : shared.envs.length = shared.store.frames.size
  frame : ∀ {index : Nat} {env : Env}, shared.envs[index]? = some env → env.frame = index
  outer : ∀ {index : Nat} {env : Env}, shared.envs[index]? = some env → env.outer = [] ∨
    ∃ parent : Env, shared.envs[parent.frame]? = some parent ∧ parent.frame < index ∧
      env.outer = parent.chain

namespace Grown

variable {shared : SharedEnvs}

theorem held (grown : shared.Grown) {env : Env} (held : env ∈ shared.envs) :
    shared.envs[env.frame]? = some env := by
  obtain ⟨index, found⟩ := List.getElem?_of_mem held
  rwa [grown.frame found]

/-- The frame of an environment was made. -/
theorem frame_lt (grown : shared.Grown) {env : Env} (held : env ∈ shared.envs) :
    env.frame < shared.store.frames.size := by
  rw [← grown.count]
  exact (List.getElem?_eq_some_iff.mp (grown.held held)).1

/-- An environment goes on with one that was handed out before, or there is nothing around it. -/
theorem cases_outer (grown : shared.Grown) {env : Env} (held : env ∈ shared.envs) :
    (env.outer = [] ∧ shared.tree.parent env.frame = none) ∨
      ∃ parent ∈ shared.envs, parent.frame < env.frame ∧ env.outer = parent.chain ∧
        shared.tree.parent env.frame = some parent.frame := by
  have found := grown.held held
  have isParent : shared.tree.parent env.frame = env.outer.head? := by
    rw [tree_parent, found]
    rfl
  rcases grown.outer found with none | ⟨parent, before, lower, outer⟩
  · exact .inl ⟨none, by rw [isParent, none]; rfl⟩
  · exact .inr ⟨parent, List.mem_of_getElem? before, lower, outer, by rw [isParent, outer]; rfl⟩

/-- One more environment, with a frame of its own. -/
theorem push (grown : shared.Grown) {env : Env} (isNext : env.frame = shared.store.frames.size)
    (outer : env.outer = [] ∨ ∃ parent ∈ shared.envs, env.outer = parent.chain) :
    Grown ⟨(shared.store.newFrame []).2, shared.envs ++ [env]⟩ := by
  have isLast : env.frame = shared.envs.length := isNext.trans grown.count.symm
  have before {index : Nat} {other : Env} (found : (shared.envs ++ [env])[index]? = some other) :
      shared.envs[index]? = some other ∨ (index = shared.envs.length ∧ other = env) := by
    rw [List.getElem?_append] at found
    split at found
    · exact .inl found
    · next here =>
        obtain ⟨inside, same⟩ := List.getElem?_eq_some_iff.mp found
        rw [List.length_singleton] at inside
        exact .inr ⟨by omega, (List.getElem_singleton _).symm.trans same |>.symm⟩
  have after {index : Nat} {other : Env} (found : shared.envs[index]? = some other) :
      (shared.envs ++ [env])[index]? = some other := by
    rw [List.getElem?_append_left (List.getElem?_eq_some_iff.mp found).1]
    exact found
  refine ⟨?_, fun {index other} found => ?_, fun {index other} found => ?_⟩
  · rw [List.length_append, grown.count, Store.frames_newFrame]
    rfl
  · rcases before found with earlier | ⟨rfl, rfl⟩
    · exact grown.frame earlier
    · exact isLast
  · rcases before found with earlier | ⟨rfl, rfl⟩
    · refine (grown.outer earlier).imp_right ?_
      rintro ⟨parent, held, lower, outer⟩
      exact ⟨parent, after held, lower, outer⟩
    · refine outer.imp_right ?_
      rintro ⟨parent, held, outer⟩
      refine ⟨parent, after (grown.held held), ?_, outer⟩
      rw [grown.count]
      exact grown.frame_lt held

/-- Bindings may change without the frames. -/
theorem rebind (grown : shared.Grown) {store : Store}
    (same : store.frames.size = shared.store.frames.size) : Grown ⟨store, shared.envs⟩ :=
  ⟨grown.count.trans same.symm, grown.frame, grown.outer⟩

theorem perform (grown : shared.Grown) {request : EnvRequest}
    (held : ∀ env ∈ request.env?, env ∈ shared.envs) : (shared.perform request).2.Grown := by
  cases request with
  | root => exact grown.push rfl (.inl rfl)
  | branch env => exact grown.push rfl (.inr ⟨env, held env rfl, rfl⟩)
  | define env name value => exact grown.rebind (Store.frames_define ..)
  | get env name => exact grown
  | lookup env name => exact grown
  | assign env name value => exact grown.rebind (Store.frames_assign ..)
  | getAt env distance name => exact grown
  | assignAt env distance name value => exact grown.rebind (Store.frames_assignAt ..)

/-! ### Chains -/

/-- Frames are made after those around them. -/
theorem chain_descends (grown : shared.Grown) {env : Env} (held : env ∈ shared.envs) :
    env.chain.Pairwise (· > ·) := by
  induction isFrame : env.frame using Nat.strongRecOn generalizing env with
  | ind frame ih =>
      subst isFrame
      rcases grown.cases_outer held with ⟨none, _⟩ | ⟨parent, before, lower, outer, _⟩
      · rw [Env.chain, none]
        exact List.pairwise_singleton _ _
      · have below := ih parent.frame lower before rfl
        rw [Env.chain, outer]
        refine List.pairwise_cons.mpr ⟨fun other inside => ?_, below⟩
        rcases List.mem_cons.mp inside with rfl | further
        · exact lower
        · exact Nat.lt_trans (List.rel_of_pairwise_cons below further) lower

/-- All frames of an environment were made. -/
theorem made (grown : shared.Grown) {env : Env} (held : env ∈ shared.envs) {frame : Nat}
    (inside : frame ∈ env.chain) : frame < shared.store.frames.size := by
  have first := grown.frame_lt held
  rcases List.mem_cons.mp inside with rfl | further
  · exact first
  · exact Nat.lt_trans (List.rel_of_pairwise_cons (grown.chain_descends held) further) first

/-- Counting hops along a chain is climbing the tree. -/
theorem up_iff (grown : shared.Grown) {env : Env} (held : env ∈ shared.envs) {distance top : Nat} :
    shared.tree.Up distance env.frame top ↔ env.ancestor? distance = some top := by
  induction distance generalizing env with
  | zero =>
      refine ⟨fun up => ?_, fun here => ?_⟩
      · cases up
        rfl
      · cases here
        exact .here _
  | succ distance ih =>
      rcases grown.cases_outer held with ⟨none, root⟩ | ⟨parent, before, _, outer, isParent⟩
      · refine ⟨fun up => ?_, fun far => ?_⟩
        · cases up with
          | above isParent _ => cases root.symm.trans isParent
        · rw [Env.ancestor?, Env.chain, none] at far
          cases far
      · have shift : env.ancestor? (distance + 1) = parent.ancestor? distance := by
          rw [Env.ancestor?, Env.chain, outer]
          rfl
        rw [shift, ← ih before]
        refine ⟨fun up => ?_, .above isParent⟩
        cases up with
        | above isOther up =>
            cases isParent.symm.trans isOther
            exact up

/-- The frame around another was made before it. -/
theorem parent_lt (grown : shared.Grown) {frame outer : Nat}
    (isParent : shared.tree.parent frame = some outer) : outer < frame := by
  obtain ⟨env, found, first⟩ := Option.bind_eq_some_iff.mp isParent
  have isFrame := grown.frame found
  rcases grown.cases_outer (List.mem_of_getElem? found) with
    ⟨none, _⟩ | ⟨parent, _, lower, around, _⟩
  · rw [none] at first
    cases first
  · rw [around] at first
    cases first
    exact isFrame ▸ lower

/-- No way up is longer than the number of frames that were made before, or leads back. -/
theorem up_le (grown : shared.Grown) {distance frame top : Nat}
    (up : shared.tree.Up distance frame top) : top + distance ≤ frame := by
  induction up with
  | here => exact Nat.le_refl _
  | above isParent up ih =>
      have lower := grown.parent_lt isParent
      omega

/-- Searching a chain finds the nearest frame of the tree. -/
theorem nearest_iff (grown : shared.Grown) {env : Env} (held : env ∈ shared.envs) {name : String}
    {holder : Nat} :
    shared.tree.Nearest name env.frame holder ↔ shared.store.holder? env name = some holder := by
  induction isFrame : env.frame using Nat.strongRecOn generalizing env with
  | ind frame ih =>
      subst isFrame
      have first : (shared.store.bindings env.frame).has name =
          (shared.tree.binding env.frame name).isSome := rfl
      rw [Store.holder?, Env.chain, List.find?_cons, first]
      cases bound : shared.tree.binding env.frame name with
      | some value =>
          refine ⟨fun nearest => ?_, fun here => ?_⟩
          · cases nearest with
            | here => rfl
            | above free => cases bound.symm.trans free
          · cases here
            exact .here (by rw [bound]; exact Option.some_ne_none value)
      | none =>
          dsimp only [Option.isSome_none]
          rcases grown.cases_outer held with ⟨none, root⟩ | ⟨parent, before, lower, outer, isParent⟩
          · refine ⟨fun nearest => ?_, fun found => ?_⟩
            · cases nearest with
              | here binds => exact absurd bound binds
              | above _ isParent _ => cases root.symm.trans isParent
            · rw [none] at found
              cases found
          · rw [outer]
            refine Iff.trans ⟨fun nearest => ?_, .above bound isParent⟩
              (ih parent.frame lower before rfl)
            cases nearest with
            | here binds => exact absurd bound binds
            | above _ isOther nearest =>
                cases isParent.symm.trans isOther
                exact nearest

/-- The value that is looked up is that of the nearest frame. -/
theorem lookup?_of_nearest (grown : shared.Grown) {env : Env} (held : env ∈ shared.envs)
    {name : String} {holder : Nat} (nearest : shared.tree.Nearest name env.frame holder) :
    shared.store.lookup? env name = shared.tree.binding holder name := by
  rw [Store.lookup?, (grown.nearest_iff held).mp nearest]
  rfl

/-! ### Requests -/

theorem tree_push (grown : shared.Grown) (env : Env) :
    tree ⟨(shared.store.newFrame []).2, shared.envs ++ [env]⟩ =
      shared.tree.grow env.outer.head? := by
  refine FrameTree.ext (Store.frames_newFrame _ _) (funext fun frame => ?_)
    (funext fun frame => funext fun name => ?_)
  · show _ = if frame = shared.store.frames.size then _ else shared.tree.parent frame
    rw [tree_parent, tree_parent, ← grown.count, List.getElem?_append]
    by_cases isLast : frame = shared.envs.length
    · simp [isLast]
    · rw [if_neg isLast]
      split
      · rfl
      · rw [List.getElem?_eq_none (by rw [List.length_singleton]; omega),
          List.getElem?_eq_none (by omega)]
  · show _ = if frame = shared.store.frames.size then none else shared.tree.binding frame name
    rw [tree_binding, tree_binding]
    by_cases isLast : frame = shared.store.frames.size
    · rw [if_pos isLast, isLast, Store.bindings_newFrame_size]
      rfl
    · rw [if_neg isLast, Store.bindings_newFrame_of_ne _ _ isLast]

theorem tree_define {frame : Nat} (made : frame < shared.store.frames.size) (name : String)
    (value : Value) :
    tree ⟨shared.store.define frame name value, shared.envs⟩ =
      shared.tree.bind frame name value := by
  refine FrameTree.ext (Store.frames_define ..) rfl (funext fun other => funext fun key => ?_)
  show _ = if other = frame ∧ key = name then some value else shared.tree.binding other key
  rw [tree_binding, tree_binding, shared.store.bindings_define made]
  by_cases here : other = frame
  · rw [if_pos here, Bindings.find?_insert, here]
    simp
  · simp [here]

/-- A name that is not found is bound by no frame of the chain. -/
theorem not_nearest (grown : shared.Grown) {env : Env} (held : env ∈ shared.envs) {name : String}
    (missing : shared.store.holder? env name = none) (holder : Nat) :
    ¬ shared.tree.Nearest name env.frame holder := by
  rw [grown.nearest_iff held, missing]
  exact nofun

/-- A name is looked up in the nearest frame that binds it, if there is one. -/
theorem lookup?_cases (grown : shared.Grown) {env : Env} (held : env ∈ shared.envs)
    (name : String) :
    (∃ holder value, shared.tree.Nearest name env.frame holder ∧
      shared.tree.binding holder name = some value ∧
      shared.store.lookup? env name = some value) ∨
    ((∀ holder, ¬ shared.tree.Nearest name env.frame holder) ∧
      shared.store.lookup? env name = none) := by
  cases found : shared.store.holder? env name with
  | some holder =>
      have nearest := (grown.nearest_iff held).mpr found
      obtain ⟨value, bound⟩ := Option.ne_none_iff_exists'.mp nearest.binds
      exact .inl ⟨holder, value, nearest, bound, (grown.lookup?_of_nearest held nearest).trans bound⟩
  | none => exact .inr ⟨grown.not_nearest held found, by rw [Store.lookup?, found]; rfl⟩

/-- A count of hops leads to the frame there, or beyond the chain. -/
theorem ancestor?_cases (grown : shared.Grown) {env : Env} (held : env ∈ shared.envs)
    (distance : Nat) :
    (∃ top, shared.tree.Up distance env.frame top ∧ env.ancestor? distance = some top) ∨
      ((∀ top, ¬ shared.tree.Up distance env.frame top) ∧ env.ancestor? distance = none) := by
  cases far : env.ancestor? distance with
  | some top => exact .inl ⟨top, (grown.up_iff held).mpr far, rfl⟩
  | none =>
      refine .inr ⟨fun top up => ?_, rfl⟩
      rw [grown.up_iff held, far] at up
      cases up

theorem made_of_nearest (grown : shared.Grown) {env : Env} (held : env ∈ shared.envs)
    {name : String} {holder : Nat} (found : shared.store.holder? env name = some holder) :
    holder < shared.store.frames.size :=
  grown.made held (List.mem_of_find?_eq_some found)

/-- Each request is answered as the tree tells, and does to it what it says. -/
theorem does (grown : shared.Grown) {request : EnvRequest}
    (held : ∀ env ∈ request.env?, env ∈ shared.envs) :
    shared.tree.Does request (shared.perform request).1 (shared.perform request).2.tree := by
  cases request with
  | root =>
      show shared.tree.Does _ _ (tree ⟨(shared.store.newFrame []).2, _⟩)
      rw [grown.tree_push]
      exact .root
  | branch env =>
      show shared.tree.Does _ _ (tree ⟨(shared.store.newFrame []).2, _⟩)
      rw [grown.tree_push]
      exact .branch env
  | define env name value =>
      show shared.tree.Does _ _ (tree ⟨shared.store.define env.frame name value, _⟩)
      rw [tree_define (grown.frame_lt (held env rfl))]
      exact .define env name value
  | get env name =>
      show shared.tree.Does _ (.outcome (shared.store.get env name)) shared.tree
      unfold Store.get
      rcases grown.lookup?_cases (held env rfl) name.lexeme with
        ⟨holder, value, nearest, bound, found⟩ | ⟨free, missing⟩
      · rw [found]
        exact .gets nearest bound
      · rw [missing]
        exact .getsNone free
  | lookup env name =>
      show shared.tree.Does _ (.found (shared.store.lookup? env name)) shared.tree
      rcases grown.lookup?_cases (held env rfl) name with
        ⟨holder, value, nearest, bound, found⟩ | ⟨free, missing⟩
      · rw [found]
        exact .finds nearest bound
      · rw [missing]
        exact .findsNone free
  | assign env name value =>
      unfold SharedEnvs.perform Store.assign
      dsimp only
      cases found : shared.store.holder? env name.lexeme with
      | some holder =>
          dsimp only
          rw [tree_define (grown.made_of_nearest (held env rfl) found)]
          exact .assigns value ((grown.nearest_iff (held env rfl)).mpr found)
      | none => exact .assignsNone value (grown.not_nearest (held env rfl) found)
  | getAt env distance name =>
      show shared.tree.Does _ (.found (shared.store.getAt? env distance name)) shared.tree
      unfold Store.getAt?
      rcases grown.ancestor?_cases (held env rfl) distance with ⟨top, up, far⟩ | ⟨short, none⟩
      · rw [far]
        exact .getsAt name up
      · rw [none]
        exact .getsAtNone name short
  | assignAt env distance name value =>
      unfold SharedEnvs.perform Store.assignAt
      dsimp only
      rcases grown.ancestor?_cases (held env rfl) distance with ⟨top, up, far⟩ | ⟨short, none⟩
      · rw [far]
        dsimp only
        rw [tree_define (grown.made (held env rfl) (List.mem_of_getElem? far))]
        exact .assignsAt name value up
      · rw [none]
        exact .assignsAtNone name value short

/-! ### Hops and searches -/

/-- What is read some hops up is what the frame there binds. -/
theorem getAt?_eq (grown : shared.Grown) {env : Env} (held : env ∈ shared.envs)
    {distance top : Nat} (up : shared.tree.Up distance env.frame top) (name : String) :
    shared.store.getAt? env distance name = shared.tree.binding top name := by
  rw [Store.getAt?, (grown.up_iff held).mp up]
  rfl

/-- Counting hops and searching agree if the frame there binds the name and no nearer one does. -/
theorem getAt?_eq_lookup? (grown : shared.Grown) {env : Env} (held : env ∈ shared.envs)
    {distance top : Nat} {name : String} (up : shared.tree.Up distance env.frame top)
    (binds : shared.tree.binding top name ≠ none)
    (free : shared.tree.FreeWithin distance env.frame name) :
    shared.store.getAt? env distance name = shared.store.lookup? env name :=
  (grown.getAt?_eq held up name).trans
    (grown.lookup?_of_nearest held (up.nearest binds free)).symm

/-- A change is seen from its own frame and from all frames below, whichever way one looks. -/
theorem sees (grown : shared.Grown) {before : FrameTree} {top : Nat} {name : String} {value : Value}
    (changed : shared.tree = before.bind top name value) {env : Env} (held : env ∈ shared.envs)
    {distance : Nat} (up : shared.tree.Up distance env.frame top) :
    shared.store.getAt? env distance name = some value ∧
      (shared.tree.FreeWithin distance env.frame name →
        shared.store.lookup? env name = some value) := by
  have bound : shared.tree.binding top name = some value := by
    rw [changed]
    exact if_pos ⟨rfl, rfl⟩
  have reads := (grown.getAt?_eq held up name).trans bound
  refine ⟨reads, fun free => ?_⟩
  rw [← reads, grown.getAt?_eq_lookup? held up (by rw [bound]; exact nofun) free]

end Grown

theorem Reachable.grown {shared : SharedEnvs} (reachable : shared.Reachable) : shared.Grown := by
  induction reachable with
  | start => exact ⟨rfl, nofun, nofun⟩
  | perform before held ih => exact ih.perform held

/-- An environment that was handed out stays as it is. -/
theorem held_perform {shared : SharedEnvs} {env : Env} (held : env ∈ shared.envs)
    (request : EnvRequest) : env ∈ (shared.perform request).2.envs := by
  cases request with
  | root => exact List.mem_append_left _ held
  | branch => exact List.mem_append_left _ held
  | define => exact held
  | get => exact held
  | lookup => exact held
  | assign => exact held
  | getAt => exact held
  | assignAt => exact held

/--
However environments came to share their frames: they are a tree without cycles, whose frames
keep what is around them; each request is answered and changes the tree as `FrameTree.Does`
tells; hops and searches agree wherever the frame some hops up is the nearest with the name; and
whoever holds the frame that was changed, or one below it, sees the change.
-/
theorem environments_refine_tree {shared after : SharedEnvs} {request : EnvRequest}
    {answer : EnvAnswer} (reachable : shared.Reachable)
    (held : ∀ env ∈ request.env?, env ∈ shared.envs)
    (performed : shared.perform request = (answer, after)) :
    (∀ {distance frame top : Nat}, shared.tree.Up distance frame top → top + distance ≤ frame) ∧
    (∀ env ∈ shared.envs, env ∈ after.envs ∧ ∀ {distance top : Nat},
      shared.tree.Up distance env.frame top ↔ env.ancestor? distance = some top) ∧
    (∀ frame < shared.tree.count, after.tree.parent frame = shared.tree.parent frame) ∧
    shared.tree.Does request answer after.tree ∧
    (∀ env ∈ shared.envs, ∀ {distance top : Nat} {name : String},
      shared.tree.Up distance env.frame top → shared.tree.binding top name ≠ none →
      shared.tree.FreeWithin distance env.frame name →
      shared.store.getAt? env distance name = shared.store.lookup? env name) ∧
    ∀ {top : Nat} {name : String} {value : Value}, after.tree = shared.tree.bind top name value →
      ∀ env ∈ after.envs, ∀ {distance : Nat}, after.tree.Up distance env.frame top →
        after.store.getAt? env distance name = some value ∧
        (after.tree.FreeWithin distance env.frame name →
          after.store.lookup? env name = some value) := by
  have grown := reachable.grown
  have does := grown.does held
  have grownAfter := grown.perform held
  have stays {env : Env} (own : env ∈ shared.envs) := held_perform own request
  rw [performed] at does grownAfter stays
  refine ⟨grown.up_le, fun env own => ⟨stays own, grown.up_iff own⟩, fun frame => does.parent,
    does, ?_, ?_⟩
  · intro env own distance top name up binds free
    exact grown.getAt?_eq_lookup? own up binds free
  · intro top name value changed env own distance up
    exact grownAfter.sees changed own up

/-- A variable of the outer frame, changed through the inner one, as both then see it. -/
theorem environments_refine_tree_through_branch :
    let outer : Env := ⟨0, []⟩
    let inner : Env := ⟨1, [0]⟩
    let shared : SharedEnvs := ⟨⟨#[[("x", .nil)], []], #[], 0⟩, [outer, inner]⟩
    let after := (shared.perform (.assign inner ⟨.identifier, "x", none, 1⟩ (.bool true))).2
    shared.Reachable ∧ after.store.getAt? inner 1 "x" = some (.bool true) ∧
      after.store.lookup? inner "x" = some (.bool true) ∧
      after.store.lookup? outer "x" = some (.bool true) := by
  intro outer inner shared after
  have rooted := @Reachable.perform _ .root .start nofun
  have branched := @Reachable.perform _ (.branch outer) rooted (by rintro _ ⟨⟩; exact .head _)
  have reachable : shared.Reachable :=
    @Reachable.perform _ (.define outer "x" .nil) branched (by rintro _ ⟨⟩; exact .head _)
  have held : ∀ env ∈ (EnvRequest.assign inner ⟨.identifier, "x", none, 1⟩ (.bool true)).env?,
      env ∈ shared.envs := by
    rintro _ ⟨⟩
    exact .tail _ (.head _)
  have performed : shared.perform (.assign inner ⟨.identifier, "x", none, 1⟩ (.bool true)) =
      (.outcome .nil, after) := rfl
  obtain ⟨-, -, -, -, -, sees⟩ := environments_refine_tree reachable held performed
  have changed : after.tree = shared.tree.bind 0 "x" (.bool true) :=
    @Grown.tree_define shared 0 (by decide) "x" (.bool true)
  have fromInner := sees changed inner (.tail _ (.head _)) (.above rfl (.here 0))
  have fromOuter := sees changed outer (.head _) (.here 0)
  refine ⟨reachable, fromInner.1, fromInner.2 ?_, fromOuter.2 nofun⟩
  intro nearer less between up
  obtain rfl : nearer = 0 := by omega
  cases up
  rfl

end SharedEnvs

end Lox
