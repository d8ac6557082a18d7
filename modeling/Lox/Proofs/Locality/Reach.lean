import Lox.Proofs.Matching.States
import Lox.Proofs.Resolution

/-!
# What is reached in a store

Values refer to frames, through the environments that they keep, and to objects; frames bind
values, and objects have values for fields.  What is reached from some frames and objects is
what can be come to by following these references.  Matching stores match still if only what is
reached is kept paired.
-/

namespace Lox

/-- What a store is made of. -/
inductive Cell where
  | frame (index : Nat)
  | object (index : Nat)
deriving DecidableEq

/--
What a value refers to: an object, and the frames of all environments that are kept by a closure
or by the methods of a class and of its superclasses, out to the globals.
-/
inductive Value.RefersTo (value : Value) : Cell → Prop where
  | captured {env : Env} {frame : Nat} (captures : value.Captures env)
      (inside : frame ∈ env.chain) : RefersTo value (.frame frame)
  | object {inst : Instance} (isInstance : value = .inst inst) :
      RefersTo value (.object inst.object)

/-- What is reached from some roots. -/
inductive Store.Reaches (store : Store) (roots : Cell → Prop) : Cell → Prop where
  | root {cell : Cell} (isRoot : roots cell) : Reaches store roots cell
  | binding {frame : Nat} {name : String} {value : Value} {cell : Cell}
      (before : Reaches store roots (.frame frame))
      (bound : store.valueIn? frame name = some value) (refers : value.RefersTo cell) :
      Reaches store roots cell
  | field {object : Nat} {name : String} {value : Value} {cell : Cell}
      (before : Reaches store roots (.object object))
      (held : store.field? object name = some value) (refers : value.RefersTo cell) :
      Reaches store roots cell

/-- The frames of an environment, and the frame of the globals. -/
def Env.Roots (env : Env) : Cell → Prop
  | .frame frame => frame ∈ env.chain ∨ frame = 0
  | .object _ => False

/-- Cells of which the globals are one, and outside of which nothing is referred to. -/
structure Store.Closed (store : Store) (cells : Cell → Prop) : Prop where
  globals : cells (.frame 0)
  binding : ∀ {frame name value cell}, cells (.frame frame) →
    store.valueIn? frame name = some value → value.RefersTo cell → cells cell
  field : ∀ {object name value cell}, cells (.object object) →
    store.field? object name = some value → value.RefersTo cell → cells cell

/-- A later store that differs from an earlier one in some cells at most, and in new ones. -/
def Store.Keeps (store : Store) (cells : Cell → Prop) (later : Store) : Prop :=
  store.Kept (fun frame => cells (.frame frame)) (fun object => cells (.object object)) later

namespace Store

variable {store : Store} {roots cells : Cell → Prop}

theorem closed_reaches (globals : roots (.frame 0)) : store.Closed (store.Reaches roots) :=
  ⟨.root globals, fun before bound refers => .binding before bound refers,
    fun before held refers => .field before held refers⟩

end Store

/-! ## What is paired and reached -/

/-- Only some cells stay paired. -/
def Pairing.within (w : Pairing) (cells : Cell → Prop) : Pairing :=
  { w with
    frames := fun frame frame' => w.frames frame frame' ∧ cells (.frame frame)
    objects := fun object object' => w.objects object object' ∧ cells (.object object) }

section Within

variable {σ : Leeway} {w : Pairing} {cells : Cell → Prop}

theorem EnvMatch.within {env env' : Env} (envs : EnvMatch w env env')
    (inside : ∀ frame ∈ env.chain, cells (.frame frame)) : EnvMatch (w.within cells) env env' := by
  unfold EnvMatch at envs ⊢
  revert inside envs
  generalize env.chain = frames
  generalize env'.chain = frames'
  intro envs inside
  induction envs with
  | nil => exact .nil
  | cons paired _ ih =>
      obtain ⟨first, others⟩ := List.forall_mem_cons.mp inside
      exact .cons ⟨paired, first⟩ (ih others)

theorem MethodMatch.within {method method' : Method} (related : MethodMatch σ w method method')
    (inside : ∀ frame ∈ method.env.chain, cells (.frame frame)) :
    MethodMatch σ (w.within cells) method method' := by
  obtain ⟨t, decl, covers, envs⟩ := related
  exact .intro t decl covers (envs.within inside)

theorem TableMatch.within {methods methods' : Bindings Method}
    (table : TableMatch σ w methods methods')
    (inside : ∀ name method, methods.find? name = some method →
      ∀ frame ∈ method.env.chain, cells (.frame frame)) :
    TableMatch σ (w.within cells) methods methods' := by
  intro name
  have related := table name
  have inside := inside name
  revert related inside
  generalize methods.find? name = found
  generalize methods'.find? name = found'
  intro related inside
  cases related with
  | none => exact .none
  | some related => exact .some (related.within (inside _ rfl))

theorem ClassMatch.within {cls cls' : Class} (related : ClassMatch σ w cls cls')
    (inside : ∀ method, cls.HasMethod method → ∀ frame ∈ method.env.chain, cells (.frame frame)) :
    ClassMatch σ (w.within cells) cls cls' := by
  induction related with
  | root same table =>
      exact .root same (table.within fun _ method held => inside method (.own held))
  | derived same _ table ih =>
      exact .derived same (ih fun method held => inside method (.inherited rfl held))
        (table.within fun _ method held => inside method (.own held))

theorem ValueMatch.within {value value' : Value} (related : ValueMatch σ w value value')
    (inside : ∀ cell, value.RefersTo cell → cells cell) :
    ValueMatch σ (w.within cells) value value' := by
  cases related with
  | nil => exact .nil
  | bool b => exact .bool b
  | number x => exact .number x
  | string s => exact .string s
  | native native => exact .native native
  | @closure closure closure' related =>
      have captured : ∀ frame ∈ closure.env.chain, cells (.frame frame) :=
        fun _ held => inside _ (.captured (.closure closure) held)
      obtain @⟨_, _, _, _, _, t, decl, covers, same, envs⟩ := related
      exact .closure (.intro t decl covers same (envs.within captured))
  | cls related =>
      exact .cls (related.within fun method held frame inChain =>
        inside _ (.captured (.cls held) inChain))
  | @inst inst inst' related =>
      have here := inside _ (.object rfl)
      have captured : ∀ method, inst.cls.HasMethod method →
          ∀ frame ∈ method.env.chain, cells (.frame frame) :=
        fun _ held _ inChain => inside _ (.captured (.inst held) inChain)
      obtain ⟨same, ofClass⟩ := related
      exact .inst (.intro ⟨same, here⟩ (ofClass.within captured))

/-- A value that may be missing matches still if it is reached. -/
theorem optionValue_within {value? value'? : Option Value}
    (related : Option.Rel (ValueMatch σ w) value? value'?)
    (inside : ∀ value, value? = some value → ∀ cell, value.RefersTo cell → cells cell) :
    Option.Rel (ValueMatch σ (w.within cells)) value? value'? := by
  cases related with
  | none => exact .none
  | some related => exact .some (related.within (inside _ rfl))

theorem OneToOne.of_imp {R S : Nat → Nat → Prop} {bound bound' : Nat}
    (paired : OneToOne R bound bound') (fewer : ∀ {a a'}, S a a' → R a a') :
    OneToOne S bound bound' :=
  ⟨fun related => paired.lt (fewer related),
    fun related other => paired.iff (fewer related) (fewer other)⟩

theorem CoreMatch.within {s s' : State} (cores : CoreMatch σ w s s')
    (closed : s.store.Closed cells) : CoreMatch σ (w.within cells) s s' := by
  obtain ⟨⟨globals, frames, objects, identities, values, fields⟩, references, unused, unused',
    output, now⟩ := cores
  refine ⟨⟨⟨globals, closed.globals⟩, frames.of_imp And.left, objects.of_imp And.left, identities,
    fun paired name => ?_, fun paired name => ?_⟩, references, unused, unused', output, now⟩
  · exact optionValue_within (values paired.1 name) fun _ bound _ refers =>
      closed.binding paired.2 bound refers
  · exact optionValue_within (fields paired.1 name) fun _ held _ refers =>
      closed.field paired.2 held refers

theorem StateMatch.within {s s' : State} (states : StateMatch σ w s s')
    (closed : s.store.Closed cells)
    (inside : ∀ frame ∈ s.context.env.chain, cells (.frame frame)) :
    StateMatch σ (w.within cells) s s' :=
  ⟨states.core.within closed, states.context.env.within inside, states.context.base,
    states.context.depth⟩

end Within

end Lox
