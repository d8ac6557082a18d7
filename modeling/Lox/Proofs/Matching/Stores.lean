import Lox.Machine.State
import Lox.Proofs.Matching.Values

/-!
# Matching stores

Two stores match if counterparts among their frames and objects hold counterparts.  What has no
counterpart may be anything: nothing that is paired refers to it, and no operation on matching
stores touches it.
-/

namespace Lox

/-- Numbers below two bounds that stand for each other, one for one. -/
structure OneToOne (R : Nat → Nat → Prop) (bound bound' : Nat) : Prop where
  lt : ∀ {a a'}, R a a' → a < bound ∧ a' < bound'
  iff : ∀ {a a' b b'}, R a a' → R b b' → (a = b ↔ a' = b')

/-- One more pair of numbers. -/
def WithPair (R : Nat → Nat → Prop) (a a' : Nat) : Nat → Nat → Prop :=
  fun x x' => R x x' ∨ (x = a ∧ x' = a')

theorem OneToOne.withPair {R : Nat → Nat → Prop} {bound bound' : Nat}
    (paired : OneToOne R bound bound') :
    OneToOne (WithPair R bound bound') (bound + 1) (bound' + 1) := by
  refine ⟨fun {a a'} related => ?_, fun {a a' b b'} related other => ?_⟩
  · rcases related with before | ⟨rfl, rfl⟩
    · exact ⟨Nat.lt_succ_of_lt (paired.lt before).1, Nat.lt_succ_of_lt (paired.lt before).2⟩
    · exact ⟨Nat.lt_succ_self _, Nat.lt_succ_self _⟩
  · rcases related with before | ⟨rfl, rfl⟩
    · rcases other with before' | ⟨rfl, rfl⟩
      · exact paired.iff before before'
      · have := paired.lt before
        omega
    · rcases other with before' | ⟨rfl, rfl⟩
      · have := paired.lt before'
        omega
      · exact iff_of_true rfl rfl

namespace Pairing

variable (w : Pairing)

/-- Frames that were made at the same time are counterparts. -/
def withFrame (frame frame' : Nat) : Pairing :=
  { w with frames := WithPair w.frames frame frame' }

def withObject (object object' : Nat) : Pairing :=
  { w with objects := WithPair w.objects object object' }

def withIdentity (identity identity' : Nat) : Pairing :=
  { w with identities := WithPair w.identities identity identity' }

theorem within_withFrame (frame frame' : Nat) : w.Within (w.withFrame frame frame') :=
  ⟨.inl, id, id, id⟩

theorem within_withObject (object object' : Nat) : w.Within (w.withObject object object') :=
  ⟨id, .inl, id, id⟩

theorem within_withIdentity (identity identity' : Nat) :
    w.Within (w.withIdentity identity identity') :=
  ⟨id, id, .inl, id⟩

end Pairing

structure StoreMatch (σ : Leeway) (w : Pairing) (store store' : Store) : Prop where
  globals : w.frames 0 0
  frames : OneToOne w.frames store.frames.size store'.frames.size
  objects : OneToOne w.objects store.objects.size store'.objects.size
  identities : OneToOne w.identities store.nextIdentity store'.nextIdentity
  values : ∀ {frame frame'}, w.frames frame frame' → ∀ name,
    Option.Rel (ValueMatch σ w) (store.valueIn? frame name) (store'.valueIn? frame' name)
  fields : ∀ {object object'}, w.objects object object' → ∀ name,
    Option.Rel (ValueMatch σ w) (store.field? object name) (store'.field? object' name)

/-- A store in which only some frames and objects have changed, and more were made. -/
structure Store.Kept (frames objects : Nat → Prop) (store later : Store) : Prop where
  frameCount : store.frames.size ≤ later.frames.size
  objectCount : store.objects.size ≤ later.objects.size
  bindings : ∀ frame < store.frames.size, ¬ frames frame →
    later.bindings frame = store.bindings frame
  fields : ∀ object < store.objects.size, ¬ objects object →
    later.fields object = store.fields object

/-- Stores after steps that were taken side by side: what is paired then was paired or is new. -/
structure StoreGrows (w : Pairing) (store store' : Store) (w' : Pairing) (later later' : Store) :
    Prop where
  within : w.Within w'
  frames : ∀ {frame frame'}, w'.frames frame frame' →
    w.frames frame frame' ∨ (store.frames.size ≤ frame ∧ store'.frames.size ≤ frame')
  objects : ∀ {object object'}, w'.objects object object' →
    w.objects object object' ∨ (store.objects.size ≤ object ∧ store'.objects.size ≤ object')
  left : Store.Kept (fun frame => ∃ frame', w.frames frame frame')
    (fun object => ∃ object', w.objects object object') store later
  right : Store.Kept (fun frame' => ∃ frame, w.frames frame frame')
    (fun object' => ∃ object, w.objects object object') store' later'

/-! ## What operations leave alone -/

namespace Store

variable {frames objects : Nat → Prop} {store later : Store}

theorem Kept.refl : Kept frames objects store store :=
  ⟨Nat.le_refl _, Nat.le_refl _, fun _ _ _ => rfl, fun _ _ _ => rfl⟩

/-- Later steps touch what they may touch of what was made before, and what was made since. -/
theorem Kept.trans {frames' objects' : Nat → Prop} {last : Store}
    (first : Kept frames objects store later) (next : Kept frames' objects' later last)
    (sameFrames : ∀ frame < store.frames.size, frames' frame → frames frame)
    (sameObjects : ∀ object < store.objects.size, objects' object → objects object) :
    Kept frames objects store last := by
  refine ⟨Nat.le_trans first.frameCount next.frameCount,
    Nat.le_trans first.objectCount next.objectCount, fun frame made outside => ?_,
    fun object made outside => ?_⟩
  · have early := next.bindings frame (Nat.lt_of_lt_of_le made first.frameCount)
      fun inside => outside (sameFrames frame made inside)
    exact early.trans (first.bindings frame made outside)
  · have early := next.fields object (Nat.lt_of_lt_of_le made first.objectCount)
      fun inside => outside (sameObjects object made inside)
    exact early.trans (first.fields object made outside)

theorem size_frames_define (store : Store) (frame : Nat) (name : String) (value : Value) :
    (store.define frame name value).frames.size = store.frames.size := Array.size_modify

theorem size_objects_setField (store : Store) (object : Nat) (name : String) (value : Value) :
    (store.setField object name value).objects.size = store.objects.size := Array.size_modify

theorem bindings_define_of_ne (store : Store) {frame other : Nat} (different : other ≠ frame)
    (name : String) (value : Value) :
    (store.define frame name value).bindings other = store.bindings other := by
  simp only [bindings, define, Array.getD_eq_getD_getElem?, Array.getElem?_modify,
    if_neg (Ne.symm different)]

theorem fields_setField_of_ne (store : Store) {object other : Nat} (different : other ≠ object)
    (name : String) (value : Value) :
    (store.setField object name value).fields other = store.fields other := by
  simp only [fields, setField, Array.getD_eq_getD_getElem?, Array.getElem?_modify,
    if_neg (Ne.symm different)]

theorem kept_define {frame : Nat} (among : frames frame) (name : String) (value : Value) :
    Kept frames objects store (store.define frame name value) := by
  refine ⟨Nat.le_of_eq (store.size_frames_define ..).symm, Nat.le_refl _, fun other _ outside => ?_,
    fun _ _ _ => rfl⟩
  refine bindings_define_of_ne store (fun same => ?_) name value
  rw [same] at outside
  exact outside among

theorem kept_setField {object : Nat} (among : objects object) (name : String) (value : Value) :
    Kept frames objects store (store.setField object name value) := by
  refine ⟨Nat.le_refl _, Nat.le_of_eq (store.size_objects_setField ..).symm, fun _ _ _ => rfl,
    fun other _ outside => ?_⟩
  refine fields_setField_of_ne store (fun same => ?_) name value
  rw [same] at outside
  exact outside among

theorem kept_newFrame (bindings : Bindings Value) :
    Kept frames objects store (store.newFrame bindings).2 := by
  refine ⟨?_, Nat.le_refl _, fun frame made _ => ?_, fun _ _ _ => rfl⟩
  · rw [frames_newFrame]
    exact Nat.le_succ _
  · exact bindings_newFrame_of_ne bindings store (Nat.ne_of_lt made)

theorem kept_newObject : Kept frames objects store store.newObject.2 := by
  refine ⟨Nat.le_refl _, ?_, fun _ _ _ => rfl, fun object _ _ => fields_newObject store object⟩
  simp [newObject]

theorem kept_newIdentity : Kept frames objects store store.newIdentity.2 :=
  ⟨Nat.le_refl _, Nat.le_refl _, fun _ _ _ => rfl, fun _ _ _ => rfl⟩

end Store

namespace StoreGrows

variable {w w' w'' : Pairing} {store store' later later' last last' : Store}

theorem refl : StoreGrows w store store' w store store' :=
  ⟨.refl w, .inl, .inl, .refl, .refl⟩

theorem trans (first : StoreGrows w store store' w' later later')
    (next : StoreGrows w' later later' w'' last last') :
    StoreGrows w store store' w'' last last' := by
  refine ⟨first.within.trans next.within, fun {frame frame'} paired => ?_,
    fun {object object'} paired => ?_,
    first.left.trans next.left (fun frame made => ?_) (fun object made => ?_),
    first.right.trans next.right (fun frame' made => ?_) (fun object' made => ?_)⟩
  · rcases next.frames paired with before | ⟨new, new'⟩
    · exact first.frames before
    · exact .inr ⟨Nat.le_trans first.left.frameCount new,
        Nat.le_trans first.right.frameCount new'⟩
  · rcases next.objects paired with before | ⟨new, new'⟩
    · exact first.objects before
    · exact .inr ⟨Nat.le_trans first.left.objectCount new,
        Nat.le_trans first.right.objectCount new'⟩
  · rintro ⟨frame', paired⟩
    rcases first.frames paired with before | ⟨new, _⟩
    · exact ⟨frame', before⟩
    · exact absurd made (Nat.not_lt.mpr new)
  · rintro ⟨object', paired⟩
    rcases first.objects paired with before | ⟨new, _⟩
    · exact ⟨object', before⟩
    · exact absurd made (Nat.not_lt.mpr new)
  · rintro ⟨frame, paired⟩
    rcases first.frames paired with before | ⟨_, new⟩
    · exact ⟨frame, before⟩
    · exact absurd made (Nat.not_lt.mpr new)
  · rintro ⟨object, paired⟩
    rcases first.objects paired with before | ⟨_, new⟩
    · exact ⟨object, before⟩
    · exact absurd made (Nat.not_lt.mpr new)

end StoreGrows

/-! ## Operations on matching stores -/

namespace StoreMatch

variable {σ : Leeway} {w w' : Pairing} {store store' : Store}

/-- Nothing changes if more is paired, as long as it matches. -/
theorem optionValue_mono {value? value'? : Option Value}
    (related : Option.Rel (ValueMatch σ w) value? value'?) (within : w.Within w') :
    Option.Rel (ValueMatch σ w') value? value'? :=
  optionRel_mono (fun _ _ value => value.mono within) related

theorem has (stores : StoreMatch σ w store store') {frame frame' : Nat}
    (paired : w.frames frame frame') (name : String) :
    (store'.bindings frame').has name = (store.bindings frame).has name := by
  have bound := stores.values paired name
  unfold Store.valueIn? at bound
  unfold Bindings.has
  revert bound
  generalize Bindings.find? name _ = found
  generalize Bindings.find? name _ = found'
  intro bound
  cases bound <;> rfl

theorem grows_define {frame frame' : Nat} (paired : w.frames frame frame') (name : String)
    (value value' : Value) :
    StoreGrows w store store' w (store.define frame name value)
      (store'.define frame' name value') :=
  ⟨.refl w, .inl, .inl, Store.kept_define ⟨frame', paired⟩ name value,
    Store.kept_define ⟨frame, paired⟩ name value'⟩

theorem define (stores : StoreMatch σ w store store') {frame frame' : Nat}
    (paired : w.frames frame frame') (name : String) {value value' : Value}
    (related : ValueMatch σ w value value') :
    StoreMatch σ w (store.define frame name value) (store'.define frame' name value') := by
  refine ⟨stores.globals, ?_, stores.objects, stores.identities,
    fun {other other'} paired' sought => ?_, stores.fields⟩
  · rw [Store.size_frames_define, Store.size_frames_define]
    exact stores.frames
  · have same := stores.frames.iff paired' paired
    have before := stores.values paired' sought
    unfold Store.valueIn? at before ⊢
    by_cases here : other = frame
    · rw [store.bindings_define (stores.frames.lt paired).1,
        store'.bindings_define (stores.frames.lt paired).2, if_pos here, if_pos (same.mp here),
        Bindings.find?_insert, Bindings.find?_insert]
      split
      · exact .some related
      · rwa [here, same.mp here] at before
    · rwa [store.bindings_define_of_ne here,
        store'.bindings_define_of_ne fun there => here (same.mpr there)]

theorem grows_newFrame (bindings bindings' : Bindings Value) :
    StoreGrows w store store' (w.withFrame store.frames.size store'.frames.size)
      (store.newFrame bindings).2 (store'.newFrame bindings').2 := by
  refine ⟨w.within_withFrame _ _, fun {frame frame'} paired => ?_, .inl,
    Store.kept_newFrame bindings, Store.kept_newFrame bindings'⟩
  rcases paired with before | ⟨rfl, rfl⟩
  · exact .inl before
  · exact .inr ⟨Nat.le_refl _, Nat.le_refl _⟩

theorem newFrame (stores : StoreMatch σ w store store') {bindings bindings' : Bindings Value}
    (related : ∀ name, Option.Rel (ValueMatch σ w) (bindings.find? name) (bindings'.find? name)) :
    StoreMatch σ (w.withFrame store.frames.size store'.frames.size) (store.newFrame bindings).2
      (store'.newFrame bindings').2 := by
  have within := w.within_withFrame store.frames.size store'.frames.size
  refine ⟨within.frames stores.globals, ?_, stores.objects, stores.identities,
    fun {frame frame'} paired name => ?_, fun {object object'} paired name => ?_⟩
  · have sizes := stores.frames.withPair
    rwa [← Store.frames_newFrame bindings, ← Store.frames_newFrame bindings'] at sizes
  · unfold Store.valueIn?
    rcases paired with before | ⟨rfl, rfl⟩
    · have made := stores.frames.lt before
      rw [store.bindings_newFrame_of_ne bindings (Nat.ne_of_lt made.1),
        store'.bindings_newFrame_of_ne bindings' (Nat.ne_of_lt made.2)]
      exact optionValue_mono (stores.values before name) within
    · rw [Store.bindings_newFrame_size, Store.bindings_newFrame_size]
      exact optionValue_mono (related name) within
  · exact optionValue_mono (stores.fields paired name) within

theorem grows_newObject :
    StoreGrows w store store' (w.withObject store.objects.size store'.objects.size)
      store.newObject.2 store'.newObject.2 := by
  refine ⟨w.within_withObject _ _, .inl, fun {object object'} paired => ?_, Store.kept_newObject,
    Store.kept_newObject⟩
  rcases paired with before | ⟨rfl, rfl⟩
  · exact .inl before
  · exact .inr ⟨Nat.le_refl _, Nat.le_refl _⟩

theorem newObject (stores : StoreMatch σ w store store') :
    StoreMatch σ (w.withObject store.objects.size store'.objects.size) store.newObject.2
      store'.newObject.2 := by
  have within := w.within_withObject store.objects.size store'.objects.size
  refine ⟨stores.globals, stores.frames, ?_, stores.identities, fun {frame frame'} paired name => ?_,
    fun {object object'} paired name => ?_⟩
  · have sizes := stores.objects.withPair
    unfold Store.newObject
    dsimp only
    rw [Array.size_push, Array.size_push]
    exact sizes
  · exact optionValue_mono (stores.values paired name) within
  · unfold Store.field?
    rw [Store.fields_newObject, Store.fields_newObject]
    rcases paired with before | ⟨rfl, rfl⟩
    · exact optionValue_mono (stores.fields before name) within
    · simp only [Store.fields, Array.getD_eq_getD_getElem?, Array.getElem?_eq_none (Nat.le_refl _)]
      exact .none

theorem grows_newIdentity (identity identity' : Nat) :
    StoreGrows w store store' (w.withIdentity identity identity') store.newIdentity.2
      store'.newIdentity.2 :=
  ⟨w.within_withIdentity _ _, .inl, .inl, Store.kept_newIdentity, Store.kept_newIdentity⟩

theorem newIdentity (stores : StoreMatch σ w store store') :
    StoreMatch σ (w.withIdentity store.nextIdentity store'.nextIdentity) store.newIdentity.2
      store'.newIdentity.2 := by
  have within := w.within_withIdentity store.nextIdentity store'.nextIdentity
  exact ⟨stores.globals, stores.frames, stores.objects, stores.identities.withPair,
    fun paired name => optionValue_mono (stores.values paired name) within,
    fun paired name => optionValue_mono (stores.fields paired name) within⟩

theorem grows_setField {object object' : Nat} (paired : w.objects object object') (name : String)
    (value value' : Value) :
    StoreGrows w store store' w (store.setField object name value)
      (store'.setField object' name value') :=
  ⟨.refl w, .inl, .inl, Store.kept_setField ⟨object', paired⟩ name value,
    Store.kept_setField ⟨object, paired⟩ name value'⟩

theorem setField (stores : StoreMatch σ w store store') {object object' : Nat}
    (paired : w.objects object object') (name : String) {value value' : Value}
    (related : ValueMatch σ w value value') :
    StoreMatch σ w (store.setField object name value) (store'.setField object' name value') := by
  refine ⟨stores.globals, stores.frames, ?_, stores.identities, stores.values,
    fun {other other'} paired' sought => ?_⟩
  · rw [Store.size_objects_setField, Store.size_objects_setField]
    exact stores.objects
  · have same := stores.objects.iff paired' paired
    have before := stores.fields paired' sought
    unfold Store.field? at before ⊢
    by_cases here : other = object
    · rw [store.fields_setField (stores.objects.lt paired).1,
        store'.fields_setField (stores.objects.lt paired).2, if_pos here, if_pos (same.mp here),
        Bindings.find?_insert, Bindings.find?_insert]
      split
      · exact .some related
      · rwa [here, same.mp here] at before
    · rwa [store.fields_setField_of_ne here,
        store'.fields_setField_of_ne fun there => here (same.mpr there)]

/-- Counterparts among environments have counterparts at the same distance. -/
theorem ancestor? {env env' : Env} (envs : EnvMatch w env env') (distance : Nat) :
    Option.Rel w.frames (env.ancestor? distance) (env'.ancestor? distance) := by
  unfold EnvMatch at envs
  unfold Env.ancestor?
  revert envs
  generalize env.chain = frames
  generalize env'.chain = frames'
  intro envs
  induction envs generalizing distance with
  | nil => exact .none
  | cons paired _ ih =>
      cases distance with
      | zero => exact .some paired
      | succ distance => exact ih distance

theorem getAt? (stores : StoreMatch σ w store store') {env env' : Env}
    (envs : EnvMatch w env env') (distance : Nat) (name : String) :
    Option.Rel (ValueMatch σ w) (store.getAt? env distance name)
      (store'.getAt? env' distance name) := by
  have found := ancestor? envs distance
  unfold Store.getAt?
  revert found
  generalize env.ancestor? distance = frame
  generalize env'.ancestor? distance = frame'
  intro found
  cases found with
  | none => exact .none
  | some paired => exact stores.values paired name

theorem lookup?_globals (stores : StoreMatch σ w store store') (name : String) :
    Option.Rel (ValueMatch σ w) (store.lookup? State.globals name)
      (store'.lookup? State.globals name) := by
  rw [Store.lookup?_globals, Store.lookup?_globals]
  exact stores.values stores.globals name

/-- A value is stored in counterparts at the same distance, or nowhere. -/
theorem assignAt (stores : StoreMatch σ w store store') {env env' : Env}
    (envs : EnvMatch w env env') (distance : Nat) (name : String) {value value' : Value}
    (related : ValueMatch σ w value value') :
    (store'.assignAt env' distance name value').1 = (store.assignAt env distance name value).1 ∧
      StoreGrows w store store' w (store.assignAt env distance name value).2
        (store'.assignAt env' distance name value').2 ∧
      StoreMatch σ w (store.assignAt env distance name value).2
        (store'.assignAt env' distance name value').2 := by
  have found := ancestor? envs distance
  unfold Store.assignAt
  revert found
  generalize env.ancestor? distance = frame
  generalize env'.ancestor? distance = frame'
  intro found
  cases found with
  | none => exact ⟨rfl, .refl, stores⟩
  | some paired =>
      exact ⟨rfl, grows_define paired name value value', stores.define paired name related⟩

theorem assign_globals (stores : StoreMatch σ w store store') (name : String)
    {value value' : Value} (related : ValueMatch σ w value value') :
    (store'.assign State.globals name value').1 = (store.assign State.globals name value).1 ∧
      StoreGrows w store store' w (store.assign State.globals name value).2
        (store'.assign State.globals name value').2 ∧
      StoreMatch σ w (store.assign State.globals name value).2
        (store'.assign State.globals name value').2 := by
  rw [Store.assign_globals, Store.assign_globals, stores.has stores.globals name]
  split
  · exact ⟨rfl, grows_define stores.globals name value value',
      stores.define stores.globals name related⟩
  · exact ⟨rfl, .refl, stores⟩

/-- Stores match still if more lines stand for each other. -/
theorem widen {σ' : Leeway} (stores : StoreMatch σ w store store') (wider : σ.Within σ') :
    StoreMatch σ' w store store' :=
  ⟨stores.globals, stores.frames, stores.objects, stores.identities,
    fun paired name => optionRel_mono (fun _ _ value => value.weaken wider (.refl w))
      (stores.values paired name),
    fun paired name => optionRel_mono (fun _ _ value => value.weaken wider (.refl w))
      (stores.fields paired name)⟩

end StoreMatch

end Lox
