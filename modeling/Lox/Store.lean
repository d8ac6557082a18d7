import Lox.Value

/-!
# The store

Everything that running programs share and change: the frames of bindings, the fields of
objects, and the supply of identities.  Frames and objects are only ever added, and each
operation changes one binding of one of them at most.
-/

namespace Lox

structure Store where
  frames : Array (Bindings Value)
  objects : Array (Bindings Value)
  nextIdentity : Nat

namespace Store

def empty : Store := ⟨#[], #[], 0⟩

/-- The bindings of a frame; a frame that was never made has none. -/
def bindings (store : Store) (frame : Nat) : Bindings Value := store.frames.getD frame []

/-- The fields of an object; an object that was never made has none. -/
def fields (store : Store) (object : Nat) : Bindings Value := store.objects.getD object []

/-- Make a frame with the given bindings, and answer its index. -/
def newFrame (bindings : Bindings Value) : Store → Nat × Store
  | ⟨frames, objects, nextIdentity⟩ =>
    (frames.size, ⟨frames.push bindings, objects, nextIdentity⟩)

/-- Make an object without fields, and answer its index. -/
def newObject : Store → Nat × Store
  | ⟨frames, objects, nextIdentity⟩ => (objects.size, ⟨frames, objects.push [], nextIdentity⟩)

/-- Give out an identity. -/
def newIdentity : Store → Nat × Store
  | ⟨frames, objects, nextIdentity⟩ => (nextIdentity, ⟨frames, objects, nextIdentity + 1⟩)

/-- Bind a name in one frame, in place of an earlier binding there. -/
def define (store : Store) (frame : Nat) (name : String) (value : Value) : Store :=
  { store with frames := store.frames.modify frame (Bindings.insert name value) }

/-- Set one field of one object. -/
def setField (store : Store) (object : Nat) (name : String) (value : Value) : Store :=
  { store with objects := store.objects.modify object (Bindings.insert name value) }

/-- The value of a name in one frame. -/
def valueIn? (store : Store) (frame : Nat) (name : String) : Option Value :=
  (store.bindings frame).find? name

def field? (store : Store) (object : Nat) (name : String) : Option Value :=
  (store.fields object).find? name

/-- The nearest frame of an environment that binds the name. -/
def holder? (store : Store) (env : Env) (name : String) : Option Nat :=
  env.chain.find? fun frame => (store.bindings frame).has name

/-- The value of a name in an environment: that of the nearest frame that binds it. -/
def lookup? (store : Store) (env : Env) (name : String) : Option Value :=
  (store.holder? env name).bind fun frame => store.valueIn? frame name

/-- The value of a name in the frame exactly `distance` hops up. -/
def getAt? (store : Store) (env : Env) (distance : Nat) (name : String) : Option Value :=
  (env.ancestor? distance).bind fun frame => store.valueIn? frame name

/--
Change the nearest binding of a name.  The answer is whether there is one; if not, the store is
left as it was.
-/
def assign (store : Store) (env : Env) (name : String) (value : Value) : Bool × Store :=
  match store.holder? env name with
  | some frame => (true, store.define frame name value)
  | none => (false, store)

/-- Bind a name in the frame `distance` hops up, and answer whether the chain goes so far. -/
def assignAt (store : Store) (env : Env) (distance : Nat) (name : String) (value : Value) :
    Bool × Store :=
  match env.ancestor? distance with
  | some frame => (true, store.define frame name value)
  | none => (false, store)

theorem bindings_newFrame (store : Store) (bindings : Bindings Value) (other : Nat) :
    (store.newFrame bindings).2.bindings other =
      if other = (store.newFrame bindings).1 then bindings else store.bindings other := by
  obtain ⟨frames, objects, nextIdentity⟩ := store
  simp only [Store.bindings, newFrame, Array.getD_eq_getD_getElem?, Array.getElem?_push]
  by_cases same : other = frames.size <;> simp [same]

theorem fields_newObject (store : Store) (other : Nat) :
    store.newObject.2.fields other = store.fields other := by
  obtain ⟨frames, objects, nextIdentity⟩ := store
  simp only [fields, newObject, Array.getD_eq_getD_getElem?, Array.getElem?_push]
  by_cases same : other = objects.size <;> simp [same]

theorem bindings_define (store : Store) {frame : Nat} (made : frame < store.frames.size)
    (other : Nat) (name : String) (value : Value) :
    (store.define frame name value).bindings other =
      if other = frame then (store.bindings frame).insert name value else store.bindings other := by
  simp only [bindings, define, Array.getD_eq_getD_getElem?, Array.getElem?_modify]
  by_cases same : frame = other
  · subst same
    simp [made]
  · simp [same, Ne.symm same]

theorem fields_setField (store : Store) {object : Nat} (made : object < store.objects.size)
    (other : Nat) (name : String) (value : Value) :
    (store.setField object name value).fields other =
      if other = object then (store.fields object).insert name value else store.fields other := by
  simp only [fields, setField, Array.getD_eq_getD_getElem?, Array.getElem?_modify]
  by_cases same : object = other
  · subst same
    simp [made]
  · simp [same, Ne.symm same]

@[simp] theorem fields_define (store : Store) (frame object : Nat) (name : String) (value : Value) :
    (store.define frame name value).fields object = store.fields object := rfl

@[simp] theorem bindings_setField (store : Store) (frame object : Nat) (name : String)
    (value : Value) : (store.setField object name value).bindings frame = store.bindings frame := rfl

end Store

end Lox
