import Lox.Proofs.Simulation.Relation

/-!
# Corresponding stores

Each operation of a store, carried out on corresponding stores with corresponding values, leaves
corresponding stores and loses nothing.  Looking a known reference up finds corresponding values.
-/

namespace Lox

namespace Bindings

variable {α : Type}

theorem has_insert (name other : String) (value : α) (bindings : Bindings α) :
    (bindings.insert name value).has other = (decide (other = name) || bindings.has other) := by
  unfold has
  rw [find?_insert]
  by_cases same : other = name <;> simp [same]

theorem has_of_find? {name : String} {value : α} {bindings : Bindings α}
    (found : bindings.find? name = some value) : bindings.has name = true := by
  rw [has, found]
  rfl

/-- What is found was bound. -/
theorem mem_of_find? {name : String} {value : α} {bindings : Bindings α}
    (found : bindings.find? name = some value) : (name, value) ∈ bindings := by
  induction bindings with
  | nil => cases found
  | cons entry rest ih =>
      obtain ⟨other, first⟩ := entry
      rw [find?] at found
      split at found
      · next same =>
          rw [same, Option.some.inj found]
          exact List.mem_cons_self
      · exact List.mem_cons_of_mem _ (ih found)

end Bindings

namespace Store

theorem bindings_of_size_le (store : Store) {frame : Nat} (notMade : store.frames.size ≤ frame) :
    store.bindings frame = [] := by
  simp [bindings, notMade]

/-- Binding a name in a frame that was never made changes nothing. -/
theorem bindings_define_of_size_le (store : Store) {frame : Nat}
    (notMade : store.frames.size ≤ frame) (other : Nat) (name : String) (value : Value) :
    (store.define frame name value).bindings other = store.bindings other := by
  simp only [bindings, define, Array.getD_eq_getD_getElem?, Array.getElem?_modify]
  by_cases same : frame = other
  · subst same
    simp [notMade]
  · simp [same]

theorem frames_newFrame (bindings : Bindings Value) (store : Store) :
    (store.newFrame bindings).2.frames.size = store.frames.size + 1 := by
  obtain ⟨frames, objects, nextIdentity⟩ := store
  simp [newFrame]

theorem bindings_newFrame_size (bindings : Bindings Value) (store : Store) :
    (store.newFrame bindings).2.bindings store.frames.size = bindings := by
  obtain ⟨frames, objects, nextIdentity⟩ := store
  rw [bindings_newFrame]
  exact if_pos rfl

theorem bindings_newFrame_of_ne (bindings : Bindings Value) (store : Store) {frame : Nat}
    (other : frame ≠ store.frames.size) :
    (store.newFrame bindings).2.bindings frame = store.bindings frame := by
  rw [bindings_newFrame]
  exact if_neg other

/-- Setting a field of an object that was never made changes nothing. -/
theorem fields_setField_of_size_le (store : Store) {object : Nat}
    (notMade : store.objects.size ≤ object) (other : Nat) (name : String) (value : Value) :
    (store.setField object name value).fields other = store.fields other := by
  simp only [fields, setField, Array.getD_eq_getD_getElem?, Array.getElem?_modify]
  by_cases same : object = other
  · subst same
    simp [notMade]
  · simp [same]

end Store

/-- The world in which one more frame was made. -/
def World.open (w : World) (site : Site) : World := { w with sites := w.sites ++ [site] }

namespace StoreRel

variable {r : Respelling} {w w' : World} {store store' : Store}

open World

theorem lt_made (stores : StoreRel r w store store') {frame : Nat} {site : Site}
    (made : w.sites[frame]? = some site) : frame < store.frames.size := by
  rw [stores.made]
  exact (List.getElem?_eq_some_iff.mp made).1

theorem lt_made' (stores : StoreRel r w store store') {frame : Nat} {site : Site}
    (made : w.sites[frame]? = some site) : frame < store'.frames.size := by
  rw [stores.made']
  exact (List.getElem?_eq_some_iff.mp made).1

/-- Binding a name other than `this` loses nothing. -/
theorem grows_define (stores : StoreRel r w store store') {frame : Nat} {site : Site}
    (made : w.sites[frame]? = some site) {name : String} (notThis : name ≠ "this")
    (value : Value) : Grows w store w (store.define frame name value) := by
  refine ⟨List.prefix_rfl, fun _ isKnown => isKnown, fun other held bound => ?_,
    fun other receiver bound => ?_⟩
  · rw [store.bindings_define (stores.lt_made made)]
    split
    · next same =>
        rw [Bindings.has_insert, ← same, bound, Bool.or_true]
    · exact bound
  · unfold Store.valueIn? at bound ⊢
    rw [store.bindings_define (stores.lt_made made)]
    split
    · next same => rwa [Bindings.find?_insert_of_ne notThis.symm, ← same]
    · exact bound

/--
Values are bound to a name and to the name as it is spelled in the frame.  They only need to
correspond once the name is bound: a function may refer to itself.
-/
theorem define (stores : StoreRel r w store store') {frame : Nat} {site : Site}
    (made : w.sites[frame]? = some site) {name : String} (notThis : name ≠ "this")
    (allowed : site.path = r.target → name ≠ r.new) {value value' : Value}
    (related : ValueRel r w (store.define frame name value) value value') :
    StoreRel r w (store.define frame name value)
      (store'.define frame (r.spell site name) value') := by
  have grows := stores.grows_define made notThis value
  refine ⟨?_, ?_, stores.objects, stores.identities, stores.globals, fun other site' made' => ?_,
    fun object field => ?_⟩
  · rw [← stores.made]
    exact Array.size_modify
  · rw [← stores.made']
    exact Array.size_modify
  · have here := stores.bindings other site' made'
    rw [store.bindings_define (stores.lt_made made), store'.bindings_define (stores.lt_made' made)]
    split
    · next same =>
        subst same
        obtain rfl : site' = site := Option.some.inj (made'.symm.trans made)
        exact (here.mono fun _ _ value => value.mono grows).insert allowed related
    · exact here.mono fun _ _ value => value.mono grows
  · exact optionRel_mono (fun _ _ value => value.mono grows) (stores.fields object field)

/-- Making a frame loses nothing. -/
theorem grows_newFrame (site : Site) (bindings : Bindings Value) :
    Grows w store (w.open site) (store.newFrame bindings).2 := by
  have fresh := store.bindings_of_size_le (Nat.le_refl _)
  refine ⟨List.prefix_append _ _, fun _ isKnown => isKnown, fun frame name bound => ?_,
    fun frame value bound => ?_⟩
  · by_cases new : frame = store.frames.size
    · rw [new, fresh] at bound
      cases bound
    · rwa [store.bindings_newFrame_of_ne bindings new]
  · unfold Store.valueIn? at bound ⊢
    by_cases new : frame = store.frames.size
    · rw [new, fresh] at bound
      cases bound
    · rwa [store.bindings_newFrame_of_ne bindings new]

/-- The frame that is made next is the one of the new site. -/
theorem site_newFrame (stores : StoreRel r w store store') (site : Site) :
    (w.open site).sites[store.frames.size]? = some site := by
  rw [stores.made]
  exact List.getElem?_concat_length

theorem newFrame (stores : StoreRel r w store store') {site : Site}
    {bindings bindings' : Bindings Value}
    (related : Bindings.Respelled (ValueRel r w store) r site bindings bindings') :
    StoreRel r (w.open site) (store.newFrame bindings).2 (store'.newFrame bindings').2 := by
  have grows : Grows w store (w.open site) (store.newFrame bindings).2 :=
    grows_newFrame site bindings
  have same : store'.frames.size = store.frames.size := by rw [stores.made, stores.made']
  refine ⟨?_, ?_, stores.objects, stores.identities, grows.site stores.globals,
    fun frame site' made => ?_, fun object name => ?_⟩
  · rw [Store.frames_newFrame, stores.made, World.open, List.length_append]
    rfl
  · rw [Store.frames_newFrame, stores.made', World.open, List.length_append]
    rfl
  · by_cases new : frame = store.frames.size
    · subst new
      rw [Store.bindings_newFrame_size, ← same, Store.bindings_newFrame_size]
      obtain rfl : site = site' :=
        Option.some.inj ((stores.site_newFrame site).symm.trans made)
      exact related.mono fun _ _ value => value.mono grows
    · rw [store.bindings_newFrame_of_ne bindings new,
        store'.bindings_newFrame_of_ne bindings' (same ▸ new)]
      have before : w.sites[frame]? = some site' := by
        have inRange := (List.getElem?_eq_some_iff.mp made).1
        have short : frame < w.sites.length := by
          rw [stores.made] at new
          unfold World.open at inRange
          rw [List.length_append, List.length_singleton] at inRange
          omega
        unfold World.open at made
        rwa [List.getElem?_append_left short] at made
      exact (stores.bindings frame site' before).mono fun _ _ value => value.mono grows
  · exact optionRel_mono (fun _ _ value => value.mono grows) (stores.fields object name)

theorem grows_of_bindings (same : ∀ frame, store'.bindings frame = store.bindings frame) :
    Grows w store w store' := by
  refine ⟨List.prefix_rfl, fun _ isKnown => isKnown, fun frame name bound => ?_,
    fun frame value bound => ?_⟩
  · rwa [same]
  · unfold Store.valueIn? at bound ⊢
    rwa [same]

theorem grows_newObject : Grows w store w store.newObject.2 :=
  grows_of_bindings fun _ => rfl

theorem newObject (stores : StoreRel r w store store') :
    StoreRel r w store.newObject.2 store'.newObject.2 := by
  have grows : Grows w store w store.newObject.2 := grows_newObject
  refine ⟨stores.made, stores.made', ?_, stores.identities, stores.globals,
    fun frame site made => ?_, fun object name => ?_⟩
  · simp [Store.newObject, stores.objects]
  · exact (stores.bindings frame site made).mono fun _ _ value => value.mono grows
  · unfold Store.field?
    rw [Store.fields_newObject, Store.fields_newObject]
    exact optionRel_mono (fun _ _ value => value.mono grows) (stores.fields object name)

theorem grows_newIdentity : Grows w store w store.newIdentity.2 :=
  grows_of_bindings fun _ => rfl

theorem newIdentity (stores : StoreRel r w store store') :
    StoreRel r w store.newIdentity.2 store'.newIdentity.2 := by
  have grows : Grows w store w store.newIdentity.2 := grows_newIdentity
  refine ⟨stores.made, stores.made', stores.objects, ?_, stores.globals,
    fun frame site made => ?_, fun object name => ?_⟩
  · exact congrArg (· + 1) stores.identities
  · exact (stores.bindings frame site made).mono fun _ _ value => value.mono grows
  · exact optionRel_mono (fun _ _ value => value.mono grows) (stores.fields object name)

theorem grows_setField (object : Nat) (name : String) (value : Value) :
    Grows w store w (store.setField object name value) :=
  grows_of_bindings fun _ => rfl

theorem setField (stores : StoreRel r w store store') (object : Nat) (name : String)
    {value value' : Value} (related : ValueRel r w store value value') :
    StoreRel r w (store.setField object name value) (store'.setField object name value') := by
  have grows : Grows w store w (store.setField object name value) :=
    grows_setField object name value
  refine ⟨stores.made, stores.made', ?_, stores.identities, stores.globals,
    fun frame site made => ?_, fun other field => ?_⟩
  · simp [Store.setField, stores.objects]
  · exact (stores.bindings frame site made).mono fun _ _ value => value.mono grows
  · have before := optionRel_mono (fun _ _ value => value.mono grows) (stores.fields other field)
    unfold Store.field? at before ⊢
    by_cases made : object < store.objects.size
    · have made' : object < store'.objects.size := by rwa [stores.objects]
      rw [store.fields_setField made, store'.fields_setField made']
      split
      · next same =>
          subst same
          rw [Bindings.find?_insert, Bindings.find?_insert]
          split
          · exact .some (related.mono grows)
          · exact before
      · exact before
    · have notMade := Nat.le_of_not_lt made
      rwa [store.fields_setField_of_size_le notMade,
        store'.fields_setField_of_size_le (stores.objects ▸ notMade)]

/-! ## Looking names up -/

/-- What a frame binds to a name is found under the name as it is spelled there. -/
theorem valueIn? (stores : StoreRel r w store store') {frame : Nat} {site : Site}
    (made : w.sites[frame]? = some site) {name : String}
    (allowed : site.path = r.target → name ≠ r.new) :
    Option.Rel (ValueRel r w store) (store.valueIn? frame name)
      (store'.valueIn? frame (r.spell site name)) :=
  (stores.bindings frame site made).find? allowed

end StoreRel

/-- In the globals alone, a name is looked up in their frame. -/
theorem Store.lookup?_globals (store : Store) (name : String) :
    store.lookup? State.globals name = store.valueIn? 0 name := by
  unfold lookup? holder? valueIn? Bindings.has
  cases found : (store.bindings 0).find? name <;>
    simp [State.globals, Env.chain, found]

theorem Store.assign_globals (store : Store) (name : String) (value : Value) :
    store.assign State.globals name value =
      if (store.bindings 0).has name then (true, store.define 0 name value) else (false, store) := by
  unfold assign holder?
  cases bound : (store.bindings 0).has name <;> simp [State.globals, Env.chain, bound]

end Lox
