import Lox.Proofs.Locality
import Lox.Proofs.Origins
import Lox.Proofs.Resolution
import Lox.Proofs.Scope.Declaring

/-!
# What the frames of blocks bind

The frame of a block binds nothing but names that the statements of the block declare.
-/

namespace Lox

def Opener.isBlock : Opener → Bool
  | .block _ => true
  | _ => false

/-! ## Declarations of a run -/

/-- A name is declared in the scope that the innermost frame of an environment was made for. -/
def World.DeclaresIn (w : World) (env : Env) (name : String) : Prop :=
  ∃ event, w.known event ∧ event.act.entered? = some name ∧
    w.sites[env.frame]? = some (event.spot.sites.head?.getD globalsSite)

section Declarations

variable {r : Respelling} {w : World} {m m' : Machine} {name : Token}

/-- A statement that starts with a declaration is executed. -/
theorem MachineRel.declares_exec (related : MachineRel r w m m') {stmt : Stmt}
    (now : m.control = .exec stmt) {act : Act} {name : String} (entered : act.entered? = some name)
    (first : ∀ path p, ∃ rest, stmt.walk path p = ⟨p, act⟩ :: rest) :
    w.DeclaresIn m.state.context.env name := by
  obtain @⟨p, q, control, control', tasks, tasks', s, s', opens, doing, left, states⟩ := related
  cases now
  cases doing with
  | @exec path _ holds settled known =>
      obtain ⟨rest, walk⟩ := first path p
      rw [walk] at known
      exact ⟨_, (World.knows_cons.mp known).1, entered, opens.innermost states.store.globals⟩

/-- A variable gets its first value. -/
theorem MachineRel.declares_define (related : MachineRel r w m m') {value : Value}
    {rest : List Task}
    (given : m.control = .give (.value value)) (waits : m.tasks = .define name :: rest) :
    w.DeclaresIn m.state.context.env name.lexeme := by
  obtain @⟨p, q, control, control', tasks, tasks', s, s', opens, doing, left, states⟩ := related
  cases given
  cases waits
  cases doing with
  | value holds _ =>
      cases left with
      | task first rest =>
          cases first with
          | define same known =>
              rw [← same] at opens
              exact ⟨_, known, rfl, opens.innermost states.store.globals⟩

end Declarations

namespace Reached

variable {past : Past} {m : Machine} {frame : Nat} {name : String} {body : List Stmt}

/-- What is declared in the frame of a block is declared by the block. -/
theorem declared_in_block {w : World} {env : Env} (declares : w.DeclaresIn env name)
    (sites : w.sites.map Site.opener = past.opened)
    (known : ∀ event, w.known event ↔ past.Knows event)
    (opened : past.opened[env.frame]? = some (.block body)) : name ∈ declaresAll body := by
  obtain ⟨event, isKnown, entered, made⟩ := declares
  obtain ⟨loaded, among, walked⟩ := (known event).mp isKnown
  have declared := declaredIn_of_walkProgram walked entered
  rw [← sites, List.getElem?_map, made] at opened
  have isBlock := Option.some.inj opened
  cases first : event.spot.sites.head? with
  | none =>
      rw [first] at isBlock
      cases isBlock
  | some site =>
      rw [first] at isBlock
      have isBlock : site.opener = .block body := isBlock
      exact declared site first [] body (by rw [isBlock]; rfl)

/-- What is assigned to in the frame of a block is declared by the block. -/
theorem assigned_declared (reached : Reached past m) {target : Reference} {value : Value}
    {rest : List Task} (given : m.control = .give (.value value))
    (waits : m.tasks = .assign target :: rest) (there : m.state.place? target = some frame)
    (opened : past.opened[frame]? = some (.block body)) :
    target.name.lexeme ∈ declaresAll body := by
  have next : m.lookup? = some (.assign target) := by
    obtain ⟨control, tasks, s⟩ := m
    cases given
    cases waits
    rfl
  obtain ⟨w, sites, known, related⟩ := reached.related fun _ => Past.first_ne_unused
  obtain ⟨p, reference, looksUp⟩ := related.looksUp next
  obtain @⟨_, _, control, _, tasks, _, s, _, _, _, _, states⟩ := related
  have agrees := looksUp.agrees states sites control tasks
  obtain ⟨loaded, among, walked⟩ := (known _).mp looksUp.known
  cases looksUp.sought
  rw [State.place?] at there
  cases record : s.hops[target.id]? with
  | none =>
      rw [record] at there
      cases there
      cases (reached.rooted .current).2.symm.trans opened
  | some distance =>
      rw [record] at there
      obtain ⟨scope, other, isOpen, has, _, frameOf, _⟩ := agrees.located distance record
      obtain rfl := Option.some.inj (there.symm.trans frameOf.above)
      have isBlock := Option.some.inj (frameOf.opener.symm.trans opened)
      obtain ⟨before, member, after, whole, stands⟩ :=
        walkProgram_follows walked rfl scope (List.mem_of_getElem? isOpen) [] body
          (by rw [isBlock]; rfl)
      rw [whole, declaresAll, List.flatMap_append, List.flatMap_cons]
      rcases stands.nothingElse _ has with earlier | own
      · exact List.mem_append_left _ earlier
      · exact List.mem_append_right _ (List.mem_append_left _ own)

/-- What the next step binds in a frame of a block that is there is declared by the block. -/
theorem binds_declared (reached : Reached past m) {value : Value} (binds : m.Binds frame name value)
    (opened : past.opened[frame]? = some (.block body)) : name ∈ declaresAll body := by
  have new {later : Nat} (isNew : m.state.store.frames.size ≤ later) :
      past.opened[later]? ≠ some (.block body) := by
    rw [List.getElem?_eq_none (reached.length_opened ▸ isNew)]
    exact nofun
  obtain ⟨w, sites, known, related⟩ := reached.related fun _ => Past.first_ne_unused
  cases binds with
  | uninitialized now =>
      have declares := related.declares_exec now rfl fun path p => ⟨_, rfl⟩
      exact declared_in_block declares sites known opened
  | initialized given waits =>
      exact declared_in_block (related.declares_define given waits) sites known opened
  | function now =>
      have declares := related.declares_exec now rfl fun path p => ⟨_, rfl⟩
      exact declared_in_block declares sites known opened
  | @cls token _ declares =>
      have declares : w.DeclaresIn m.state.context.env token.lexeme := by
        cases declares with
        | root now => exact related.declares_exec now rfl fun path p => ⟨_, rfl⟩
        | derived now read => exact related.declares_exec now rfl fun path p => ⟨_, rfl⟩
      exact declared_in_block declares sites known opened
  | assigned given waits there => exact reached.assigned_declared given waits there opened
  | superclass declares => exact absurd opened (new (Nat.le_refl _))
  | receiver bound => exact absurd opened (new (Nat.le_refl _))
  | parameter begins _ _ => exact absurd opened (new (Machine.frames_activation begins))

/-- What is bound is bound in a frame that is there, or in one that is made for no block. -/
theorem binds_in (reached : Reached past m) {value : Value} (binds : m.Binds frame name value) :
    frame < m.state.store.frames.size ∨
      ∃ opener env, m.Branches frame opener env ∧ opener.isBlock = false := by
  have current : m.state.context.env.frame < m.state.store.frames.size :=
    reached.lt_of_sees .current _ List.mem_cons_self
  cases binds with
  | uninitialized now => exact .inl current
  | initialized given waits => exact .inl current
  | function now => exact .inl current
  | cls declares => exact .inl current
  | @assigned target _ _ _ given waits there =>
      left
      unfold State.place? at there
      split at there
      · exact reached.lt_of_sees .current _ (List.mem_of_getElem? there)
      · cases there
        exact Nat.lt_of_le_of_lt (Nat.zero_le _) current
  | superclass declares => exact .inr ⟨_, _, .superclass declares, rfl⟩
  | receiver bound => exact .inr ⟨_, _, .receiver bound, rfl⟩
  | parameter begins _ _ => exact .inr ⟨_, _, .activation begins, rfl⟩

/-- The frame of a block binds only what the block declares. -/
theorem contents (reached : Reached past m) {value : Value}
    (opened : past.opened[frame]? = some (.block body))
    (bound : m.state.store.valueIn? frame name = some value) : name ∈ declaresAll body := by
  revert frame name body value
  refine reached.kept (P := fun past m => ∀ {frame : Nat} {name : String} {body : List Stmt}
    {value : Value}, past.opened[frame]? = some (.block body) →
      m.state.store.valueIn? frame name = some value → name ∈ declaresAll body) ?_ ?_ ?_
  · intro output now frame name body value opened
    cases frame with
    | zero => cases opened
    | succ frame => cases opened
  · intro past m reached ih files frame name body value opened bound
    have length := reached.length_opened
    unfold Past.after at opened
    dsimp only at opened
    rcases (m.changes_advance files).bindings frame name with same | ⟨written, binds, _⟩
    · have made : frame < m.state.store.frames.size := by
        by_contra notMade
        rw [same, Store.valueIn?, Store.bindings_of_size_le _ (Nat.le_of_not_lt notMade)] at bound
        cases bound
      rw [List.getElem?_append_left (length ▸ made)] at opened
      exact ih opened (same.symm.trans bound)
    · rcases reached.binds_in binds with made | ⟨opener, env, branches, noBlock⟩
      · rw [List.getElem?_append_left (length ▸ made)] at opened
        exact reached.binds_declared binds opened
      · obtain ⟨index, rfl, isOpener⟩ := branches.opens
        rw [List.getElem?_append_right (by omega), length, Nat.add_sub_cancel_left,
          isOpener] at opened
        cases opened
        cases noBlock
  · intro past m past' n _ ih rests frame name body value opened bound
    rw [rests.opened] at opened
    rw [rests.store] at bound
    exact ih opened bound

end Reached

end Lox
