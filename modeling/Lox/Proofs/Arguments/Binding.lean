import Lox.Proofs.Printing
import Lox.Proofs.Super

/-!
# Every parameter has an argument of its own

A call is only let through with as many arguments as the callee takes, and analysis rejects
functions two of whose parameters have one name.  So the pairs of parameters and arguments leave
nothing over, and no argument takes the place of another one.
-/

namespace Lox

/-! ## Binding parameters -/

/-- What is bound under other names stays. -/
theorem Bindings.find?_foldl_insert_of_notMem {α β : Type} {key : β → String} {bound : β → α}
    {items : List β} {bindings : Bindings α} {name : String} (other : name ∉ items.map key) :
    (items.foldl (fun (bindings : Bindings α) item =>
      bindings.insert (key item) (bound item)) bindings).find? name = bindings.find? name := by
  induction items generalizing bindings with
  | nil => rfl
  | cons item items ih =>
      rw [List.map_cons, List.mem_cons, not_or] at other
      rw [List.foldl_cons, ih other.2, find?_insert_of_ne other.1]

/-- Under each of different names the value is found that was bound to it. -/
theorem Bindings.find?_foldl_insert_of_nodup {α β : Type} {key : β → String} {bound : β → α}
    {items : List β} (apart : (items.map key).Nodup) {item : β} (held : item ∈ items)
    (bindings : Bindings α) :
    (items.foldl (fun (bindings : Bindings α) item =>
      bindings.insert (key item) (bound item)) bindings).find? (key item) = some (bound item) := by
  induction items generalizing bindings with
  | nil => cases held
  | cons first items ih =>
      obtain ⟨other, others⟩ := List.nodup_cons.mp apart
      rcases List.mem_cons.mp held with rfl | later
      · rw [List.foldl_cons, find?_foldl_insert_of_notMem other, find?_insert_self]
      · exact ih others later _

/-- Parameters with different names are bound to their arguments, one to each. -/
theorem bindParameters_pairwise {params : List Token} {args : List Value}
    (count : args.length = params.length) (apart : (params.map Token.lexeme).Nodup) :
    List.Forall₂ (fun param arg => (bindParameters params args).find? param.lexeme = some arg)
      params args := by
  have names : (params.zip args).map (fun pair => pair.1.lexeme) = params.map Token.lexeme :=
    calc
      _ = ((params.zip args).map Prod.fst).map Token.lexeme := List.map_map.symm
      _ = _ := congrArg (List.map Token.lexeme) (List.map_fst_zip count.ge)
  rw [← names] at apart
  refine List.forall₂_iff_zip.mpr ⟨count.symm, fun {param arg} held => ?_⟩
  exact Bindings.find?_foldl_insert_of_nodup apart held []

/-! ## Parameters have different names -/

/-- Parameters that are all sound have different names, and none of those before. -/
theorem nodup_of_actsParameters (seen : List String) {params : List Token}
    (sound : ∀ before param, .parameter before param ∈ actsParameters seen params →
      param.lexeme ∉ before) :
    (params.map Token.lexeme).Nodup ∧ ∀ name ∈ seen, name ∉ params.map Token.lexeme := by
  induction params generalizing seen with
  | nil => exact ⟨List.nodup_nil, fun _ _ => List.not_mem_nil⟩
  | cons param params ih =>
      obtain ⟨apart, others⟩ := ih (param.lexeme :: seen) fun before later held =>
        sound before later (List.mem_cons_of_mem _ held)
      have new := sound seen param List.mem_cons_self
      refine ⟨List.nodup_cons.mpr ⟨others _ List.mem_cons_self, apart⟩, fun name held among => ?_⟩
      rcases List.mem_cons.mp among with rfl | later
      · exact new held
      · exact others name (List.mem_cons_of_mem _ held) later

section Reached

variable {past : Past} {m : Machine}

/-- The parameters of every function that can be called have different names. -/
theorem Reached.nodup_params (reached : Reached past m) {decl : FunDecl}
    (executes : m.Executes (.function decl)) : (decl.params.map Token.lexeme).Nodup := by
  refine (nodup_of_actsParameters [] fun before param held => ?_).1
  have among : .parameter before param ∈ (Code.function decl).acts := by
    cases decl
    exact List.mem_append_left _ held
  obtain ⟨loaded, isLoaded, event, walked, isParameter⟩ := reached.exists_event executes among
  have sound := (reached.checked loaded isLoaded).sound event walked
  intro twice
  rw [Event.fault?, isParameter] at sound
  dsimp only at sound
  rw [if_pos twice] at sound
  cases sound

end Reached

/-! ## Calls that are let through -/

namespace Machine

/-- The body was entered in a frame that binds its parameters, one to each argument, and no more. -/
structure Receives (decl : FunDecl) (args : List Value) (n : Machine) : Prop where
  enters : n.control = .give .nil ∧ ∃ waiting, n.tasks = .body decl.body :: waiting
  count : args.length = decl.params.length
  apart : (decl.params.map Token.lexeme).Nodup
  bound : List.Forall₂
    (fun param arg =>
      n.state.store.valueIn? n.state.context.env.frame param.lexeme = some arg)
    decl.params args
  only : ∀ name value, n.state.store.valueIn? n.state.context.env.frame name = some value →
    ∃ param ∈ decl.params, param.lexeme = name

/-- What a call leads to that is let through. -/
inductive LetThrough (m : Machine) (calling : Calling) : Machine → Prop where
  | native {native : Native} (isNative : calling.callee = .native native)
      (accepts : native.arity.accepts calling.args.length = true) :
      LetThrough m calling (callNative native calling.args calling.paren.line calling.rest m.state)
  | function {closure : Closure} {n : Machine} (isClosure : calling.callee = .closure closure)
      (receives : n.Receives closure.decl calling.args) : LetThrough m calling n
  | initializer {cls : Class} {init : Method} {n : Machine} (isClass : calling.callee = .cls cls)
      (found : cls.initializer? = some init) (receives : n.Receives init.decl calling.args) :
      LetThrough m calling n
  /-- Neither the class nor one that it inherits from has an initializer. -/
  | bare {cls : Class} (isClass : calling.callee = .cls cls)
      (noInit : ∀ ancestor ∈ cls :: cls.ancestors, ancestor.methods.find? "init" = none)
      (noArgs : calling.args = []) :
      LetThrough m calling (giving (.value (.inst ⟨m.state.store.objects.size, cls⟩)) calling.rest
        { m.state with store := m.state.store.newObject.2 })

/-- A call that is not refused has a number of arguments that the callee accepts. -/
theorem accepts_of_accepted {arity : Arity} {given depth : Nat}
    (accepted : refusal? (some arity) given depth = none) : arity.accepts given = true := by
  cases arity with
  | fixed count => exact beq_iff_eq.mpr (count_of_accepted accepted).symm
  | variadic => rfl

/-- The body that a call enters receives as many arguments as it has parameters. -/
theorem receives_activation {past : Past} {m : Machine} (reached : Reached past m) {a : Activation}
    (begins : m.activation? = some a) (count : a.args.length = a.closure.decl.params.length) :
    a.machine.Receives a.closure.decl a.args := by
  obtain ⟨value, carries, runs⟩ := exists_runs_of_activation begins
  have apart := reached.nodup_params (.callable carries runs)
  have frame : a.machine.state.context.env.frame = a.frame := by rw [a.env_machine]; rfl
  have found (name : String) :
      a.machine.state.store.valueIn? a.machine.state.context.env.frame name =
        (bindParameters a.closure.decl.params a.args).find? name := by
    rw [frame, a.store_machine, Store.valueIn?, Activation.frame, Store.bindings_newFrame_size]
  refine ⟨⟨by rw [a.machine_eq], _, by rw [a.machine_eq]⟩, count, apart, ?_, fun name value => ?_⟩
  · simp only [found]
    exact bindParameters_pairwise count apart
  · rw [found]
    exact fun bound => (mem_of_bindParameters bound).1

section Calls

variable {past : Past} {m : Machine} {calling : Calling} (reached : Reached past m)
  (calls : m.calling? = some calling)
  (accepted : refusal? calling.callee.arity? calling.args.length m.state.context.depth = none)
  (files : String → Except Failure String)

include reached calls accepted

/-- The number of arguments and the initializer are told by the same search. -/
theorem letThrough_class {cls : Class} (isClass : calling.callee = .cls cls) :
    m.LetThrough calling (m.advance files) := by
  cases found : cls.initializer? with
  | none =>
      obtain ⟨noArgs, stepped⟩ := advance_class calls isClass accepted found files
      rw [stepped]
      refine .bare isClass ?_ noArgs
      rwa [Class.initializer?, Class.findMethod?_eq, List.findSome?_eq_none_iff] at found
  | some init =>
      have arity : calling.callee.arity? = some (.fixed cls.arity) := by rw [isClass]; rfl
      have count := count_of_accepted (arity ▸ accepted)
      rw [Class.arity, found] at count
      have begins := (Activates.init calls isClass accepted found).activation
      rw [advance_activation begins]
      exact .initializer isClass found (receives_activation reached begins count)

/-- A call that is let through gives each parameter its argument, and leaves none over. -/
theorem letThrough_of_accepted : m.LetThrough calling (m.advance files) := by
  cases called : calling.callee with
  | closure closure =>
      have begins := (Activates.closure calls called accepted).activation
      rw [called] at accepted
      rw [advance_activation begins]
      exact .function called (receives_activation reached begins (count_of_accepted accepted))
  | cls cls => exact letThrough_class reached calls accepted files called
  | native native =>
      rw [advance_accepted calls accepted, called]
      rw [called] at accepted
      exact .native called (accepts_of_accepted accepted)
  | _ =>
      rw [called] at accepted
      cases accepted

end Calls

end Machine

end Lox
