import Lox.Proofs.Simulation.Relation

/-!
# Corresponding values

Programs cannot tell corresponding values apart: they show the same text, are equal to the same
values, count as the same truth, take as many arguments and have corresponding methods.
-/

namespace Lox

@[simp] theorem FunDecl.length_params_respell (r : Respelling) (path : List Nat) (p : Spot)
    (decl : FunDecl) : (decl.respell r path p).params.length = decl.params.length := by
  obtain ⟨name, params, body⟩ := decl
  simp [FunDecl.respell]

variable {r : Respelling} {w : World} {store : Store}

namespace FunRel

variable {env : Env} {decl decl' : FunDecl}

theorem opens (related : FunRel r w store env decl decl') :
    ∃ sites, w.Opens env.chain sites := by
  cases related with
  | intro stands settled known => exact ⟨_, stands.opens⟩

theorem name (related : FunRel r w store env decl decl') : decl'.name = decl.name := by
  cases related with
  | intro stands settled known => exact FunDecl.respell_name ..

theorem arity (related : FunRel r w store env decl decl') :
    decl'.params.length = decl.params.length := by
  cases related with
  | intro stands settled known => exact FunDecl.length_params_respell ..

end FunRel

namespace MethodRel

variable {method method' : Method}

theorem name (related : MethodRel r w store method method') : method'.name = method.name := by
  cases related with
  | intro stands settled known => exact congrArg Token.lexeme (FunDecl.respell_name ..)

theorem arity (related : MethodRel r w store method method') : method'.arity = method.arity := by
  cases related with
  | intro stands settled known => exact FunDecl.length_params_respell ..

theorem isInitializer (related : MethodRel r w store method method') :
    method'.isInitializer = method.isInitializer := by
  rw [Method.isInitializer, related.name, Method.isInitializer]

end MethodRel

namespace ClassRel

variable {cls cls' : Class}

theorem name (related : ClassRel r w store cls cls') : cls'.name = cls.name := by
  cases related <;> rfl

theorem identity (related : ClassRel r w store cls cls') : cls'.identity = cls.identity := by
  cases related <;> rfl

/-- Methods are found on the same way up the superclasses. -/
theorem findMethod? (related : ClassRel r w store cls cls') (name : String) :
    Option.Rel (MethodRel r w store) (cls.findMethod? name) (cls'.findMethod? name) := by
  induction related with
  | root table => exact table name
  | @derived _ _ _ _ methods methods' _ table ih =>
      have own := table name
      unfold Class.findMethod?
      revert own
      generalize methods.find? name = a
      generalize methods'.find? name = a'
      intro own
      cases own with
      | some found => exact .some found
      | none => exact ih

theorem arity (related : ClassRel r w store cls cls') : cls'.arity = cls.arity := by
  have init := related.findMethod? "init"
  unfold Class.arity Class.initializer?
  revert init
  generalize cls.findMethod? "init" = a
  generalize cls'.findMethod? "init" = a'
  intro init
  cases init with
  | some found => exact found.arity
  | none => rfl

end ClassRel

namespace ValueRel

variable {value value' : Value}

theorem isTruthy (related : ValueRel r w store value value') :
    value'.isTruthy = value.isTruthy := by
  cases related <;> rfl

theorem number? (related : ValueRel r w store value value') : value'.number? = value.number? := by
  cases related <;> rfl

theorem text (related : ValueRel r w store value value') : value'.text = value.text := by
  cases related with
  | closure related =>
      cases related with
      | intro function receiver =>
          simp only [Value.text, Closure.name, function.name]
  | cls related => exact related.name
  | inst related =>
      cases related with
      | intro ofClass => simp only [Value.text, ofClass.name]
  | _ => rfl

theorem arity? (related : ValueRel r w store value value') : value'.arity? = value.arity? := by
  cases related with
  | closure related =>
      cases related with
      | intro function receiver => simp only [Value.arity?, Closure.arity, function.arity]
  | cls related => simp only [Value.arity?, related.arity]
  | _ => rfl

theorem equals (related : ValueRel r w store value value') {other other' : Value}
    (related' : ValueRel r w store other other') :
    value'.equals other' = value.equals other := by
  cases related with
  | closure related =>
      cases related' with
      | closure related' =>
          cases related
          cases related'
          rfl
      | _ => rfl
  | cls related =>
      cases related' with
      | cls related' => simp only [Value.equals, related.identity, related'.identity]
      | _ => rfl
  | inst related =>
      cases related' with
      | inst related' =>
          cases related
          cases related'
          rfl
      | _ => rfl
  | _ => cases related' <;> rfl

theorem ofLiteral (literal : Literal) :
    ValueRel r w store (.ofLiteral literal) (.ofLiteral literal) := by
  cases literal with
  | nil => exact .nil
  | bool b => exact .bool b
  | number x => exact .number x
  | string s => exact .string s

end ValueRel

/-! ## Answers of operators -/

/-- Outcomes of a phrase that does not return. -/
inductive OutcomeRel (r : Respelling) (w : World) (store : Store) : Outcome → Outcome → Prop where
  | value {value value' : Value} (related : ValueRel r w store value value') :
      OutcomeRel r w store (.value value) (.value value')
  | failed {error error' : Error} (related : ErrorRel r error error') :
      OutcomeRel r w store (.failed error) (.failed error')

namespace OutcomeRel

theorem failAt (token : Token) (fault : RuntimeFault) :
    OutcomeRel r w store (.failAt token fault) (.failAt token fault) :=
  .failed (.same _)

theorem onNumbers {operator : Token} {compute : Float → Float → Value}
    {left left' right right' : Value} (related : ValueRel r w store left left')
    (related' : ValueRel r w store right right')
    (plain : ∀ a b, ValueRel r w store (compute a b) (compute a b)) :
    OutcomeRel r w store (onNumbers operator compute left right)
      (onNumbers operator compute left' right') := by
  cases related with
  | number a =>
      cases related' with
      | number b => exact .value (plain a b)
      | _ => exact failAt ..
  | _ => exact failAt ..

theorem operate {operator : Token} {left left' right right' : Value}
    (related : ValueRel r w store left left') (related' : ValueRel r w store right right') :
    OutcomeRel r w store (operate operator left right) (operate operator left' right') := by
  unfold Lox.operate
  split
  · rw [related.equals related']
    exact .value (.bool _)
  · rw [related.equals related']
    exact .value (.bool _)
  · exact onNumbers related related' fun _ _ => .bool _
  · exact onNumbers related related' fun _ _ => .bool _
  · exact onNumbers related related' fun _ _ => .bool _
  · exact onNumbers related related' fun _ _ => .bool _
  · exact onNumbers related related' fun _ _ => .number _
  · exact onNumbers related related' fun _ _ => .number _
  · exact onNumbers related related' fun _ _ => .number _
  · cases related with
    | number a =>
        cases related' with
        | number b => exact .value (.number _)
        | _ => exact failAt ..
    | string a =>
        cases related' with
        | string b => exact .value (.string _)
        | _ => exact failAt ..
    | _ => exact failAt ..
  · exact failAt ..

theorem operateUnary {operator : Token} {operand operand' : Value}
    (related : ValueRel r w store operand operand') :
    OutcomeRel r w store (operateUnary operator operand) (operateUnary operator operand') := by
  unfold Lox.operateUnary
  split
  · cases related with
    | number x => exact .value (.number _)
    | _ => exact failAt ..
  · rw [related.isTruthy]
    exact .value (.bool _)
  · exact failAt ..

end OutcomeRel

theorem ValueRel.decidesAlone {value value' : Value} (related : ValueRel r w store value value')
    (operator : Token) : Lox.decidesAlone operator value' = Lox.decidesAlone operator value := by
  unfold Lox.decidesAlone
  rw [related.isTruthy]

theorem ErrorRel.withLineIfMissing {error error' : Error} (related : ErrorRel r error error')
    (line : Nat) :
    ErrorRel r (error.withLineIfMissing line) (error'.withLineIfMissing line) := by
  cases related with
  | same error => exact .same _
  | superclass known =>
      cases known with
      | zero => exact .superclass line
      | succ known => exact .superclass (known + 1)

/-! ## New frames -/

/-- A frame that holds one value under a name that no respelling concerns. -/
theorem Bindings.Respelled.single {α β : Type} {R : α → β → Prop} {site : Site} {name : String}
    (notOld : name ≠ r.old) (notNew : name ≠ r.new) {x : α} {y : β} (related : R x y) :
    Bindings.Respelled R r site [(name, x)] [(name, y)] := by
  have none : Bindings.Respelled R r site [] [] := .nil
  have inserted := none.insert (fun _ => notNew) related
  rwa [Respelling.spell_self notOld] at inserted

/-- As many arguments as there are parameters bind each of these. -/
theorem has_bindParameters {params : List Token} {args : List Value}
    (count : args.length = params.length) {name : String}
    (listed : name ∈ params.map Token.lexeme) : (bindParameters params args).has name = true := by
  have spread : ∀ (params : List Token) (args : List Value) (bindings : Bindings Value),
      args.length = params.length →
      (name ∈ params.map Token.lexeme ∨ bindings.has name = true) →
      ((params.zip args).foldl (fun bindings pair => bindings.insert pair.1.lexeme pair.2)
        bindings).has name = true := by
    intro params
    induction params with
    | nil =>
        intro args bindings _ held
        rcases held with none | bound
        · cases none
        · exact bound
    | cons param params ih =>
        intro args bindings count held
        cases args with
        | nil => cases count
        | cons arg args =>
            refine ih args _ (Nat.succ.inj count) ?_
            rcases held with listed | bound
            · rcases List.mem_cons.mp listed with rfl | later
              · exact .inr (by simp [Bindings.has])
              · exact .inl later
            · refine .inr ?_
              unfold Bindings.has at bound ⊢
              rw [Bindings.find?_insert]
              split
              · rfl
              · exact bound
  exact spread params args [] count (.inl listed)

/-- Corresponding arguments are bound to parameters and to these as they are spelled. -/
theorem bindParameters_related {site : Site} {spot : Spot} {params : List Token}
    (spelled : ∀ name, r.spellHere spot name = r.spell site name)
    (allowed : ∀ param ∈ params, site.path = r.target → param.lexeme ≠ r.new)
    {args args' : List Value} (each : List.Forall₂ (ValueRel r w store) args args') :
    Bindings.Respelled (ValueRel r w store) r site (bindParameters params args)
      (bindParameters (params.map (r.declared spot)) args') := by
  have folded : ∀ (params : List Token) (args args' : List Value) (b b' : Bindings Value),
      (∀ param ∈ params, site.path = r.target → param.lexeme ≠ r.new) →
      List.Forall₂ (ValueRel r w store) args args' →
      Bindings.Respelled (ValueRel r w store) r site b b' →
      Bindings.Respelled (ValueRel r w store) r site
        ((params.zip args).foldl (fun bindings pair => bindings.insert pair.1.lexeme pair.2) b)
        (((params.map (r.declared spot)).zip args').foldl
          (fun bindings pair => bindings.insert pair.1.lexeme pair.2) b') := by
    intro params
    induction params with
    | nil => exact fun _ _ _ _ _ _ bound => bound
    | cons param params ih =>
        intro args args' b b' allowed each bound
        cases each with
        | nil => exact bound
        | cons first rest =>
            refine ih _ _ _ _ (fun other listed => allowed other (List.mem_cons_of_mem _ listed))
              rest ?_
            have inserted := bound.insert (allowed param List.mem_cons_self) first
            rwa [← spelled] at inserted
  exact folded params args args' [] [] allowed each .nil

end Lox
