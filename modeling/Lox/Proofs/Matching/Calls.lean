import Lox.Proofs.Matching.Machines

/-!
# Calls on matching machines

Methods are bound and callables are called alike by matching machines.  Only the machine that has
more levels active may find that there are too many.
-/

namespace Lox

namespace Abreast

variable {σ : Leeway} {w : Pairing} {below below' tasks tasks' : List Task} {s s' : State}

/-- The body of a closure is entered in new frames that bind counterparts. -/
theorem enter (abreast : Abreast σ w below below' tasks tasks' s s') {closure closure' : Closure}
    (related : ClosureMatch σ w closure closure') {args args' : List Value}
    (each : List.Forall₂ (ValueMatch σ w) args args') {answer answer' : Answer}
    (answers : AnswerMatch σ w answer answer') {line line' : Nat}
    (lines : σ.lines line line') :
    Continues σ w below below' s s' (Machine.enter closure args line answer tasks s)
      (Machine.enter closure' args' line' answer' tasks' s') := by
  obtain @⟨_, _, env, env', _, t, decl, covers, _, envs⟩ := related
  have ofBody : w.Covers t (actsBody decl.body) := by
    obtain ⟨name, params, body⟩ := decl
    exact (Pairing.covers_append.mp covers).2
  have bound := bindParameters_matches t decl.params each
  obtain ⟨w', grows, states, envs'⟩ := abreast.states.extend envs bound
  have within := grows.within
  unfold Machine.enter
  dsimp only
  rw [FunDecl.move_params, FunDecl.move_params, FunDecl.move_body, FunDecl.move_body]
  refine ⟨w', grows.toSimilar ⟨rfl, rfl, rfl, rfl⟩ ⟨rfl, rfl, rfl, rfl⟩,
    .intro (.give .nil) ?_ (states.core.inContext ⟨envs', ?_, ?_⟩)⟩
  · refine .task (.body t decl.body (ofBody.mono within)) (.task (.finishCall ?_ lines ?_) ?_)
    · exact abreast.states.context.mono within
    · exact answers.mono within
    · exact abreast.left.mono within
  · exact abreast.states.context.base
  · have depth := abreast.states.context.depth
    dsimp only
    omega

/-- A method is given away bound to its receiver. -/
theorem givesMethod (abreast : Abreast σ w below below' tasks tasks' s s') {method method' : Method}
    (related : MethodMatch σ w method method') {receiver receiver' : Instance}
    (ofInstance : InstanceMatch σ w receiver receiver') :
    Continues σ w below below' s s'
      (.giving (.value (.closure (s.bindMethod method receiver).1)) tasks
        (s.bindMethod method receiver).2)
      (.giving (.value (.closure (s'.bindMethod method' receiver').1)) tasks'
        (s'.bindMethod method' receiver').2) := by
  obtain ⟨w', grows, states, closures⟩ := abreast.states.bindMethod related ofInstance
  exact ⟨w', grows, (abreast.later grows.within states).givesValue (.closure closures)⟩

theorem getProperty (abreast : Abreast σ w below below' tasks tasks' s s') (t : Twin σ)
    {object object' : Value} (related : ValueMatch σ w object object') (name : Token) :
    Continues σ w below below' s s' (Machine.getProperty object (name.move t.left) tasks s)
      (Machine.getProperty object' (name.move t.right) tasks' s') := by
  cases related with
  | inst ofInstance =>
      have ofInstance' := ofInstance
      obtain ⟨paired, ofClass⟩ := ofInstance
      have field := abreast.states.core.store.fields paired name.lexeme
      have method := ofClass.findMethod? name.lexeme
      unfold Machine.getProperty
      dsimp only
      rw [Token.move_lexeme, Token.move_lexeme]
      revert field
      generalize s.store.field? _ name.lexeme = a
      generalize s'.store.field? _ name.lexeme = a'
      intro field
      cases field with
      | some value => exact .still (abreast.givesValue value) .refl
      | none =>
          revert method
          generalize Class.findMethod? name.lexeme _ = b
          generalize Class.findMethod? name.lexeme _ = b'
          intro method
          cases method with
          | some found => exact abreast.givesMethod found ofInstance'
          | none =>
              dsimp only
              rw [ofClass.name]
              exact .still (abreast.failAt t name _) .refl
  | _ => exact .still (abreast.failAt t name _) .refl

theorem getSuper (abreast : Abreast σ w below below' tasks tasks' s s') (t : Twin σ)
    {keyword : Reference}
    (paired : w.references (keyword.id + t.left.offset) (keyword.id + t.right.offset))
    (name : Token) :
    Continues σ w below below' s s'
      (Machine.getSuper (keyword.move t.left) (name.move t.left) tasks s)
      (Machine.getSuper (keyword.move t.right) (name.move t.right) tasks' s') := by
  have found := abreast.states.superOf? t paired
  unfold Machine.getSuper
  rw [Token.move_lexeme, Token.move_lexeme]
  revert found
  generalize s.superOf? (keyword.move t.left) = a
  generalize s'.superOf? (keyword.move t.right) = a'
  intro found
  cases found with
  | none => exact .still (abreast.failAt t keyword.name _) .refl
  | @some x y found =>
      obtain ⟨superclass, receiver⟩ := x
      obtain ⟨superclass', receiver'⟩ := y
      obtain ⟨ofClass, ofInstance⟩ := found
      have method := ofClass.findMethod? name.lexeme
      dsimp only at ofClass ofInstance ⊢
      revert method
      generalize superclass.findMethod? name.lexeme = b
      generalize superclass'.findMethod? name.lexeme = b'
      intro method
      cases method with
      | some method => exact abreast.givesMethod method ofInstance
      | none =>
          dsimp only
          rw [ofClass.name]
          exact .still (abreast.failAt t name _) .refl

/-- A line is written to both outputs, or refused by both. -/
theorem writes (abreast : Abreast σ w below below' tasks tasks' s s') (text : String)
    {line line' : Nat} (lines : σ.lines line line') :
    Continues σ w below below' s s'
      (.giving (.writtenAt line (s.writeLine text).1) tasks (s.writeLine text).2)
      (.giving (.writtenAt line' (s'.writeLine text).1) tasks' (s'.writeLine text).2) := by
  obtain ⟨taken, cores⟩ := abreast.states.core.writeLine text
  have written : Abreast σ w below below' tasks tasks' (s.writeLine text).2
      (s'.writeLine text).2 := by
    refine ⟨abreast.left, cores, ?_⟩
    rw [State.writeLine_eq, State.writeLine_eq]
    exact abreast.states.context
  refine .still ?_ ?_
  · rw [taken]
    cases (s.writeLine text).1 with
    | none => exact written.gives .nil
    | some detail => exact written.gives (.failed (.runtime lines _))
  · rw [State.writeLine_eq, State.writeLine_eq]
    exact StateGrows.refl.toSimilar ⟨rfl, rfl, rfl, rfl⟩ ⟨rfl, rfl, rfl, rfl⟩

theorem callNative (abreast : Abreast σ w below below' tasks tasks' s s') (native : Native)
    {args args' : List Value} (each : List.Forall₂ (ValueMatch σ w) args args')
    {line line' : Nat} (lines : σ.lines line line') :
    Continues σ w below below' s s' (Machine.callNative native args line tasks s)
      (Machine.callNative native args' line' tasks' s') := by
  cases native with
  | clock =>
      refine .still ?_ .refl
      unfold Machine.callNative Machine.runNative
      dsimp only
      rw [abreast.states.core.now]
      split
      · exact abreast.gives (.failed (.runtime lines _))
      · exact abreast.givesValue (.number _)
  | exit =>
      have same : args'.head?.bind Value.number? = args.head?.bind Value.number? := by
        cases each with
        | nil => rfl
        | cons first _ => exact first.number?
      unfold Machine.callNative Machine.runNative
      dsimp only
      rw [same]
      cases args.head?.bind Value.number? with
      | some x => exact .still (.intro (.exited _) abreast.left abreast.states) .refl
      | none => exact .still (abreast.gives (.failed (.runtime lines _))) .refl
  | print =>
      have texts : args'.map Value.text = args.map Value.text := by
        induction each with
        | nil => rfl
        | cons first _ ih => rw [List.map_cons, List.map_cons, ih, first.text]
      rw [Machine.callNative_print, Machine.callNative_print, texts]
      exact abreast.writes _ lines

theorem instantiate (abreast : Abreast σ w below below' tasks tasks' s s') {cls cls' : Class}
    (ofClass : ClassMatch σ w cls cls') {args args' : List Value}
    (each : List.Forall₂ (ValueMatch σ w) args args') {line line' : Nat}
    (lines : σ.lines line line') :
    Continues σ w below below' s s' (Machine.instantiate cls args line tasks s)
      (Machine.instantiate cls' args' line' tasks' s') := by
  obtain ⟨w₁, grows₁, states₁, made⟩ := abreast.states.newInstance ofClass
  have abreast₁ := abreast.later grows₁.within states₁
  have init := (ofClass.mono grows₁.within).findMethod? "init"
  unfold Machine.instantiate Class.initializer?
  dsimp only
  revert init
  generalize cls.findMethod? "init" = a
  generalize cls'.findMethod? "init" = a'
  intro init
  cases init with
  | none => exact .after grows₁ (.still (abreast₁.givesValue (.inst made)) .refl)
  | some method =>
      obtain ⟨w₂, grows₂, states₂, closures⟩ := states₁.bindMethod method made
      have abreast₂ := abreast₁.later grows₂.within states₂
      have each₂ := each.imp fun _ _ value => value.mono (grows₁.trans grows₂).within
      exact .after (grows₁.trans grows₂)
        (abreast₂.enter closures each₂ (.made (made.mono grows₂.within)) lines)

theorem invoke (abreast : Abreast σ w below below' tasks tasks' s s') (t : Twin σ)
    {callee callee' : Value} (related : ValueMatch σ w callee callee') {args args' : List Value}
    (each : List.Forall₂ (ValueMatch σ w) args args') (paren : Token) :
    Continues σ w below below' s s' (Machine.invoke callee args (paren.move t.left) tasks s)
      (Machine.invoke callee' args' (paren.move t.right) tasks' s') := by
  have lines : σ.lines (paren.move t.left).line (paren.move t.right).line := t.lines paren.line
  cases related with
  | native native => exact abreast.callNative native each lines
  | closure closures =>
      have closures' := closures
      obtain @⟨_, _, env, env', isInitializer, _, _, _, _, envs⟩ := closures
      have answers : AnswerMatch σ w (if isInitializer then .receiver env else .result)
          (if isInitializer then .receiver env' else .result) := by
        split
        · exact .receiver envs
        · exact .result
      exact abreast.enter closures' each answers lines
  | cls ofClass => exact abreast.instantiate ofClass each lines
  | _ => exact .still (abreast.failAt t paren _) .refl

/-- Too many levels are active in both, in the first alone, or in none. -/
theorem deepens (abreast : Abreast σ w below below' tasks tasks' s s') (t : Twin σ) (token : Token)
    {n n' : Machine} (continues : Continues σ w below below' s s' n n') :
    MayContinue σ w below below' s s'
      (if maxDepth ≤ s.context.depth then
        .giving (.failAt (token.move t.left) .stackOverflow) tasks s else n)
      (if maxDepth ≤ s'.context.depth then
        .giving (.failAt (token.move t.right) .stackOverflow) tasks' s' else n') := by
  have depth := abreast.states.context.depth
  by_cases tooDeep : maxDepth ≤ s.context.depth
  · rw [if_pos tooDeep]
    by_cases tooDeep' : maxDepth ≤ s'.context.depth
    · rw [if_pos tooDeep']
      exact .inl (.still (abreast.failAt t token _) .refl)
    · exact .inr ⟨by omega, token.move t.left, rfl⟩
  · rw [if_neg tooDeep, if_neg (by omega)]
    exact .inl continues

theorem call (abreast : Abreast σ w below below' tasks tasks' s s') (t : Twin σ)
    {callee callee' : Value} (related : ValueMatch σ w callee callee') {args args' : List Value}
    (each : List.Forall₂ (ValueMatch σ w) args args') (paren : Token) :
    MayContinue σ w below below' s s' (Machine.call callee args (paren.move t.left) tasks s)
      (Machine.call callee' args' (paren.move t.right) tasks' s') := by
  unfold Machine.call
  rw [related.arity?, ← each.length_eq]
  cases callee.arity? with
  | none => exact (Continues.still (abreast.failAt t paren _) .refl).mayContinue
  | some arity =>
      cases arity with
      | variadic => exact abreast.deepens t paren (abreast.invoke t related each paren)
      | fixed wanted =>
          dsimp only
          split
          · exact (Continues.still (abreast.failAt t paren _) .refl).mayContinue
          · exact abreast.deepens t paren (abreast.invoke t related each paren)

end Abreast

end Lox
