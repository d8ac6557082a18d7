import Lox.Proofs.Move.Trees
import Lox.Proofs.Parse.Phrases
import Lox.Proofs.Simulation.Stores

/-!
# Counterparts

Two runs may differ in the numbers of frames, objects, identities and references, in the lines of
their texts, in the directories that they include from, and in how deep they are.  A pairing says
which frames of the one are those of the other, and so on.  What both hold then matches: the trees
are one tree that was moved in two ways, and values refer to counterparts.
-/

namespace Lox

/-- What two runs may differ in, apart from the numbers that things are known by. -/
structure Leeway where
  /-- What may have become of the lines of one text in the two runs. -/
  moves : (Nat → Nat) → (Nat → Nat) → Prop
  same : moves id id
  /-- Line 0, which stands for none, is moved by both or by neither. -/
  zero : ∀ {left right}, moves left right → ∀ line, left line = 0 ↔ right line = 0
  /-- Directories that inclusions are read from. -/
  bases : String → String → Prop
  /-- How many more levels are active in the first run. -/
  deeper : Nat

/-- Lines that one line of a text has become. -/
def Leeway.lines (σ : Leeway) (line line' : Nat) : Prop :=
  ∃ left right original, σ.moves left right ∧ line = left original ∧ line' = right original

/-- Two ways of moving one text. -/
structure Twin (σ : Leeway) where
  left : Move
  right : Move
  moves : σ.moves left.line right.line

theorem Twin.lines {σ : Leeway} (t : Twin σ) (line : Nat) :
    σ.lines (t.left.line line) (t.right.line line) :=
  ⟨t.left.line, t.right.line, line, t.moves, rfl, rfl⟩

theorem Leeway.lines_refl (σ : Leeway) (line : Nat) : σ.lines line line :=
  ⟨id, id, line, σ.same, rfl, rfl⟩

/-- Which frames, objects, identities and references of two runs are counterparts. -/
structure Pairing where
  frames : Nat → Nat → Prop
  objects : Nat → Nat → Prop
  identities : Nat → Nat → Prop
  references : Nat → Nat → Prop

namespace Pairing

/-- What is paired stays paired. -/
structure Within (w w' : Pairing) : Prop where
  frames : ∀ {frame frame'}, w.frames frame frame' → w'.frames frame frame'
  objects : ∀ {object object'}, w.objects object object' → w'.objects object object'
  identities : ∀ {identity identity'}, w.identities identity identity' →
    w'.identities identity identity'
  references : ∀ {id id'}, w.references id id' → w'.references id id'

theorem Within.refl (w : Pairing) : w.Within w := ⟨id, id, id, id⟩

theorem Within.trans {w w' w'' : Pairing} (first : w.Within w') (next : w'.Within w'') :
    w.Within w'' :=
  ⟨next.frames ∘ first.frames, next.objects ∘ first.objects, next.identities ∘ first.identities,
    next.references ∘ first.references⟩

/-- The references of a text are paired as it is moved in two ways. -/
def Covers {σ : Leeway} (w : Pairing) (t : Twin σ) (acts : List Act) : Prop :=
  ∀ act ∈ acts, ∀ id, act.id? = some id → w.references (id + t.left.offset) (id + t.right.offset)

section Covers

variable {σ : Leeway} {w w' : Pairing} {t : Twin σ}

@[simp] theorem covers_nil : w.Covers t [] := fun _ none => (List.not_mem_nil none).elim

@[simp] theorem covers_cons {act : Act} {acts : List Act} :
    w.Covers t (act :: acts) ↔
      (∀ id, act.id? = some id → w.references (id + t.left.offset) (id + t.right.offset)) ∧
        w.Covers t acts :=
  List.forall_mem_cons

@[simp] theorem covers_append {before after : List Act} :
    w.Covers t (before ++ after) ↔ w.Covers t before ∧ w.Covers t after :=
  List.forall_mem_append

theorem Covers.mono {acts : List Act} (covers : w.Covers t acts) (within : w.Within w') :
    w'.Covers t acts :=
  fun act held id found => within.references (covers act held id found)

end Covers

end Pairing

/-- Environments whose frames are counterparts, one by one. -/
def EnvMatch (w : Pairing) (env env' : Env) : Prop := List.Forall₂ w.frames env.chain env'.chain

section Values

variable (σ : Leeway) (w : Pairing)

inductive ClosureMatch : Closure → Closure → Prop where
  | intro {identity identity' : Nat} {env env' : Env} {isInitializer : Bool} (t : Twin σ)
      (decl : FunDecl) (covers : w.Covers t decl.acts) (same : w.identities identity identity')
      (envs : EnvMatch w env env') :
      ClosureMatch ⟨identity, decl.move t.left, env, isInitializer⟩
        ⟨identity', decl.move t.right, env', isInitializer⟩

inductive MethodMatch : Method → Method → Prop where
  | intro {env env' : Env} (t : Twin σ) (decl : FunDecl) (covers : w.Covers t decl.acts)
      (envs : EnvMatch w env env') :
      MethodMatch ⟨decl.move t.left, env⟩ ⟨decl.move t.right, env'⟩

/-- Two tables have counterparts under each name. -/
def TableMatch (methods methods' : Bindings Method) : Prop :=
  ∀ name, Option.Rel (MethodMatch σ w) (methods.find? name) (methods'.find? name)

inductive ClassMatch : Class → Class → Prop where
  | root {identity identity' : Nat} {name : String} {methods methods' : Bindings Method}
      (same : w.identities identity identity') (table : TableMatch σ w methods methods') :
      ClassMatch (.mk identity name none methods) (.mk identity' name none methods')
  | derived {identity identity' : Nat} {name : String} {parent parent' : Class}
      {methods methods' : Bindings Method} (same : w.identities identity identity')
      (inherited : ClassMatch parent parent') (table : TableMatch σ w methods methods') :
      ClassMatch (.mk identity name (some parent) methods) (.mk identity' name (some parent') methods')

inductive InstanceMatch : Instance → Instance → Prop where
  | intro {object object' : Nat} {cls cls' : Class} (same : w.objects object object')
      (ofClass : ClassMatch σ w cls cls') : InstanceMatch ⟨object, cls⟩ ⟨object', cls'⟩

inductive ValueMatch : Value → Value → Prop where
  | nil : ValueMatch .nil .nil
  | bool (b : Bool) : ValueMatch (.bool b) (.bool b)
  | number (x : Float) : ValueMatch (.number x) (.number x)
  | string (s : String) : ValueMatch (.string s) (.string s)
  | native (native : Native) : ValueMatch (.native native) (.native native)
  | closure {closure closure' : Closure} (related : ClosureMatch σ w closure closure') :
      ValueMatch (.closure closure) (.closure closure')
  | cls {cls cls' : Class} (related : ClassMatch σ w cls cls') : ValueMatch (.cls cls) (.cls cls')
  | inst {inst inst' : Instance} (related : InstanceMatch σ w inst inst') :
      ValueMatch (.inst inst) (.inst inst')

end Values

/-! ## More may be paired later -/

/-- Whatever may have become of lines still may. -/
def Leeway.Within (σ σ' : Leeway) : Prop := ∀ left right, σ.moves left right → σ'.moves left right

/-- The same two ways of moving a text, if there are more. -/
def Twin.widen {σ σ' : Leeway} (t : Twin σ) (wider : σ.Within σ') : Twin σ' :=
  ⟨t.left, t.right, wider _ _ t.moves⟩

theorem Leeway.Within.refl (σ : Leeway) : σ.Within σ := fun _ _ => id

section Weaker

variable {σ σ' : Leeway} {w w' : Pairing}

theorem EnvMatch.mono {env env' : Env} (envs : EnvMatch w env env') (within : w.Within w') :
    EnvMatch w' env env' :=
  envs.imp fun _ _ => within.frames

theorem ClosureMatch.weaken {closure closure' : Closure}
    (related : ClosureMatch σ w closure closure') (wider : σ.Within σ')
    (within : w.Within w') : ClosureMatch σ' w' closure closure' := by
  obtain @⟨_, _, _, _, _, t, decl, covers, same, envs⟩ := related
  exact .intro (t.widen wider) decl (covers.mono within) (within.identities same)
    (envs.mono within)

theorem MethodMatch.weaken {method method' : Method} (related : MethodMatch σ w method method')
    (wider : σ.Within σ') (within : w.Within w') : MethodMatch σ' w' method method' := by
  obtain ⟨t, decl, covers, envs⟩ := related
  exact .intro (t.widen wider) decl (covers.mono within) (envs.mono within)

theorem TableMatch.weaken {methods methods' : Bindings Method}
    (table : TableMatch σ w methods methods') (wider : σ.Within σ')
    (within : w.Within w') : TableMatch σ' w' methods methods' :=
  fun name => optionRel_mono (fun _ _ method => method.weaken wider within) (table name)

theorem ClassMatch.weaken {cls cls' : Class} (related : ClassMatch σ w cls cls')
    (wider : σ.Within σ') (within : w.Within w') : ClassMatch σ' w' cls cls' := by
  induction related with
  | root same table => exact .root (within.identities same) (table.weaken wider within)
  | derived same _ table ih =>
      exact .derived (within.identities same) ih (table.weaken wider within)

theorem InstanceMatch.weaken {inst inst' : Instance} (related : InstanceMatch σ w inst inst')
    (wider : σ.Within σ') (within : w.Within w') : InstanceMatch σ' w' inst inst' := by
  obtain ⟨same, ofClass⟩ := related
  exact .intro (within.objects same) (ofClass.weaken wider within)

theorem ValueMatch.weaken {value value' : Value} (related : ValueMatch σ w value value')
    (wider : σ.Within σ') (within : w.Within w') : ValueMatch σ' w' value value' := by
  cases related with
  | nil => exact .nil
  | bool b => exact .bool b
  | number x => exact .number x
  | string s => exact .string s
  | native native => exact .native native
  | closure related => exact .closure (related.weaken wider within)
  | cls related => exact .cls (related.weaken wider within)
  | inst related => exact .inst (related.weaken wider within)

theorem ClassMatch.mono {cls cls' : Class} (related : ClassMatch σ w cls cls')
    (within : w.Within w') : ClassMatch σ w' cls cls' :=
  related.weaken (.refl σ) within

theorem InstanceMatch.mono {inst inst' : Instance} (related : InstanceMatch σ w inst inst')
    (within : w.Within w') : InstanceMatch σ w' inst inst' :=
  related.weaken (.refl σ) within

theorem ValueMatch.mono {value value' : Value} (related : ValueMatch σ w value value')
    (within : w.Within w') : ValueMatch σ w' value value' :=
  related.weaken (.refl σ) within

end Weaker

/-! ## What programs see of values -/

@[simp] theorem FunDecl.move_name (m : Move) (decl : FunDecl) :
    (decl.move m).name = decl.name.move m := by
  obtain ⟨name, params, body⟩ := decl
  rfl

@[simp] theorem FunDecl.move_params (m : Move) (decl : FunDecl) :
    (decl.move m).params = decl.params.map (Token.move m) := by
  obtain ⟨name, params, body⟩ := decl
  rfl

@[simp] theorem FunDecl.move_body (m : Move) (decl : FunDecl) :
    (decl.move m).body = moveBody m decl.body := by
  obtain ⟨name, params, body⟩ := decl
  rfl

section Seen

variable {σ : Leeway} {w : Pairing}

theorem MethodMatch.isInitializer {method method' : Method}
    (related : MethodMatch σ w method method') : method'.isInitializer = method.isInitializer := by
  obtain ⟨t, decl, _, _⟩ := related
  simp [Method.isInitializer, Method.name]

theorem MethodMatch.arity {method method' : Method} (related : MethodMatch σ w method method') :
    method'.arity = method.arity := by
  obtain ⟨t, decl, _, _⟩ := related
  simp [Method.arity]

theorem ClassMatch.name {cls cls' : Class} (related : ClassMatch σ w cls cls') :
    cls'.name = cls.name := by
  cases related <;> rfl

theorem ClassMatch.identities {cls cls' : Class} (related : ClassMatch σ w cls cls') :
    w.identities cls.identity cls'.identity := by
  cases related <;> assumption

theorem ClassMatch.findMethod? {cls cls' : Class} (related : ClassMatch σ w cls cls')
    (name : String) :
    Option.Rel (MethodMatch σ w) (cls.findMethod? name) (cls'.findMethod? name) := by
  induction related with
  | root same table => exact table name
  | derived same inherited table ih =>
      have here := table name
      simp only [Class.findMethod?]
      revert here
      generalize Bindings.find? name _ = found
      generalize Bindings.find? name _ = found'
      intro here
      cases here with
      | none => exact ih
      | some method => exact .some method

theorem ClassMatch.arity {cls cls' : Class} (related : ClassMatch σ w cls cls') :
    cls'.arity = cls.arity := by
  have init := related.findMethod? "init"
  unfold Class.arity Class.initializer?
  revert init
  generalize cls.findMethod? "init" = found
  generalize cls'.findMethod? "init" = found'
  intro init
  cases init with
  | none => rfl
  | some method => exact method.arity

namespace ValueMatch

variable {value value' other other' : Value}

theorem text (related : ValueMatch σ w value value') : value'.text = value.text := by
  cases related with
  | closure related =>
      obtain @⟨_, _, _, _, _, t, decl, _, _, _⟩ := related
      simp [Value.text, Closure.name]
  | cls related => exact related.name
  | inst related =>
      obtain ⟨_, ofClass⟩ := related
      simp only [Value.text, ofClass.name]
  | _ => rfl

theorem isTruthy (related : ValueMatch σ w value value') : value'.isTruthy = value.isTruthy := by
  cases related <;> rfl

theorem number? (related : ValueMatch σ w value value') : value'.number? = value.number? := by
  cases related <;> rfl

theorem arity? (related : ValueMatch σ w value value') : value'.arity? = value.arity? := by
  cases related with
  | closure related =>
      obtain @⟨_, _, _, _, _, t, decl, _, _, _⟩ := related
      simp [Value.arity?, Closure.arity]
  | cls related => simp only [Value.arity?, related.arity]
  | _ => rfl

end ValueMatch

theorem beq_eq_beq_of_iff {a a' b b' : Nat} (same : a = b ↔ a' = b') :
    (a' == b') = (a == b) := by
  rw [Bool.eq_iff_iff, beq_iff_eq, beq_iff_eq, same]

/-- Values are equal if and only if their counterparts are. -/
theorem ValueMatch.equals {value value' other other' : Value}
    (related : ValueMatch σ w value value') (relatedOther : ValueMatch σ w other other')
    (identities : ∀ {a a' b b'}, w.identities a a' → w.identities b b' → (a = b ↔ a' = b'))
    (objects : ∀ {a a' b b'}, w.objects a a' → w.objects b b' → (a = b ↔ a' = b')) :
    value'.equals other' = value.equals other := by
  cases related with
  | closure related =>
      cases relatedOther with
      | closure relatedOther =>
          obtain @⟨_, _, _, _, _, t, decl, _, same, _⟩ := related
          obtain @⟨_, _, _, _, _, t', decl', _, same', _⟩ := relatedOther
          exact beq_eq_beq_of_iff (identities same same')
      | _ => rfl
  | cls related =>
      cases relatedOther with
      | cls relatedOther =>
          exact beq_eq_beq_of_iff (identities related.identities relatedOther.identities)
      | _ => rfl
  | inst related =>
      cases relatedOther with
      | inst relatedOther =>
          obtain ⟨same, _⟩ := related
          obtain ⟨same', _⟩ := relatedOther
          exact beq_eq_beq_of_iff (objects same same')
      | _ => rfl
  | _ => cases relatedOther <;> rfl

end Seen

end Lox
