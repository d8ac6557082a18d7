import Lox.Proofs.Matching.Itself

/-!
# Counterparts of themselves

Whatever matches something matches itself, if each frame, object, identity and reference that was
paired is taken for its own counterpart.
-/

namespace Lox

/-- All that has a counterpart is its own one. -/
def Pairing.onItself (w : Pairing) : Pairing where
  frames frame frame' := frame' = frame ∧ ∃ other, w.frames frame other
  objects object object' := object' = object ∧ ∃ other, w.objects object other
  identities identity identity' := identity' = identity ∧ ∃ other, w.identities identity other
  references id id' := id' = id ∧ ∃ other, w.references id other

/-- A text that is moved in one way alone. -/
def Twin.onItself (t : Twin .plain) : Twin .plain := ⟨t.left, t.left, t.moves.1, t.moves.1⟩

section Diagonal

variable {w : Pairing}

theorem OneToOne.onItself {R : Nat → Nat → Prop} {bound bound' : Nat}
    (paired : OneToOne R bound bound') :
    OneToOne (fun a a' => a' = a ∧ ∃ other, R a other) bound bound := by
  refine ⟨?_, ?_⟩
  · rintro a _ ⟨rfl, other, related⟩
    exact ⟨(paired.lt related).1, (paired.lt related).1⟩
  · rintro a _ b _ ⟨rfl, _⟩ ⟨rfl, _⟩
    exact Iff.rfl

theorem EnvMatch.onItself {env env' : Env} (envs : EnvMatch w env env') :
    EnvMatch w.onItself env env := by
  unfold EnvMatch at envs ⊢
  revert envs
  generalize env.chain = frames
  generalize env'.chain = frames'
  intro envs
  induction envs with
  | nil => exact .nil
  | cons paired _ ih => exact .cons ⟨rfl, _, paired⟩ ih

theorem Pairing.Covers.onItself {t : Twin .plain} {acts : List Act} (covers : w.Covers t acts) :
    w.onItself.Covers t.onItself acts :=
  fun act held id found => ⟨rfl, _, covers act held id found⟩

theorem ClosureMatch.onItself {closure closure' : Closure}
    (related : ClosureMatch .plain w closure closure') :
    ClosureMatch .plain w.onItself closure closure := by
  obtain @⟨_, _, _, _, _, t, decl, covers, same, envs⟩ := related
  exact .intro t.onItself decl covers.onItself ⟨rfl, _, same⟩ envs.onItself

theorem MethodMatch.onItself {method method' : Method}
    (related : MethodMatch .plain w method method') :
    MethodMatch .plain w.onItself method method := by
  obtain ⟨t, decl, covers, envs⟩ := related
  exact .intro t.onItself decl covers.onItself envs.onItself

theorem TableMatch.onItself {methods methods' : Bindings Method}
    (table : TableMatch .plain w methods methods') :
    TableMatch .plain w.onItself methods methods := by
  intro name
  have related := table name
  revert related
  generalize methods.find? name = found
  generalize methods'.find? name = found'
  intro related
  cases related with
  | none => exact .none
  | some related => exact .some related.onItself

theorem ClassMatch.onItself {cls cls' : Class} (related : ClassMatch .plain w cls cls') :
    ClassMatch .plain w.onItself cls cls := by
  induction related with
  | root same table => exact .root ⟨rfl, _, same⟩ table.onItself
  | derived same _ table ih => exact .derived ⟨rfl, _, same⟩ ih table.onItself

theorem ValueMatch.onItself {value value' : Value} (related : ValueMatch .plain w value value') :
    ValueMatch .plain w.onItself value value := by
  cases related with
  | nil => exact .nil
  | bool b => exact .bool b
  | number x => exact .number x
  | string s => exact .string s
  | native native => exact .native native
  | closure related => exact .closure related.onItself
  | cls related => exact .cls related.onItself
  | inst related =>
      obtain ⟨same, ofClass⟩ := related
      exact .inst (.intro ⟨rfl, _, same⟩ ofClass.onItself)

theorem optionValue_onItself {value? value'? : Option Value}
    (related : Option.Rel (ValueMatch .plain w) value? value'?) :
    Option.Rel (ValueMatch .plain w.onItself) value? value? := by
  cases related with
  | none => exact .none
  | some related => exact .some related.onItself

theorem CoreMatch.onItself {s s' : State} (cores : CoreMatch .plain w s s') :
    CoreMatch .plain w.onItself s s := by
  obtain ⟨⟨globals, frames, objects, identities, values, fields⟩, references, unused, _, _, _⟩ := cores
  refine ⟨⟨⟨rfl, _, globals⟩, frames.onItself, objects.onItself, identities.onItself, ?_, ?_⟩, ?_,
    unused, unused, rfl, rfl⟩
  · rintro frame _ ⟨rfl, _, paired⟩ name
    exact optionValue_onItself (values paired name)
  · rintro object _ ⟨rfl, _, paired⟩ name
    exact optionValue_onItself (fields paired name)
  · rintro id _ ⟨rfl, _, paired⟩
    exact ⟨(references paired).1, (references paired).1, rfl⟩

end Diagonal

end Lox
