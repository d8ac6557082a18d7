import Lox.Proofs.Super.Spots

/-!
# Where `this` may stand in a text

Analysis lets `this` pass inside of methods, and nowhere else.  There the scopes that are open are
those of blocks and functions, out to that of the innermost method, and next to it the scope of its
receiver.
-/

namespace Lox

/-- The scopes around a spot that is inside of a method, and of no class within it. -/
def Spot.InBody (p : Spot) : Prop :=
  ∃ inner method path path' outer,
    p.sites = inner ++ ⟨.function method, path⟩ :: ⟨.receiver method, path'⟩ :: outer ∧
    ∀ site ∈ inner, site.opener.isInner = true

/--
A spot where statements or expressions stand, in a method unless it is outside of all classes.
It is never directly in the scope of a receiver.
-/
structure Spot.InClasses (p : Spot) : Prop where
  honest : p.NoneDeclares "this"
  innermost : ∀ site ∈ p.sites.head?, site.opener.isInner = true
  within : p.around.inClass ≠ .outside → p.InBody

namespace Spot

variable {p : Spot}

theorem InBody.push (inBody : p.InBody) {site : Site} (isInner : site.opener.isInner = true)
    (known : Scope) (around : Surroundings) : InBody ⟨⟨site, known⟩ :: p.scopes, around⟩ := by
  obtain ⟨inner, method, path, path', outer, sites, plain⟩ := inBody
  refine ⟨site :: inner, method, path, path', outer, ?_, List.forall_mem_cons.mpr ⟨isInner, plain⟩⟩
  exact congrArg (List.cons site) sites

theorem inClasses_root : Spot.root.InClasses :=
  ⟨fun _ none => (List.not_mem_nil none).elim, nofun, fun inside => absurd rfl inside⟩

theorem inClasses_passesInward : Spot.PassesInward InClasses fun _ p => p.NoneDeclares "this" := by
  have passes := NoneDeclares.passesInward reserved_this.not_isIdentifier
  constructor
  · intro p name inClasses isName ready
    refine ⟨passes.enter inClasses.honest isName ready, ?_, fun inside => ?_⟩
    · rw [enter_sites]
      exact inClasses.innermost
    · rw [enter_around] at inside
      unfold InBody
      rw [enter_sites]
      exact inClasses.within inside
  · intro p inClasses body path
    exact ⟨passes.block inClasses.honest body path, fun _ first => Option.some.inj first ▸ rfl,
      fun inside => (inClasses.within inside).push rfl _ _⟩
  · intro p inClasses path decl
    exact ⟨passes.function inClasses.honest path decl, fun _ first => Option.some.inj first ▸ rfl,
      fun inside => (inClasses.within inside).push rfl _ _⟩
  · exact fun inClasses methods => passes.plain inClasses.honest methods
  · exact fun inClasses path methods => passes.derived inClasses.honest path methods
  · intro p methods none method listed path path'
    refine ⟨passes.method methods none method listed path path',
      fun _ first => Option.some.inj first ▸ rfl, fun _ => ?_⟩
    refine ⟨[], method, path', path, p.sites, ?_, fun _ none => (List.not_mem_nil none).elim⟩
    exact congrArg (List.cons _) (define_sites "this" (p.push ⟨.receiver method, path⟩))

end Spot

/-- All that happens in a compiled program happens at such spots. -/
theorem Program.Checked.inClasses {first : Nat} {program : Program}
    (checked : program.Checked first) : ∀ event ∈ program.events first, event.spot.InClasses :=
  Spot.inClasses_passesInward.everywhere Spot.inClasses_root checked

/-- An event that names `this` and is not at fault stands inside of a class. -/
theorem Event.inClass_of_sound {p : Spot} {keyword : Reference}
    (sound : Event.fault? ⟨p, .this keyword⟩ = none) : p.around.inClass ≠ .outside := by
  intro outside
  simp [fault?, outside] at sound

/-- Analysis finds `this` in the scope next to that of the innermost method. -/
theorem Spot.InClasses.hops?_this {p : Spot} (inClasses : p.InClasses) {inner outer : List Site}
    {method : FunDecl} {path path' : List Nat}
    (sites : p.sites = inner ++ ⟨.function method, path⟩ :: ⟨.receiver method, path'⟩ :: outer)
    (plain : ∀ site ∈ inner, site.opener.isInner = true) :
    Analysis.hops? "this" p.names = some (inner.length + 1) := by
  have none : inner.findIdx? (fun site => site.opener.brings "this") = none := by
    refine List.findIdx?_eq_none_iff.mpr fun site held => ?_
    have inside := plain site held
    revert inside
    cases site.opener <;> simp [Opener.isInner, Opener.brings]
  rw [inClasses.honest.hops?_eq, sites, List.findIdx?_append, none]
  simp [List.findIdx?_cons, Opener.brings]
  omega

end Lox
