import Lox.Proofs.Scope.Nesting

/-!
# Where `super` may stand in a text

Analysis lets `super` pass inside of the methods of a class with a superclass, and nowhere else.
There the scopes that are open are those of blocks and functions, out to that of the innermost
method; around it is the scope of its receiver, and next to this the one that knows `super`.
-/

namespace Lox

/-- The scopes around what stands in a method of a class with a superclass, innermost first. -/
inductive InMethod : List Site → Prop where
  | body {method : FunDecl} {methods : List FunDecl} {path path' path'' : List Nat}
      {outer : List Site} (listed : method ∈ methods) :
      InMethod (⟨.function method, path⟩ :: ⟨.receiver method, path'⟩ ::
        ⟨.superclass methods, path''⟩ :: outer)
  | block {body : List Stmt} {path : List Nat} {sites : List Site} (inside : InMethod sites) :
      InMethod (⟨.block body, path⟩ :: sites)
  | function {decl : FunDecl} {path : List Nat} {sites : List Site} (inside : InMethod sites) :
      InMethod (⟨.function decl, path⟩ :: sites)

def Opener.isSuperclass : Opener → Bool
  | .superclass _ => true
  | _ => false

/-- Whether the scope may be open in a method, inside of the scope of its receiver. -/
def Opener.isInner : Opener → Bool
  | .block _ => true
  | .function _ => true
  | _ => false

/-- Only the scope of a superclass knows `super`. -/
def OpenScope.Honest (scope : OpenScope) : Prop :=
  scope.names.has "super" = scope.site.opener.isSuperclass

/-- A spot where statements or expressions stand. -/
structure Spot.Nested (p : Spot) : Prop where
  honest : ∀ scope ∈ p.scopes, scope.Honest
  within : p.around.inClass = .derived → InMethod p.sites

/-- A spot where the methods of a class stand. -/
structure Spot.OfMethods (methods : List FunDecl) (p : Spot) : Prop where
  honest : ∀ scope ∈ p.scopes, scope.Honest
  within : p.around.inClass = .derived →
    ∃ path outer, p.sites = ⟨.superclass methods, path⟩ :: outer

namespace Spot

variable {p : Spot}

theorem nested_root : Spot.root.Nested :=
  ⟨fun _ none => (List.not_mem_nil none).elim, fun derived => by cases derived⟩

theorem brings_super (opener : Opener) : opener.brings "super" = opener.isSuperclass := by
  cases opener <;> rfl

/-- No declaration enters `super` into a scope. -/
theorem noneDeclares_super (honest : ∀ scope ∈ p.scopes, scope.Honest) : p.NoneDeclares "super" :=
  fun scope held => (honest scope held).trans (brings_super _).symm

theorem NoneDeclares.honest (none : p.NoneDeclares "super") : ∀ scope ∈ p.scopes, scope.Honest :=
  fun scope held => (none scope held).trans (brings_super _)

/-- A method stands in the scope of its receiver. -/
theorem OfMethods.inMethod {methods : List FunDecl} (ofMethods : p.OfMethods methods)
    (derived : p.around.inClass = .derived) {method : FunDecl} (listed : method ∈ methods)
    (path path' : List Nat) :
    InMethod ((p.forReceiver path method).forFunction path' method).sites := by
  obtain ⟨above, outer, sites⟩ := ofMethods.within derived
  have opened : ((p.forReceiver path method).forFunction path' method).sites =
      ⟨.function method, path'⟩ :: ⟨.receiver method, path⟩ :: p.sites :=
    congrArg (List.cons _) (define_sites "this" (p.push ⟨.receiver method, path⟩))
  rw [opened, sites]
  exact .body listed

end Spot

/-! ## Names that are declared -/

/-- A name that no program can declare. -/
def Reserved (name : String) : Prop :=
  ∀ token : Token, token.IsOf [.identifier, .printWord] → token.lexeme ≠ name

theorem reserved_this : Reserved "this" := fun _ isName => isName.lexeme_ne.1

theorem reserved_super : Reserved "super" := fun _ isName => isName.lexeme_ne.2

theorem Reserved.ne_identifier {name : String} (reserved : Reserved name) {token : Token}
    (isName : token.IsOf [.identifier]) : token.lexeme ≠ name :=
  reserved token (isName.mono (by simp))

theorem Reserved.not_isIdentifier {name : String} (reserved : Reserved name) :
    ¬ IsIdentifier name :=
  fun ⟨_, isName, same⟩ => reserved.ne_identifier isName same

/-! ## The walk -/

theorem Spot.nested_passesInward : Spot.PassesInward Nested fun methods => OfMethods methods := by
  have passes := NoneDeclares.passesInward reserved_super.not_isIdentifier
  constructor
  · intro p name nested isName ready
    refine ⟨(passes.enter (noneDeclares_super nested.honest) isName ready).honest, fun derived => ?_⟩
    rw [enter_around] at derived
    rw [enter_sites]
    exact nested.within derived
  · intro p nested body path
    exact ⟨(passes.block (noneDeclares_super nested.honest) body path).honest,
      fun derived => .block (nested.within derived)⟩
  · intro p nested path decl
    exact ⟨(passes.function (noneDeclares_super nested.honest) path decl).honest,
      fun derived => .function (nested.within derived)⟩
  · intro p nested methods
    exact ⟨nested.honest, fun derived => by cases derived⟩
  · intro p nested path methods
    refine ⟨(passes.derived (noneDeclares_super nested.honest) path methods).honest,
      fun _ => ⟨path, p.sites, define_sites "super" (p.push ⟨.superclass methods, path⟩)⟩⟩
  · intro p methods ofMethods method listed path path'
    have none := noneDeclares_super ofMethods.honest
    have around : (p.forReceiver path method).around = p.around :=
      define_around "this" (p.push ⟨.receiver method, path⟩)
    exact ⟨(passes.method methods none method listed path path').honest,
      fun derived => ofMethods.inMethod (around ▸ derived) listed path path'⟩

/-- All that happens in a compiled program happens at such spots. -/
theorem Program.Checked.nested {first : Nat} {program : Program} (checked : program.Checked first) :
    ∀ event ∈ program.events first, event.spot.Nested :=
  Spot.nested_passesInward.everywhere Spot.nested_root checked

/-! ## How far `super` is -/

/-- Inside of a method there are blocks and functions, and nothing else. -/
theorem InMethod.split {sites : List Site} (inMethod : InMethod sites) :
    ∃ inner method methods path path' path'' outer,
      sites = inner ++ ⟨.function method, path⟩ :: ⟨.receiver method, path'⟩ ::
        ⟨.superclass methods, path''⟩ :: outer ∧
      method ∈ methods ∧ ∀ site ∈ inner, site.opener.isInner = true := by
  induction inMethod with
  | body listed => exact ⟨[], _, _, _, _, _, _, rfl, listed, fun _ none => (List.not_mem_nil none).elim⟩
  | block _ ih =>
      obtain ⟨inner, method, methods, path, path', path'', outer, rfl, listed, plain⟩ := ih
      exact ⟨_ :: inner, method, methods, path, path', path'', outer, rfl, listed,
        List.forall_mem_cons.mpr ⟨rfl, plain⟩⟩
  | function _ ih =>
      obtain ⟨inner, method, methods, path, path', path'', outer, rfl, listed, plain⟩ := ih
      exact ⟨_ :: inner, method, methods, path, path', path'', outer, rfl, listed,
        List.forall_mem_cons.mpr ⟨rfl, plain⟩⟩

/-- Analysis finds `super` in the scope of the nearest superclass. -/
theorem Spot.hops?_super {p : Spot} (honest : ∀ scope ∈ p.scopes, scope.Honest) :
    Analysis.hops? "super" p.names = p.sites.findIdx? fun site => site.opener.isSuperclass := by
  simp only [(noneDeclares_super honest).hops?_eq, brings_super]

/-- Where `super` is no fault the nearest method is one of a class with a superclass. -/
theorem Spot.Nested.around_super {p : Spot} (nested : p.Nested)
    (derived : p.around.inClass = .derived) :
    ∃ inner method methods path path' path'' outer,
      p.sites = inner ++ ⟨.function method, path⟩ :: ⟨.receiver method, path'⟩ ::
        ⟨.superclass methods, path''⟩ :: outer ∧
      method ∈ methods ∧ (∀ site ∈ inner, site.opener.isInner = true) ∧
      Analysis.hops? "super" p.names = some (inner.length + 2) := by
  obtain ⟨inner, method, methods, path, path', path'', outer, sites, listed, plain⟩ :=
    (nested.within derived).split
  refine ⟨inner, method, methods, path, path', path'', outer, sites, listed, plain, ?_⟩
  have none : inner.findIdx? (fun site => site.opener.isSuperclass) = none := by
    refine List.findIdx?_eq_none_iff.mpr fun site held => ?_
    have inside := plain site held
    revert inside
    cases site.opener <;> simp [Opener.isInner, Opener.isSuperclass]
  rw [Spot.hops?_super nested.honest, sites, List.findIdx?_append, none]
  simp [List.findIdx?_cons, Opener.isSuperclass]
  omega

/-- An event that names `super` and is not at fault stands in a method of a derived class. -/
theorem Event.derived_of_sound {p : Spot} {keyword : Reference}
    (sound : Event.fault? ⟨p, .super keyword⟩ = none) : p.around.inClass = .derived := by
  unfold fault? at sound
  dsimp only at sound
  split at sound
  · cases sound
  · cases sound
  · assumption

end Lox
