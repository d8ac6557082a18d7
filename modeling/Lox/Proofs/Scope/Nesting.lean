import Lox.Proofs.Compiled
import Lox.Proofs.Scope.Respelling

/-!
# What holds at all spots of a program

Phrases open scopes inside of those that they stand in, and declarations enter names into them.  A
property of spots that passes inward, from where a phrase stands to where its parts stand, holds
wherever something happens in a program.
-/

namespace Lox

/-! ## Names that are declared -/

/-- All that happens in a phrase is proper to a tree that was read from tokens. -/
abbrev ProperActs (acts : List Act) : Prop := ∀ act ∈ acts, act.Proper

/-- A compiled program was read from tokens. -/
theorem Program.Checked.properActs {first : Nat} {program : Program}
    (checked : program.Checked first) : ProperActs (actsBody program.stmts) := by
  rw [← map_act_walkBody [first] .root 0]
  exact List.forall_mem_map.mpr checked.proper

/-- A name that programs can declare. -/
def IsIdentifier (name : String) : Prop :=
  ∃ token : Token, token.IsOf [.identifier] ∧ token.lexeme = name

theorem Token.IsOf.isIdentifier {token : Token} (isName : token.IsOf [.identifier]) :
    IsIdentifier token.lexeme := ⟨token, isName, rfl⟩

/-- Words of the language cannot be declared. -/
theorem not_isIdentifier {name : String} (isWord : (Kind.ofWord? name.toList).isSome) :
    ¬ IsIdentifier name := by
  rintro ⟨token, isName, rfl⟩
  rw [isName.faithful.unreserved (List.mem_singleton.mp isName.kind)] at isWord
  cases isWord

theorem Stmt.declares_identifiers (stmt : Stmt) (proper : ProperActs stmt.acts) :
    ∀ name ∈ stmt.declares, IsIdentifier name := by
  cases stmt with
  | classDecl name superclass methods =>
      have isName : (Act.define name).Proper := by
        cases superclass <;> exact proper _ List.mem_cons_self
      exact List.forall_mem_singleton.mpr isName.isIdentifier
  | funDecl decl =>
      have isName : (Act.define decl.name).Proper := proper _ List.mem_cons_self
      exact List.forall_mem_singleton.mpr isName.isIdentifier
  | varDecl name init =>
      have isName : (Act.declare name).Proper := proper _ List.mem_cons_self
      exact List.forall_mem_singleton.mpr isName.isIdentifier
  | ifElse condition thenBranch elseBranch =>
      cases elseBranch with
      | none =>
          have alone : thenBranch.declares = [] :=
            proper (.branch thenBranch) (by simp [Stmt.acts])
          simp [Stmt.declares, alone]
      | some elseBranch =>
          have alone : thenBranch.declares = [] :=
            proper (.branch thenBranch) (by simp [Stmt.acts])
          have alone' : elseBranch.declares = [] :=
            proper (.branch elseBranch) (by simp [Stmt.acts])
          simp [Stmt.declares, alone, alone']
  | whileLoop condition body =>
      have alone : body.declares = [] := proper (.branch body) (by simp [Stmt.acts])
      simp [Stmt.declares, alone]
  | _ => simp [Stmt.declares]

/-! ## Properties that pass inward -/

/--
A property of spots that passes to the scopes that are opened there, and stays when names are
declared.  Between a class and its methods there is one for the spots where the methods stand.
-/
structure Spot.PassesInward (P : Spot → Prop) (M : List FunDecl → Spot → Prop) : Prop where
  enter : ∀ {p : Spot} {name : String}, P p → IsIdentifier name → ∀ ready, P (p.enter name ready)
  block : ∀ {p : Spot}, P p → ∀ body path, P (p.push ⟨.block body, path⟩)
  function : ∀ {p : Spot}, P p → ∀ path decl, P (p.forFunction path decl)
  plain : ∀ {p : Spot}, P p → ∀ methods, M methods (p.inClass .plain)
  derived : ∀ {p : Spot}, P p → ∀ path methods,
    M methods ((p.forSuperclass path methods).inClass .derived)
  method : ∀ {p : Spot} (methods : List FunDecl), M methods p → ∀ method ∈ methods, ∀ path path',
    P ((p.forReceiver path method).forFunction path' method)

namespace Spot.PassesInward

variable {P : Spot → Prop} {M : List FunDecl → Spot → Prop} (passes : PassesInward P M) {p : Spot}

include passes

theorem introduce (here : P p) {name : String} (isName : IsIdentifier name) : P (p.introduce name) :=
  passes.enter (passes.enter here isName false) isName true

theorem introduceAll (here : P p) {names : List String}
    (areNames : ∀ name ∈ names, IsIdentifier name) : P (p.introduceAll names) := by
  induction names generalizing p with
  | nil => exact here
  | cons name names ih =>
      obtain ⟨first, rest⟩ := List.forall_mem_cons.mp areNames
      exact ih (passes.introduce here first) rest

theorem after (here : P p) {stmt : Stmt} (proper : ProperActs stmt.acts) : P (p.after stmt) :=
  passes.introduceAll here (stmt.declares_identifiers proper)

omit passes in
theorem walkExpr (here : P p) (expr : Expr) : ∀ event ∈ expr.walk p, P event.spot := by
  intro event walked
  rw [expr.walk_spot event walked]
  exact here

omit passes in
theorem walkOptional (here : P p) (expr : Option Expr) :
    ∀ event ∈ Lox.walkOptional p expr, P event.spot := by
  intro event walked
  rw [walkOptional_spot expr event walked]
  exact here

theorem walkParameters (here : P p) (seen : List String) {params : List Token}
    (proper : ProperActs (actsParameters seen params)) :
    (∀ event ∈ Lox.walkParameters seen p params, P event.spot) ∧
      P (p.introduceAll (params.map Token.lexeme)) := by
  induction params generalizing seen p with
  | nil => exact ⟨fun _ none => (List.not_mem_nil none).elim, here⟩
  | cons param params ih =>
      obtain ⟨isName, rest⟩ := List.forall_mem_cons.mp proper
      have isName : param.IsOf [.identifier] := isName
      obtain ⟨walked, after⟩ := ih (passes.introduce here isName.isIdentifier) _ rest
      exact ⟨List.forall_mem_cons.mpr ⟨here, walked⟩, after⟩

mutual
/-- Whatever happens in a statement that stands at such a spot happens at such spots. -/
theorem walkStmt {path : List Nat} {p : Spot} (here : P p) (stmt : Stmt)
    (proper : ProperActs stmt.acts) : ∀ event ∈ stmt.walk path p, P event.spot := by
  cases stmt with
  | block body => exact walkBody (passes.block here body path) 0 body proper
  | classDecl name superclass methods =>
      have isName : (Act.define name).Proper := by
        cases superclass <;> exact proper _ List.mem_cons_self
      have declared := passes.introduce here isName.isIdentifier
      cases superclass with
      | none =>
          obtain ⟨_, inMethods⟩ := List.forall_mem_cons.mp proper
          exact List.forall_mem_cons.mpr ⟨here,
            walkMethods (passes.plain declared methods) 0 methods (List.Subset.refl _) inMethods⟩
      | some reference =>
          obtain ⟨_, proper⟩ := List.forall_mem_cons.mp proper
          obtain ⟨_, proper⟩ := List.forall_mem_cons.mp proper
          obtain ⟨_, inMethods⟩ := List.forall_mem_cons.mp proper
          refine List.forall_mem_cons.mpr ⟨here, List.forall_mem_cons.mpr ⟨declared,
            List.forall_mem_cons.mpr ⟨declared, ?_⟩⟩⟩
          exact walkMethods (passes.derived declared path methods) 0 methods
            (List.Subset.refl _) inMethods
  | expression expr => exact walkExpr here expr
  | funDecl decl =>
      obtain ⟨isName, inside⟩ := List.forall_mem_cons.mp proper
      have isName : decl.name.IsOf [.identifier] := isName
      have declared := passes.introduce here isName.isIdentifier
      exact List.forall_mem_cons.mpr ⟨here, walkFun decl (passes.function declared path decl) inside⟩
  | ifElse condition thenBranch elseBranch =>
      cases elseBranch with
      | none =>
          obtain ⟨_, proper⟩ := List.forall_mem_append.mp proper
          obtain ⟨_, inThen⟩ := List.forall_mem_cons.mp proper
          exact List.forall_mem_append.mpr ⟨walkExpr here condition,
            List.forall_mem_cons.mpr ⟨here, walkStmt here thenBranch inThen⟩⟩
      | some elseBranch =>
          obtain ⟨_, proper⟩ := List.forall_mem_append.mp proper
          obtain ⟨inThen, inElse⟩ := List.forall_mem_append.mp proper
          obtain ⟨_, inThen⟩ := List.forall_mem_cons.mp inThen
          obtain ⟨_, inElse⟩ := List.forall_mem_cons.mp inElse
          have after := passes.after here inThen
          exact List.forall_mem_append.mpr ⟨walkExpr here condition,
            List.forall_mem_append.mpr
              ⟨List.forall_mem_cons.mpr ⟨here, walkStmt here thenBranch inThen⟩,
                List.forall_mem_cons.mpr ⟨after, walkStmt after elseBranch inElse⟩⟩⟩
  | inclusion pathToken => exact fun _ none => (List.not_mem_nil none).elim
  | print value => exact walkExpr here value
  | ret keyword value => exact List.forall_mem_cons.mpr ⟨here, walkOptional here value⟩
  | varDecl name init =>
      have isName : (Act.declare name).Proper := proper _ List.mem_cons_self
      exact List.forall_mem_cons.mpr
        ⟨here, walkOptional (passes.enter here isName.isIdentifier false) init⟩
  | whileLoop condition body =>
      obtain ⟨_, proper⟩ := List.forall_mem_append.mp proper
      obtain ⟨_, inBody⟩ := List.forall_mem_cons.mp proper
      exact List.forall_mem_append.mpr ⟨walkExpr here condition,
        List.forall_mem_cons.mpr ⟨here, walkStmt here body inBody⟩⟩

theorem walkFun {path : List Nat} {p : Spot} (decl : FunDecl) (inside : P (p.forFunction path decl))
    (proper : ProperActs decl.acts) : ∀ event ∈ decl.walk path p, P event.spot := by
  obtain ⟨name, params, body⟩ := decl
  obtain ⟨inParams, inBody⟩ := List.forall_mem_append.mp proper
  obtain ⟨atParams, within⟩ := passes.walkParameters inside [] inParams
  exact List.forall_mem_append.mpr ⟨atParams, walkBody within 0 body inBody⟩

theorem walkBody {path : List Nat} {p : Spot} (here : P p) (index : Nat) (stmts : List Stmt)
    (proper : ProperActs (actsBody stmts)) :
    ∀ event ∈ Lox.walkBody path p index stmts, P event.spot := by
  cases stmts with
  | nil => exact fun _ none => (List.not_mem_nil none).elim
  | cons stmt stmts =>
      obtain ⟨first, rest⟩ := List.forall_mem_append.mp proper
      exact List.forall_mem_append.mpr ⟨walkStmt here stmt first,
        walkBody (passes.after here first) (index + 1) stmts rest⟩

theorem walkMethods {path : List Nat} {p : Spot} {all : List FunDecl} (ofMethods : M all p)
    (index : Nat) (methods : List FunDecl) (among : methods ⊆ all)
    (proper : ProperActs (actsMethods methods)) :
    ∀ event ∈ Lox.walkMethods path p index methods, P event.spot := by
  cases methods with
  | nil => exact fun _ none => (List.not_mem_nil none).elim
  | cons method methods =>
      obtain ⟨listed, others⟩ := List.cons_subset.mp among
      obtain ⟨first, rest⟩ := List.forall_mem_append.mp proper
      exact List.forall_mem_append.mpr
        ⟨walkFun method (passes.method all ofMethods method listed path (index :: path)) first,
          walkMethods ofMethods (index + 1) methods others rest⟩
end

/-- All that happens in a compiled program happens at such spots. -/
theorem everywhere (root : P .root) {first : Nat} {program : Program}
    (checked : program.Checked first) : ∀ event ∈ program.events first, P event.spot :=
  passes.walkBody root 0 program.stmts checked.properActs

end Spot.PassesInward

/-! ## Names that cannot be declared -/

theorem Bindings.has_single (brought name : String) :
    Bindings.has name [(brought, true)] = (name == brought) := by
  by_cases same : brought = name
  · simp [has, find?, same]
  · simp [has, find?, same, Ne.symm same]

/-- Whether a scope knows the name from the start. -/
def Opener.brings (name : String) : Opener → Bool
  | .receiver _ => name == "this"
  | .superclass _ => name == "super"
  | _ => false

/-- Of the open scopes only those know the name that have known it from the start. -/
def Spot.NoneDeclares (name : String) (p : Spot) : Prop :=
  ∀ scope ∈ p.scopes, scope.names.has name = scope.site.opener.brings name

namespace Spot.NoneDeclares

variable {name : String} {p : Spot}

theorem enter (none : p.NoneDeclares name) {other : String} (different : other ≠ name)
    (ready : Bool) : (p.enter other ready).NoneDeclares name := by
  unfold NoneDeclares Spot.enter
  cases opened : p.scopes with
  | nil =>
      dsimp only
      rw [opened]
      exact fun _ none => (List.not_mem_nil none).elim
  | cons first outer =>
      rw [NoneDeclares, opened] at none
      obtain ⟨here, others⟩ := List.forall_mem_cons.mp none
      refine List.forall_mem_cons.mpr ⟨?_, others⟩
      have same : (first.names.insert other ready).has name = first.names.has name := by
        rw [Bindings.has, Bindings.find?_insert_of_ne different.symm, ← Bindings.has]
      exact same.trans here

/-- A scope that is opened knows nothing, or the one name that it brings. -/
theorem push (none : p.NoneDeclares name) (site : Site) (known : Scope)
    (has : known.has name = site.opener.brings name) (around : Surroundings) :
    Spot.NoneDeclares name ⟨⟨site, known⟩ :: p.scopes, around⟩ :=
  List.forall_mem_cons.mpr ⟨has, none⟩

theorem passesInward (undeclared : ¬ IsIdentifier name) :
    Spot.PassesInward (NoneDeclares name) fun _ => NoneDeclares name where
  enter none isName := none.enter fun same => undeclared (same ▸ isName)
  block none _ _ := none.push _ [] rfl _
  function none _ _ := none.push _ [] rfl _
  plain none _ := none
  derived none path methods :=
    none.push ⟨.superclass methods, path⟩ _ (Bindings.has_single "super" name) _
  method _ none method _ path _ :=
    (none.push ⟨.receiver method, path⟩ _ (Bindings.has_single "this" name) _).push _ [] rfl _

/-- Analysis finds the name in the nearest scope that brings it. -/
theorem hops?_eq (none : p.NoneDeclares name) :
    Analysis.hops? name p.names = p.sites.findIdx? fun site => site.opener.brings name := by
  unfold Analysis.hops? Spot.names Spot.sites
  revert none
  unfold NoneDeclares
  generalize p.scopes = scopes
  intro none
  induction scopes with
  | nil => rfl
  | cons scope scopes ih =>
      obtain ⟨first, rest⟩ := List.forall_mem_cons.mp none
      rw [List.map_cons, List.map_cons, List.findIdx?_cons, List.findIdx?_cons, first, ih rest]

end Spot.NoneDeclares

end Lox
