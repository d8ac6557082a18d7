import Lox.Proofs.Scope.Members

/-!
# Where names are declared

A declaration enters its name into the innermost scope.  If that was opened for a body, the name is
one of those that the members of the body declare.
-/

namespace Lox

/-- The name that is entered into the innermost scope. -/
def Act.entered? : Act → Option String
  | .declare name => some name.lexeme
  | .define name => some name.lexeme
  | _ => none

/-- If the innermost scope was opened for a body, the body declares the name. -/
def DeclaredIn (name : String) (sites : List Site) : Prop :=
  ∀ site ∈ sites.head?, ∀ params body, site.opener.body? = some (params, body) →
    name ∈ declaresAll body

theorem DeclaredIn.opened {name : String} {site : Site} {sites : List Site} {params : List String}
    {body : List Stmt} (isBody : site.opener.body? = some (params, body))
    (declared : name ∈ declaresAll body) : DeclaredIn name (site :: sites) := by
  intro other isSite params' body' isBody'
  cases isSite
  rw [isBody] at isBody'
  cases isBody'
  exact declared

/-- Something that enters a name, if at all, as one of the given ones in the given scopes, or into a
scope of a body which declares it. -/
def Event.Enters (event : Event) (names : List String) (sites : List Site) : Prop :=
  ∀ name, event.act.entered? = some name →
    (event.spot.sites = sites ∧ name ∈ names) ∨ DeclaredIn name event.spot.sites

namespace Event.Enters

variable {event : Event} {names others : List String} {sites : List Site}

theorem none (entersNone : event.act.entered? = Option.none) : event.Enters names sites := by
  intro name enters
  rw [entersNone] at enters
  cases enters

theorem mono (enters : event.Enters names sites) (more : names ⊆ others) :
    event.Enters others sites :=
  fun name entered => (enters name entered).imp_left fun here => ⟨here.1, more here.2⟩

/-- In a scope that was opened for a body. -/
theorem closed {site : Site} {params : List String} {body : List Stmt}
    (enters : event.Enters (declaresAll body) (site :: sites))
    (isBody : site.opener.body? = some (params, body)) {around : List Site} :
    event.Enters others around := by
  intro name entered
  rcases enters name entered with ⟨here, declared⟩ | inside
  · exact .inr (here ▸ .opened isBody declared)
  · exact .inr inside

end Event.Enters

mutual
theorem Expr.entersNone_walk (p : Spot) (expr : Expr) :
    ∀ event ∈ expr.walk p, event.act.entered? = none := by
  cases expr with
  | assign target value =>
      exact List.forall_mem_append.mpr
        ⟨value.entersNone_walk p, List.forall_mem_singleton.mpr rfl⟩
  | binary left operator right =>
      exact List.forall_mem_append.mpr ⟨left.entersNone_walk p, right.entersNone_walk p⟩
  | call callee paren args =>
      exact List.forall_mem_append.mpr ⟨callee.entersNone_walk p, entersNone_walkAll p args⟩
  | get object name => exact object.entersNone_walk p
  | grouping inner => exact inner.entersNone_walk p
  | literal value => exact List.forall_mem_nil _
  | logical left operator right =>
      exact List.forall_mem_append.mpr ⟨left.entersNone_walk p, right.entersNone_walk p⟩
  | set object name value =>
      exact List.forall_mem_append.mpr ⟨value.entersNone_walk p, object.entersNone_walk p⟩
  | super keyword name => exact List.forall_mem_singleton.mpr rfl
  | this keyword => exact List.forall_mem_singleton.mpr rfl
  | unary operator operand => exact operand.entersNone_walk p
  | var name => exact List.forall_mem_singleton.mpr rfl

theorem entersNone_walkAll (p : Spot) (exprs : List Expr) :
    ∀ event ∈ walkAll p exprs, event.act.entered? = none := by
  cases exprs with
  | nil => exact List.forall_mem_nil _
  | cons expr exprs =>
      exact List.forall_mem_append.mpr ⟨expr.entersNone_walk p, entersNone_walkAll p exprs⟩
end

theorem entersNone_walkOptional (p : Spot) (expr : Option Expr) :
    ∀ event ∈ walkOptional p expr, event.act.entered? = none := by
  cases expr with
  | none => exact List.forall_mem_nil _
  | some expr => exact expr.entersNone_walk p

theorem entersNone_walkParameters (seen : List String) (p : Spot) (params : List Token) :
    ∀ event ∈ walkParameters seen p params, event.act.entered? = none := by
  induction params generalizing seen p with
  | nil => exact List.forall_mem_nil _
  | cons param params ih => exact List.forall_mem_cons.mpr ⟨rfl, ih _ _⟩

/-- A declaration enters its own name where it stands. -/
theorem Event.enters_here {p : Spot} {act : Act} {name : String}
    (enters : act.entered? = some name) : Event.Enters ⟨p, act⟩ [name] p.sites := by
  intro other entered
  rw [enters] at entered
  cases entered
  exact .inl ⟨rfl, List.mem_singleton_self name⟩

mutual
/-- A statement enters the names that it declares into the scope that it stands in, and other names
into scopes of bodies that declare them. -/
theorem Stmt.enters_walk (path : List Nat) (p : Spot) (stmt : Stmt) :
    ∀ event ∈ stmt.walk path p, event.Enters stmt.declares p.sites := by
  cases stmt with
  | block body =>
      intro event walked
      exact (enters_walkBody path (p.push ⟨.block body, path⟩) 0 body event walked).closed rfl
  | classDecl name superclass methods =>
      cases superclass with
      | none =>
          refine List.forall_mem_cons.mpr ⟨Event.enters_here rfl, fun event walked => ?_⟩
          exact enters_walkMethods path _ 0 methods event walked
      | some reference =>
          refine List.forall_mem_cons.mpr ⟨Event.enters_here rfl,
            List.forall_mem_cons.mpr ⟨.none rfl, List.forall_mem_cons.mpr ⟨.none rfl, ?_⟩⟩⟩
          exact fun event walked => enters_walkMethods path _ 0 methods event walked
  | expression expr => exact fun event walked => .none (expr.entersNone_walk p event walked)
  | funDecl decl =>
      refine List.forall_mem_cons.mpr ⟨Event.enters_here rfl, fun event walked => ?_⟩
      exact decl.enters_walk path _ event walked
  | ifElse condition thenBranch elseBranch =>
      cases elseBranch with
      | none =>
          refine List.forall_mem_append.mpr
            ⟨fun event walked => .none (condition.entersNone_walk p event walked),
              List.forall_mem_cons.mpr ⟨.none rfl, ?_⟩⟩
          exact thenBranch.enters_walk _ p
      | some elseBranch =>
          refine List.forall_mem_append.mpr
            ⟨fun event walked => .none (condition.entersNone_walk p event walked),
              List.forall_mem_append.mpr ⟨List.forall_mem_cons.mpr ⟨.none rfl, ?_⟩,
                List.forall_mem_cons.mpr ⟨.none rfl, ?_⟩⟩⟩
          · exact fun event walked =>
              (thenBranch.enters_walk _ p event walked).mono (List.subset_append_left _ _)
          · intro event walked
            have enters := elseBranch.enters_walk _ (p.after thenBranch) event walked
            rw [Spot.after, Spot.introduceAll_sites] at enters
            exact enters.mono (List.subset_append_right _ _)
  | inclusion pathToken => exact List.forall_mem_nil _
  | print value => exact fun event walked => .none (value.entersNone_walk p event walked)
  | ret keyword value =>
      refine List.forall_mem_cons.mpr ⟨.none rfl, fun event walked => ?_⟩
      exact .none (entersNone_walkOptional p value event walked)
  | varDecl name init =>
      refine List.forall_mem_cons.mpr ⟨Event.enters_here rfl, fun event walked => ?_⟩
      exact .none (entersNone_walkOptional _ init event walked)
  | whileLoop condition body =>
      refine List.forall_mem_append.mpr
        ⟨fun event walked => .none (condition.entersNone_walk p event walked),
          List.forall_mem_cons.mpr ⟨.none rfl, ?_⟩⟩
      exact body.enters_walk _ p

theorem FunDecl.enters_walk (path : List Nat) (p : Spot) (decl : FunDecl) {names : List String}
    {sites : List Site} : ∀ event ∈ decl.walk path p, event.Enters names sites := by
  obtain ⟨name, params, body⟩ := decl
  refine List.forall_mem_append.mpr
    ⟨fun event walked => .none (entersNone_walkParameters _ _ params event walked), ?_⟩
  intro event walked
  have enters := enters_walkBody path (p.forBody path ⟨name, params, body⟩) 0 body event walked
  rw [Spot.forBody, Spot.introduceAll_sites] at enters
  have inBody : event.Enters (declaresAll body)
      (⟨.function ⟨name, params, body⟩, path⟩ :: p.sites) := enters
  exact inBody.closed rfl

theorem enters_walkBody (path : List Nat) (p : Spot) (index : Nat) (stmts : List Stmt) :
    ∀ event ∈ walkBody path p index stmts, event.Enters (declaresAll stmts) p.sites := by
  cases stmts with
  | nil => exact List.forall_mem_nil _
  | cons stmt stmts =>
      refine List.forall_mem_append.mpr ⟨fun event walked => ?_, fun event walked => ?_⟩
      · exact (stmt.enters_walk _ p event walked).mono (List.subset_append_left _ _)
      · have enters := enters_walkBody path (p.after stmt) (index + 1) stmts event walked
        rw [Spot.after, Spot.introduceAll_sites] at enters
        exact enters.mono (List.subset_append_right _ _)

theorem enters_walkMethods (path : List Nat) (p : Spot) (index : Nat) (methods : List FunDecl)
    {names : List String} {sites : List Site} :
    ∀ event ∈ walkMethods path p index methods, event.Enters names sites := by
  cases methods with
  | nil => exact List.forall_mem_nil _
  | cons method methods =>
      refine List.forall_mem_append.mpr ⟨?_, ?_⟩
      · exact method.enters_walk _ _
      · exact enters_walkMethods path p (index + 1) methods
end

/-- All that is declared in the body of a program is declared by it. -/
theorem declaredIn_of_walkProgram {first : Nat} {stmts : List Stmt} {event : Event} {name : String}
    (walked : event ∈ walkProgram first stmts) (entered : event.act.entered? = some name) :
    DeclaredIn name event.spot.sites := by
  rcases enters_walkBody [first] .root 0 stmts event walked name entered with ⟨here, _⟩ | inside
  · rw [here]
    exact fun site isSite => by cases isSite
  · exact inside

end Lox
