import Lox.Proofs.Parse.Phrases
import Lox.Proofs.Scope.Exactness
import Lox.Proofs.Scope.Respelling

/-!
# What the members of a body see

The body of a block or of a function is a sequence of members.  While analysis is in one of them,
the scope of the body knows the parameters, what the members before have declared, and what this
member has declared so far; of the members behind it knows nothing.
-/

namespace Lox

/-- The names that the members of a body declare in its scope. -/
def declaresAll (stmts : List Stmt) : List String := stmts.flatMap Stmt.declares

/-- Whether a statement declares a function or a class. -/
def Stmt.isDeclaration : Stmt → Bool
  | .classDecl _ _ _ => true
  | .funDecl _ => true
  | _ => false

/-- The parameters and the body that share a scope. -/
def Opener.body? : Opener → Option (List String × List Stmt)
  | .block body => some ([], body)
  | .function decl => some (decl.params.map Token.lexeme, decl.body)
  | _ => none

/-- A scope as it is when something happens in a member of its body. -/
structure OpenScope.StandsIn (scope : OpenScope) (params : List String) (before : List Stmt)
    (member : Stmt) (act : Act) : Prop where
  among : act ∈ member.acts
  knows : ∀ name ∈ params ++ declaresAll before, scope.names.has name = true
  /-- A function and a class are declared before what is in them is looked at. -/
  itself : member.isDeclaration = true → ∀ name ∈ member.declares, scope.names.has name = true
  nothingElse : ∀ name, scope.names.has name = true →
    name ∈ params ++ declaresAll before ∨ name ∈ member.declares

/-- A scope that was opened for a body stands in one of the members of the body. -/
def OpenScope.Follows (act : Act) (scope : OpenScope) : Prop :=
  ∀ params body, scope.site.opener.body? = some (params, body) →
    ∃ before member after, body = before ++ member :: after ∧
      scope.StandsIn params before member act

/-! ## Scopes that learn names -/

/-- The same scopes, except that the innermost one knows further names. -/
inductive Learned (names : List String) : List OpenScope → List OpenScope → Prop where
  | outermost : Learned names [] []
  | inner {scope scope' : OpenScope} (outer : List OpenScope) (same : scope'.site = scope.site)
      (has : ∀ name, scope'.names.has name = (scope.names.has name || decide (name ∈ names))) :
      Learned names (scope :: outer) (scope' :: outer)

namespace Learned

variable {names others : List String} {scopes scopes' scopes'' : List OpenScope}

theorem refl (scopes : List OpenScope) : Learned [] scopes scopes := by
  cases scopes with
  | nil => exact .outermost
  | cons scope outer => exact .inner outer rfl fun name => by simp

theorem trans (first : Learned names scopes scopes') (second : Learned others scopes' scopes'') :
    Learned (names ++ others) scopes scopes'' := by
  cases first with
  | outermost =>
      cases second with
      | outermost => exact .outermost
  | inner outer same has =>
      cases second with
      | inner _ same' has' =>
          refine .inner outer (same'.trans same) fun name => ?_
          rw [has', has]
          simp [Bool.or_assoc]

/-- Whether a name is learned twice makes no difference. -/
theorem congr (learned : Learned names scopes scopes')
    (alike : ∀ name, name ∈ names ↔ name ∈ others) : Learned others scopes scopes' := by
  cases learned with
  | outermost => exact .outermost
  | inner outer same has =>
      refine .inner outer same fun name => ?_
      rw [has, decide_eq_decide.mpr (alike name)]

theorem enter (name : String) (ready : Bool) (p : Spot) :
    Learned [name] p.scopes (p.enter name ready).scopes := by
  unfold Spot.enter
  split
  · next none => rw [none]; exact .outermost
  · next scope outer some =>
      rw [some]
      refine .inner outer rfl fun other => ?_
      rw [Bindings.has, Bindings.find?_insert]
      by_cases same : other = name
      · simp [same]
      · simp [same, Bindings.has]

theorem introduce (name : String) (p : Spot) :
    Learned [name] p.scopes (p.introduce name).scopes :=
  ((enter name false p).trans (enter name true (p.declare name))).congr fun other => by simp

theorem introduceAll (names : List String) (p : Spot) :
    Learned names p.scopes (p.introduceAll names).scopes := by
  induction names generalizing p with
  | nil => exact refl p.scopes
  | cons name names ih => exact (introduce name p).trans (ih (p.introduce name))

end Learned

/-! ## Where names are looked up -/

/-- Something that happens inside of the given scopes, when the innermost has learned the names. -/
def Event.Under (event : Event) (names : List String) (scopes : List OpenScope) : Prop :=
  ∃ inner outer, event.spot.scopes = inner ++ outer ∧ Learned names scopes outer ∧
    ∀ scope ∈ inner, scope.Follows event.act

namespace Event.Under

variable {event : Event} {names others : List String} {scopes scopes' outer : List OpenScope}

theorem here {p : Spot} (at' : event.spot = p) : event.Under [] p.scopes :=
  ⟨[], _, by rw [at']; rfl, .refl _, fun _ none => (List.not_mem_nil none).elim⟩

theorem learned (under : event.Under others scopes') (first : Learned names scopes scopes') :
    event.Under (names ++ others) scopes := by
  obtain ⟨inner, outer, whole, second, each⟩ := under
  exact ⟨inner, outer, whole, first.trans second, each⟩

theorem beneath (under : event.Under [] scopes') (first : Learned names scopes scopes') :
    event.Under names scopes := by
  have learned := under.learned first
  rwa [List.append_nil] at learned

/-- Outside of a scope that was opened for a body, nothing is learned in the body. -/
theorem opened {scope : OpenScope} (under : event.Under names (scope :: outer))
    (follows : ∀ scope' : OpenScope, scope'.site = scope.site →
      (∀ name, scope'.names.has name = (scope.names.has name || decide (name ∈ names))) →
        scope'.Follows event.act) :
    event.Under [] outer := by
  obtain ⟨inner, _, whole, learned, each⟩ := under
  cases learned with
  | @inner _ scope' _ same has =>
      refine ⟨inner ++ [scope'], outer, by rw [whole, List.append_assoc]; rfl, .refl _, ?_⟩
      intro scope'' listed
      rcases List.mem_append.mp listed with among | last
      · exact each scope'' among
      · rw [List.mem_singleton.mp last]
        exact follows scope' same has

/-- A scope that is opened for no body says nothing about members. -/
theorem bodiless {scope : OpenScope} (under : event.Under names (scope :: outer))
    (none : scope.site.opener.body? = none) : event.Under [] outer := by
  refine under.opened fun scope' same _ params body isBody => ?_
  rw [same, none] at isBody
  cases isBody

end Event.Under

/-- Something that happens in a statement, which stands in the given scopes. -/
def Stmt.Contains (stmt : Stmt) (event : Event) (scopes : List OpenScope) : Prop :=
  ∃ names, names ⊆ stmt.declares ∧ (stmt.isDeclaration = true → names = stmt.declares) ∧
    event.Under names scopes

/-- Something that happens in one of the members of a body, of which the scope is the innermost. -/
def BodyContains (stmts : List Stmt) (event : Event) (scopes : List OpenScope) : Prop :=
  ∃ before member after names, stmts = before ++ member :: after ∧ event.act ∈ member.acts ∧
    names ⊆ member.declares ∧ (member.isDeclaration = true → names = member.declares) ∧
      event.Under (declaresAll before ++ names) scopes

namespace Stmt.Contains

variable {stmt : Stmt} {event : Event} {scopes : List OpenScope}

/-- Where nothing has been declared by the statement yet. -/
theorem plain (noDeclaration : stmt.isDeclaration = false) (under : event.Under [] scopes) :
    stmt.Contains event scopes :=
  ⟨[], List.nil_subset _,
    fun isDeclaration => (Bool.false_ne_true (noDeclaration.symm.trans isDeclaration)).elim, under⟩

/-- In a function or in a class, which is declared. -/
theorem declared (under : event.Under stmt.declares scopes) : stmt.Contains event scopes :=
  ⟨stmt.declares, List.Subset.refl _, fun _ => rfl, under⟩

/-- In a part of the statement, behind other parts. -/
theorem part {part : Stmt} {names : List String} {scopes' : List OpenScope}
    (contains : part.Contains event scopes') (learned : Learned names scopes scopes')
    (noDeclaration : stmt.isDeclaration = false)
    (among : names ++ part.declares ⊆ stmt.declares) : stmt.Contains event scopes := by
  obtain ⟨others, within, _, under⟩ := contains
  obtain ⟨first, second⟩ := List.append_subset.mp among
  exact ⟨names ++ others, List.append_subset.mpr ⟨first, List.Subset.trans within second⟩,
    fun isDeclaration => (Bool.false_ne_true (noDeclaration.symm.trans isDeclaration)).elim,
    under.learned learned⟩

end Stmt.Contains

/-- The scope of a body follows its members, whatever is in the scope from the start. -/
theorem BodyContains.closed {params : List String} {body : List Stmt} {event : Event}
    {scope : OpenScope} {outer : List OpenScope}
    (contains : BodyContains body event (scope :: outer))
    (opens : scope.site.opener.body? = some (params, body))
    (starts : ∀ name, scope.names.has name = decide (name ∈ params)) : event.Under [] outer := by
  obtain ⟨before, member, after, names, whole, among, within, exact', under⟩ := contains
  refine under.opened fun scope' same has params' body' isBody => ?_
  rw [same, opens] at isBody
  obtain ⟨rfl, rfl⟩ := Prod.mk.inj (Option.some.inj isBody)
  have knows : ∀ name, scope'.names.has name = true ↔
      name ∈ params ++ declaresAll before ∨ name ∈ names := by
    intro name
    rw [has, starts]
    simp [or_assoc]
  refine ⟨before, member, after, whole, among,
    fun name listed => (knows name).mpr (.inl listed), ?_,
    fun name known => ((knows name).mp known).imp_right fun listed => within listed⟩
  intro isDeclaration name listed
  exact (knows name).mpr (.inr (exact' isDeclaration ▸ listed))

theorem walkParameters_unsought (seen : List String) (p : Spot) (params : List Token) :
    ∀ event ∈ walkParameters seen p params, event.act.sought? = none := by
  induction params generalizing seen p with
  | nil => exact fun _ none => (List.not_mem_nil none).elim
  | cons param params ih => exact List.forall_mem_cons.mpr ⟨rfl, ih _ _⟩

mutual
/-- Where something is looked up in a statement, the scopes that are opened there stand in members
of their bodies. -/
theorem Stmt.contains_walk (path : List Nat) (p : Spot) (stmt : Stmt) :
    ∀ event ∈ stmt.walk path p, event.act.sought?.isSome = true →
      stmt.Contains event p.scopes := by
  intro event walked seeks
  cases stmt with
  | block body =>
      have inside := contains_walkBody path (p.push ⟨.block body, path⟩) 0 body event walked seeks
      exact .plain rfl (inside.closed rfl fun name => by simp [Bindings.has])
  | classDecl name superclass methods =>
      have introduced := Learned.introduce name.lexeme p
      cases superclass with
      | none =>
          rcases List.mem_cons.mp walked with rfl | walked
          · cases seeks
          · have inside := contains_walkMethods path ((p.introduce name.lexeme).inClass .plain) 0
              methods event walked seeks
            exact .declared (inside.beneath introduced)
      | some reference =>
          rcases List.mem_cons.mp walked with rfl | walked
          · cases seeks
          rcases List.mem_cons.mp walked with rfl | walked
          · cases seeks
          rcases List.mem_cons.mp walked with rfl | walked
          · exact .declared ((Event.Under.here rfl).beneath introduced)
          · have inside := contains_walkMethods path
              (((p.introduce name.lexeme).forSuperclass path methods).inClass .derived) 0 methods
              event walked seeks
            exact .declared ((inside.bodiless rfl).beneath introduced)
  | expression expr => exact .plain rfl (.here (expr.walk_spot event walked))
  | funDecl decl =>
      rcases List.mem_cons.mp walked with rfl | walked
      · cases seeks
      · have inside := decl.under_walk path (p.introduce decl.name.lexeme) event walked seeks
        exact .declared (inside.beneath (Learned.introduce decl.name.lexeme p))
  | ifElse condition thenBranch elseBranch =>
      cases elseBranch with
      | none =>
          rcases List.mem_append.mp walked with first | walked
          · exact .plain rfl (.here (condition.walk_spot event first))
          rcases List.mem_cons.mp walked with rfl | walked
          · cases seeks
          · have inside := thenBranch.contains_walk _ p event walked seeks
            exact inside.part (.refl p.scopes) rfl (List.Subset.refl _)
      | some elseBranch =>
          rcases List.mem_append.mp walked with first | walked
          · exact .plain rfl (.here (condition.walk_spot event first))
          rcases List.mem_append.mp walked with walked | walked
          · rcases List.mem_cons.mp walked with rfl | walked
            · cases seeks
            · have inside := thenBranch.contains_walk _ p event walked seeks
              exact inside.part (.refl p.scopes) rfl (List.subset_append_left _ _)
          · rcases List.mem_cons.mp walked with rfl | walked
            · cases seeks
            · have inside := elseBranch.contains_walk _ (p.after thenBranch) event walked seeks
              exact inside.part (Learned.introduceAll thenBranch.declares p) rfl
                (List.Subset.refl _)
  | inclusion pathToken => cases walked
  | print value => exact .plain rfl (.here (value.walk_spot event walked))
  | ret keyword value =>
      rcases List.mem_cons.mp walked with rfl | walked
      · cases seeks
      · exact .plain rfl (.here (walkOptional_spot value event walked))
  | varDecl name init =>
      rcases List.mem_cons.mp walked with rfl | walked
      · cases seeks
      · have here := Event.Under.here (walkOptional_spot init event walked)
        exact .declared (here.beneath (Learned.enter name.lexeme false p))
  | whileLoop condition body =>
      rcases List.mem_append.mp walked with first | walked
      · exact .plain rfl (.here (condition.walk_spot event first))
      rcases List.mem_cons.mp walked with rfl | walked
      · cases seeks
      · have inside := body.contains_walk _ p event walked seeks
        exact inside.part (.refl p.scopes) rfl (List.Subset.refl _)

theorem FunDecl.under_walk (path : List Nat) (p : Spot) (decl : FunDecl) :
    ∀ event ∈ decl.walk path p, event.act.sought?.isSome = true → event.Under [] p.scopes := by
  intro event walked seeks
  obtain ⟨name, params, body⟩ := decl
  rcases List.mem_append.mp walked with first | walked
  · rw [walkParameters_unsought [] _ params event first] at seeks
    cases seeks
  · have contains :=
      contains_walkBody path (p.forBody path ⟨name, params, body⟩) 0 body event walked seeks
    have learned := Learned.introduceAll (params.map Token.lexeme)
      (p.forFunction path ⟨name, params, body⟩)
    generalize opened : (p.forBody path ⟨name, params, body⟩).scopes = scopes at contains
    rw [show (p.forFunction path ⟨name, params, body⟩).introduceAll (params.map Token.lexeme) =
      p.forBody path ⟨name, params, body⟩ from rfl, opened] at learned
    cases learned with
    | @inner _ scope _ same has =>
        have opens : scope.site.opener.body? = some (params.map Token.lexeme, body) := by
          rw [same]
          rfl
        exact contains.closed opens fun name => (has name).trans (by simp [Bindings.has])

theorem contains_walkBody (path : List Nat) (p : Spot) (index : Nat) (stmts : List Stmt) :
    ∀ event ∈ walkBody path p index stmts, event.act.sought?.isSome = true →
      BodyContains stmts event p.scopes := by
  intro event walked seeks
  cases stmts with
  | nil => cases walked
  | cons stmt stmts =>
      rcases List.mem_append.mp walked with first | later
      · obtain ⟨names, within, exact', under⟩ := stmt.contains_walk _ p event first seeks
        have among : event.act ∈ stmt.acts := by
          rw [← stmt.map_act_walk (index :: path) p]
          exact List.mem_map_of_mem first
        exact ⟨[], stmt, stmts, names, rfl, among, within, exact', under⟩
      · obtain ⟨before, member, after, names, rfl, among, within, exact', under⟩ :=
          contains_walkBody path (p.after stmt) (index + 1) stmts event later seeks
        refine ⟨stmt :: before, member, after, names, rfl, among, within, exact', ?_⟩
        have learned := under.learned (Learned.introduceAll stmt.declares p)
        rwa [← List.append_assoc] at learned

theorem contains_walkMethods (path : List Nat) (p : Spot) (index : Nat) (methods : List FunDecl) :
    ∀ event ∈ walkMethods path p index methods, event.act.sought?.isSome = true →
      event.Under [] p.scopes := by
  intro event walked seeks
  cases methods with
  | nil => cases walked
  | cons method methods =>
      rcases List.mem_append.mp walked with first | later
      · have inside :=
          method.under_walk (index :: path) (p.forReceiver path method) event first seeks
        exact inside.bodiless rfl
      · exact contains_walkMethods path p (index + 1) methods event later seeks
end

/-- Wherever something is looked up in a program, the open scopes stand in members of their
bodies. -/
theorem walkProgram_follows {first : Nat} {stmts : List Stmt} {event : Event}
    (walked : event ∈ walkProgram first stmts) (seeks : event.act.sought?.isSome = true) :
    ∀ scope ∈ event.spot.scopes, scope.Follows event.act := by
  obtain ⟨_, _, _, _, _, _, _, _, inner, outer, whole, learned, each⟩ :=
    contains_walkBody [first] .root 0 stmts event walked seeks
  cases learned with
  | outermost =>
      rw [whole, List.append_nil]
      exact each

end Lox
