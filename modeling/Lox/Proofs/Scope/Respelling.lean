import Lox.Proofs.Scope.Walk

/-!
# Spelling one name of one scope differently

A respelling gives one name of one scope a new spelling: in the declarations of variables and
parameters that stand in this scope, and in the references and assignments that find the name
there.  It is carried out along the walk of analysis, since only the spot of a reference tells
which scope it finds.
-/

namespace Lox

/-- A new spelling for a name of the scopes at one path. -/
structure Respelling where
  target : List Nat
  old : String
  new : String

namespace Respelling

variable (r : Respelling)

/-- How a name of a scope is spelled. -/
def spell (site : Site) (name : String) : String :=
  if site.path = r.target ∧ name = r.old then r.new else name

/-- The name of a scope that comes to be spelled so, if there is one. -/
def unspell (site : Site) (spelled : String) : Option String :=
  if site.path = r.target then
    if spelled = r.new then some r.old
    else if spelled = r.old then none
    else some spelled
  else some spelled

/-- How a reference to a name is spelled: as in the scope in which it finds it. -/
def spellFound (scopes : List OpenScope) (name : String) : String :=
  match scopes.find? fun scope => scope.names.has name with
  | some scope => r.spell scope.site name
  | none => name

/-- How a declaration of a name is spelled: as in the innermost scope. -/
def spellHere (p : Spot) (name : String) : String :=
  match p.sites with
  | [] => name
  | site :: _ => r.spell site name

def declared (p : Spot) (name : Token) : Token :=
  { name with lexeme := r.spellHere p name.lexeme }

def referred (p : Spot) (reference : Reference) : Reference :=
  { reference with
    name := { reference.name with lexeme := r.spellFound p.scopes reference.name.lexeme } }

/-- The new spelling is another one, and neither is that of a name that no program declares. -/
structure Proper : Prop where
  old_ne_this : r.old ≠ "this"
  old_ne_super : r.old ≠ "super"
  new_ne_this : r.new ≠ "this"
  new_ne_super : r.new ≠ "super"
  differs : r.new ≠ r.old

end Respelling

/-! ## Trees -/

mutual
def Expr.respell (r : Respelling) (p : Spot) : Expr → Expr
  | .assign target value => .assign (r.referred p target) (value.respell r p)
  | .binary left operator right => .binary (left.respell r p) operator (right.respell r p)
  | .call callee paren args => .call (callee.respell r p) paren (respellAll r p args)
  | .get object name => .get (object.respell r p) name
  | .grouping inner => .grouping (inner.respell r p)
  | .literal value => .literal value
  | .logical left operator right => .logical (left.respell r p) operator (right.respell r p)
  | .set object name value => .set (object.respell r p) name (value.respell r p)
  | .super keyword method => .super keyword method
  | .this keyword => .this keyword
  | .unary operator operand => .unary operator (operand.respell r p)
  | .var name => .var (r.referred p name)

def respellAll (r : Respelling) (p : Spot) : List Expr → List Expr
  | [] => []
  | expr :: exprs => expr.respell r p :: respellAll r p exprs
end

def respellOptional (r : Respelling) (p : Spot) : Option Expr → Option Expr
  | none => none
  | some expr => some (expr.respell r p)

mutual
/-- A statement at the end of the given path. -/
def Stmt.respell (r : Respelling) (path : List Nat) (p : Spot) : Stmt → Stmt
  | .block body => .block (respellBody r path (p.push ⟨.block body, path⟩) 0 body)
  | .classDecl name none methods =>
      .classDecl name none
        (respellMethods r path ((p.introduce name.lexeme).inClass .plain) 0 methods)
  | .classDecl name (some reference) methods =>
      .classDecl name (some (r.referred (p.introduce name.lexeme) reference))
        (respellMethods r path
          (((p.introduce name.lexeme).forSuperclass path methods).inClass .derived) 0 methods)
  | .expression expr => .expression (expr.respell r p)
  | .funDecl decl => .funDecl (decl.respell r path (p.introduce decl.name.lexeme))
  | .ifElse condition thenBranch none =>
      .ifElse (condition.respell r p) (thenBranch.respell r (0 :: path) p) none
  | .ifElse condition thenBranch (some elseBranch) =>
      .ifElse (condition.respell r p) (thenBranch.respell r (0 :: path) p)
        (some (elseBranch.respell r (1 :: path) (p.after thenBranch)))
  | .inclusion pathToken => .inclusion pathToken
  | .print value => .print (value.respell r p)
  | .ret keyword value => .ret keyword (respellOptional r p value)
  | .varDecl name init =>
      .varDecl (r.declared p name) (respellOptional r (p.declare name.lexeme) init)
  | .whileLoop condition body =>
      .whileLoop (condition.respell r p) (body.respell r (0 :: path) p)

/-- A function, in the spot that its declaration stands in. -/
def FunDecl.respell (r : Respelling) (path : List Nat) (p : Spot) : FunDecl → FunDecl
  | ⟨name, params, body⟩ =>
      ⟨name, params.map (r.declared (p.forFunction path ⟨name, params, body⟩)),
        respellBody r path (p.forBody path ⟨name, params, body⟩) 0 body⟩

/-- Statements of which the first is the one with the given number in its body. -/
def respellBody (r : Respelling) (path : List Nat) (p : Spot) (index : Nat) :
    List Stmt → List Stmt
  | [] => []
  | stmt :: stmts =>
      stmt.respell r (index :: path) p :: respellBody r path (p.after stmt) (index + 1) stmts

/-- The methods of a class, each with a scope of its own for `this`. -/
def respellMethods (r : Respelling) (path : List Nat) (p : Spot) (index : Nat) :
    List FunDecl → List FunDecl
  | [] => []
  | method :: methods =>
      method.respell r (index :: path) (p.forReceiver path method) ::
        respellMethods r path p (index + 1) methods
end

/-- A whole program, whose paths all end in the given number. -/
def respellProgram (r : Respelling) (first : Nat) (stmts : List Stmt) : List Stmt :=
  respellBody r [first] .root 0 stmts

/-- A function keeps its own name, which belongs to the scope around it. -/
@[simp] theorem FunDecl.respell_name (r : Respelling) (path : List Nat) (p : Spot)
    (decl : FunDecl) : (decl.respell r path p).name = decl.name := by
  obtain ⟨name, params, body⟩ := decl
  rfl

/-! ## Names of one scope -/

namespace Respelling

variable {r : Respelling}

theorem spell_of_ne {site : Site} (elsewhere : site.path ≠ r.target) (name : String) :
    r.spell site name = name := by
  simp [spell, elsewhere]

theorem unspell_of_ne {site : Site} (elsewhere : site.path ≠ r.target) (name : String) :
    r.unspell site name = some name := by
  simp [unspell, elsewhere]

/-- A name that is not the new spelling is the one that is spelled as it comes out. -/
theorem unspell_spell {site : Site} {name : String}
    (allowed : site.path = r.target → name ≠ r.new) :
    r.unspell site (r.spell site name) = some name := by
  by_cases here : site.path = r.target
  · by_cases old : name = r.old
    · simp [spell, unspell, here, old]
    · simp [spell, unspell, here, old, allowed here]
  · rw [spell_of_ne here, unspell_of_ne here]

/-- No two names of a scope come to be spelled alike. -/
theorem eq_spell_of_unspell {site : Site} {spelled name : String}
    (found : r.unspell site spelled = some name) : spelled = r.spell site name := by
  unfold unspell at found
  unfold spell
  split at found
  · next here =>
      split at found
      · next new =>
          cases found
          simp [here, new]
      · split at found
        · cases found
        · next old =>
            cases found
            simp [old]
  · next elsewhere =>
      cases found
      simp [elsewhere]

end Respelling

/--
Two maps of names of one scope correspond: under a name, the second has what the first has under
the name that comes to be spelled so.
-/
def Bindings.Respelled {α β : Type} (R : α → β → Prop) (r : Respelling) (site : Site)
    (b : Bindings α) (b' : Bindings β) : Prop :=
  ∀ spelled, Option.Rel R ((r.unspell site spelled).bind b.find?) (b'.find? spelled)

namespace Bindings.Respelled

variable {α β : Type} {R : α → β → Prop} {r : Respelling} {site : Site}
  {b : Bindings α} {b' : Bindings β}

theorem nil : Respelled R r site [] [] := by
  intro spelled
  cases r.unspell site spelled with
  | none => exact .none
  | some name => exact .none

theorem mono {S : α → β → Prop} (weaker : ∀ x y, R x y → S x y)
    (respelled : Respelled R r site b b') : Respelled S r site b b' := by
  intro spelled
  have found := respelled spelled
  revert found
  generalize (r.unspell site spelled).bind b.find? = x
  generalize b'.find? spelled = y
  intro found
  cases found with
  | some related => exact .some (weaker _ _ related)
  | none => exact .none

/-- What is bound to a name is found under the name as it is spelled. -/
theorem find? (respelled : Respelled R r site b b') {name : String}
    (allowed : site.path = r.target → name ≠ r.new) :
    Option.Rel R (b.find? name) (b'.find? (r.spell site name)) := by
  have found := respelled (r.spell site name)
  rwa [Respelling.unspell_spell allowed] at found

theorem insert (respelled : Respelled R r site b b') {name : String} {x : α} {y : β}
    (allowed : site.path = r.target → name ≠ r.new) (related : R x y) :
    Respelled R r site (b.insert name x) (b'.insert (r.spell site name) y) := by
  intro spelled
  rw [find?_insert]
  by_cases same : spelled = r.spell site name
  · rw [if_pos same, same, Respelling.unspell_spell allowed, Option.bind_some,
      find?_insert_self]
    exact .some related
  · rw [if_neg same]
    have found := respelled spelled
    cases origin : r.unspell site spelled with
    | none =>
        rw [origin] at found
        exact found
    | some other =>
        have different : other ≠ name := by
          rintro rfl
          exact same (Respelling.eq_spell_of_unspell origin)
        rw [origin] at found
        rw [Option.bind_some, find?_insert_of_ne different]
        exact found

end Bindings.Respelled

/-! ## Programs without the scope -/

/-- All open scopes belong to the program whose paths end in the given number. -/
def Spot.Rooted (first : Nat) (p : Spot) : Prop :=
  ∀ site ∈ p.sites, site.path.getLast? = some first

namespace Spot.Rooted

variable {first : Nat} {p : Spot}

theorem root : Spot.root.Rooted first := by
  intro site opened
  cases opened

/-- Being rooted only depends on which scopes are open. -/
theorem of_sites {q : Spot} (rooted : p.Rooted first) (same : q.sites = p.sites) :
    q.Rooted first := by
  unfold Rooted
  rw [same]
  exact rooted

theorem push (rooted : p.Rooted first) {site : Site} (here : site.path.getLast? = some first)
    {q : Spot} (pushed : q.sites = site :: p.sites) : q.Rooted first := by
  intro other opened
  rw [pushed] at opened
  rcases List.mem_cons.mp opened with rfl | outer
  · exact here
  · exact rooted other outer

end Spot.Rooted

/-- A path that goes on ends where it ended. -/
theorem getLast?_path {first : Nat} {path : List Nat} (ends : path.getLast? = some first)
    (index : Nat) : (index :: path).getLast? = some first := by
  rw [List.getLast?_cons, ends]
  rfl

namespace Respelling

variable {r : Respelling} {first : Nat} {p : Spot}

theorem spellHere_of_rooted (rooted : p.Rooted first) (foreign : r.target.getLast? ≠ some first)
    (name : String) : r.spellHere p name = name := by
  unfold spellHere
  split
  · rfl
  · next site outer sites =>
      refine spell_of_ne (fun here => foreign ?_) name
      rw [← here]
      exact rooted site (by simp [sites])

theorem spellFound_of_rooted (rooted : p.Rooted first)
    (foreign : r.target.getLast? ≠ some first) (name : String) :
    r.spellFound p.scopes name = name := by
  unfold spellFound
  split
  · next scope found =>
      refine spell_of_ne (fun here => foreign ?_) name
      rw [← here]
      exact rooted _ (List.mem_map_of_mem (List.mem_of_find?_eq_some found))
  · rfl

theorem declared_of_rooted (rooted : p.Rooted first) (foreign : r.target.getLast? ≠ some first)
    (name : Token) : r.declared p name = name := by
  rw [declared, spellHere_of_rooted rooted foreign]

theorem referred_of_rooted (rooted : p.Rooted first) (foreign : r.target.getLast? ≠ some first)
    (reference : Reference) : r.referred p reference = reference := by
  rw [referred, spellFound_of_rooted rooted foreign]

end Respelling

section Foreign

variable {r : Respelling} {first : Nat}

open Respelling

mutual
theorem Expr.respell_of_rooted {p : Spot} (rooted : p.Rooted first)
    (foreign : r.target.getLast? ≠ some first) (expr : Expr) : expr.respell r p = expr := by
  cases expr with
  | assign target value =>
      rw [Expr.respell, referred_of_rooted rooted foreign, value.respell_of_rooted rooted foreign]
  | binary left operator right =>
      rw [Expr.respell, left.respell_of_rooted rooted foreign,
        right.respell_of_rooted rooted foreign]
  | call callee paren args =>
      rw [Expr.respell, callee.respell_of_rooted rooted foreign,
        respellAll_of_rooted rooted foreign args]
  | get object name => rw [Expr.respell, object.respell_of_rooted rooted foreign]
  | grouping inner => rw [Expr.respell, inner.respell_of_rooted rooted foreign]
  | literal value => rfl
  | logical left operator right =>
      rw [Expr.respell, left.respell_of_rooted rooted foreign,
        right.respell_of_rooted rooted foreign]
  | set object name value =>
      rw [Expr.respell, object.respell_of_rooted rooted foreign,
        value.respell_of_rooted rooted foreign]
  | super keyword method => rfl
  | this keyword => rfl
  | unary operator operand => rw [Expr.respell, operand.respell_of_rooted rooted foreign]
  | var name => rw [Expr.respell, referred_of_rooted rooted foreign]

theorem respellAll_of_rooted {p : Spot} (rooted : p.Rooted first)
    (foreign : r.target.getLast? ≠ some first) (exprs : List Expr) :
    respellAll r p exprs = exprs := by
  cases exprs with
  | nil => rfl
  | cons expr exprs =>
      rw [respellAll, expr.respell_of_rooted rooted foreign,
        respellAll_of_rooted rooted foreign exprs]
end

theorem respellOptional_of_rooted {p : Spot} (rooted : p.Rooted first)
    (foreign : r.target.getLast? ≠ some first) (expr : Option Expr) :
    respellOptional r p expr = expr := by
  cases expr with
  | none => rfl
  | some expr => rw [respellOptional, expr.respell_of_rooted rooted foreign]

mutual
/-- A program that does not have the scope of a respelling is not changed by it. -/
theorem Stmt.respell_of_rooted {path : List Nat} {p : Spot} (ends : path.getLast? = some first)
    (rooted : p.Rooted first) (foreign : r.target.getLast? ≠ some first) (stmt : Stmt) :
    stmt.respell r path p = stmt := by
  cases stmt with
  | block body =>
      rw [Stmt.respell, respellBody_of_rooted ends (rooted.push ends rfl) foreign 0 body]
  | classDecl name superclass methods =>
      cases superclass with
      | none =>
          have inside : ((p.introduce name.lexeme).inClass .plain).Rooted first :=
            rooted.of_sites (p.introduce_sites name.lexeme)
          rw [Stmt.respell, respellMethods_of_rooted ends inside foreign 0 methods]
      | some reference =>
          have declared : (p.introduce name.lexeme).Rooted first :=
            rooted.of_sites (p.introduce_sites name.lexeme)
          have inside :
              (((p.introduce name.lexeme).forSuperclass path methods).inClass .derived).Rooted
                first :=
            declared.push ends (Spot.define_sites _ _)
          rw [Stmt.respell, respellMethods_of_rooted ends inside foreign 0 methods,
            referred_of_rooted declared foreign]
  | expression expr => rw [Stmt.respell, expr.respell_of_rooted rooted foreign]
  | funDecl decl =>
      rw [Stmt.respell,
        decl.respell_of_rooted ends (rooted.of_sites (p.introduce_sites _)) foreign]
  | ifElse condition thenBranch elseBranch =>
      cases elseBranch with
      | none =>
          rw [Stmt.respell, condition.respell_of_rooted rooted foreign,
            thenBranch.respell_of_rooted (getLast?_path ends 0) rooted foreign]
      | some elseBranch =>
          rw [Stmt.respell, condition.respell_of_rooted rooted foreign,
            thenBranch.respell_of_rooted (getLast?_path ends 0) rooted foreign,
            elseBranch.respell_of_rooted (getLast?_path ends 1)
              (rooted.of_sites (p.after_sites thenBranch)) foreign]
  | inclusion pathToken => rfl
  | print value => rw [Stmt.respell, value.respell_of_rooted rooted foreign]
  | ret keyword value => rw [Stmt.respell, respellOptional_of_rooted rooted foreign]
  | varDecl name init =>
      rw [Stmt.respell, declared_of_rooted rooted foreign,
        respellOptional_of_rooted (rooted.of_sites (p.declare_sites _)) foreign]
  | whileLoop condition body =>
      rw [Stmt.respell, condition.respell_of_rooted rooted foreign,
        body.respell_of_rooted (getLast?_path ends 0) rooted foreign]

theorem FunDecl.respell_of_rooted {path : List Nat} {p : Spot}
    (ends : path.getLast? = some first) (rooted : p.Rooted first)
    (foreign : r.target.getLast? ≠ some first) (decl : FunDecl) :
    decl.respell r path p = decl := by
  obtain ⟨name, params, body⟩ := decl
  have inside : (p.forFunction path ⟨name, params, body⟩).Rooted first := rooted.push ends rfl
  have same : params.map (r.declared (p.forFunction path ⟨name, params, body⟩)) = params := by
    rw [List.map_congr_left fun param _ => declared_of_rooted inside foreign param, List.map_id']
  have within : (p.forBody path ⟨name, params, body⟩).Rooted first :=
    rooted.push ends (Spot.forBody_sites path _ p)
  rw [FunDecl.respell, same, respellBody_of_rooted ends within foreign 0 body]

theorem respellBody_of_rooted {path : List Nat} {p : Spot} (ends : path.getLast? = some first)
    (rooted : p.Rooted first) (foreign : r.target.getLast? ≠ some first) (index : Nat)
    (stmts : List Stmt) : respellBody r path p index stmts = stmts := by
  cases stmts with
  | nil => rfl
  | cons stmt stmts =>
      rw [respellBody, stmt.respell_of_rooted (getLast?_path ends index) rooted foreign,
        respellBody_of_rooted ends (rooted.of_sites (p.after_sites stmt)) foreign (index + 1)
          stmts]

theorem respellMethods_of_rooted {path : List Nat} {p : Spot}
    (ends : path.getLast? = some first) (rooted : p.Rooted first)
    (foreign : r.target.getLast? ≠ some first) (index : Nat) (methods : List FunDecl) :
    respellMethods r path p index methods = methods := by
  cases methods with
  | nil => rfl
  | cons method methods =>
      have inside : (p.forReceiver path method).Rooted first :=
        rooted.push ends (Spot.define_sites _ _)
      rw [respellMethods, method.respell_of_rooted (getLast?_path ends index) inside foreign,
        respellMethods_of_rooted ends rooted foreign (index + 1) methods]
end

end Foreign

/-! ## Where the events of a walk stand -/

mutual
/-- All that happens in an expression happens at its spot. -/
theorem Expr.walk_spot {p : Spot} (expr : Expr) : ∀ event ∈ expr.walk p, event.spot = p := by
  intro event walked
  cases expr with
  | assign target value =>
      rcases List.mem_append.mp walked with inner | last
      · exact value.walk_spot event inner
      · rw [List.mem_singleton.mp last]
  | binary left operator right =>
      rcases List.mem_append.mp walked with inner | inner
      · exact left.walk_spot event inner
      · exact right.walk_spot event inner
  | call callee paren args =>
      rcases List.mem_append.mp walked with inner | inner
      · exact callee.walk_spot event inner
      · exact walkAll_spot args event inner
  | get object name => exact object.walk_spot event walked
  | grouping inner => exact inner.walk_spot event walked
  | literal value => cases walked
  | logical left operator right =>
      rcases List.mem_append.mp walked with inner | inner
      · exact left.walk_spot event inner
      · exact right.walk_spot event inner
  | set object name value =>
      rcases List.mem_append.mp walked with inner | inner
      · exact value.walk_spot event inner
      · exact object.walk_spot event inner
  | super keyword method => rw [List.mem_singleton.mp walked]
  | this keyword => rw [List.mem_singleton.mp walked]
  | unary operator operand => exact operand.walk_spot event walked
  | var name => rw [List.mem_singleton.mp walked]

theorem walkAll_spot {p : Spot} (exprs : List Expr) :
    ∀ event ∈ walkAll p exprs, event.spot = p := by
  intro event walked
  cases exprs with
  | nil => cases walked
  | cons expr exprs =>
      rcases List.mem_append.mp walked with inner | inner
      · exact expr.walk_spot event inner
      · exact walkAll_spot exprs event inner
end

theorem walkOptional_spot {p : Spot} (expr : Option Expr) :
    ∀ event ∈ walkOptional p expr, event.spot = p := by
  cases expr with
  | none => exact fun event walked => by cases walked
  | some expr => exact expr.walk_spot

theorem walkParameters_sites {p : Spot} (seen : List String) (params : List Token) :
    ∀ event ∈ walkParameters seen p params, event.spot.sites = p.sites := by
  induction params generalizing seen p with
  | nil => exact fun event walked => by cases walked
  | cons param params ih =>
      intro event walked
      rcases List.mem_cons.mp walked with rfl | later
      · rfl
      · rw [ih _ event later, Spot.introduce_sites]

/-- Each parameter is declared in its walk. -/
theorem exists_walkParameters {p : Spot} (seen : List String) {params : List Token}
    {param : Token} (listed : param ∈ params) :
    ∃ event ∈ walkParameters seen p params, ∃ before, event.act = .parameter before param := by
  induction params generalizing seen p with
  | nil => cases listed
  | cons first params ih =>
      rcases List.mem_cons.mp listed with rfl | later
      · exact ⟨_, List.mem_cons_self, seen, rfl⟩
      · obtain ⟨event, walked, act⟩ := ih (first.lexeme :: seen) (p := p.introduce first.lexeme) later
        exact ⟨event, List.mem_cons_of_mem _ walked, act⟩

section Rooted

variable {first : Nat}

mutual
/-- All that happens in a phrase of a program happens in scopes of that program. -/
theorem Stmt.walk_rooted {path : List Nat} {p : Spot} (ends : path.getLast? = some first)
    (rooted : p.Rooted first) (stmt : Stmt) :
    ∀ event ∈ stmt.walk path p, event.spot.Rooted first := by
  have atExpr : ∀ {q : Spot} (expr : Expr), q.Rooted first →
      ∀ event ∈ expr.walk q, event.spot.Rooted first := by
    intro q expr inside event walked
    rw [expr.walk_spot event walked]
    exact inside
  have atOptional : ∀ {q : Spot} (expr : Option Expr), q.Rooted first →
      ∀ event ∈ walkOptional q expr, event.spot.Rooted first := by
    intro q expr inside event walked
    rw [walkOptional_spot expr event walked]
    exact inside
  intro event walked
  cases stmt with
  | block body => exact walkBody_rooted ends (rooted.push ends rfl) 0 body event walked
  | classDecl name superclass methods =>
      have declared : (p.introduce name.lexeme).Rooted first :=
        rooted.of_sites (p.introduce_sites name.lexeme)
      cases superclass with
      | none =>
          have inside : ((p.introduce name.lexeme).inClass .plain).Rooted first := declared
          rcases List.mem_cons.mp walked with rfl | inner
          · exact rooted
          · exact walkMethods_rooted ends inside 0 methods event inner
      | some reference =>
          have inside :
              (((p.introduce name.lexeme).forSuperclass path methods).inClass .derived).Rooted
                first :=
            declared.push ends (Spot.define_sites _ _)
          rcases List.mem_cons.mp walked with rfl | walked
          · exact rooted
          rcases List.mem_cons.mp walked with rfl | walked
          · exact declared
          rcases List.mem_cons.mp walked with rfl | walked
          · exact declared
          exact walkMethods_rooted ends inside 0 methods event walked
  | expression expr => exact atExpr expr rooted event walked
  | funDecl decl =>
      rcases List.mem_cons.mp walked with rfl | inner
      · exact rooted
      · exact decl.walk_rooted ends (rooted.of_sites (p.introduce_sites _)) event inner
  | ifElse condition thenBranch elseBranch =>
      have inThen := thenBranch.walk_rooted (getLast?_path ends 0) rooted
      have after : (p.after thenBranch).Rooted first := rooted.of_sites (p.after_sites thenBranch)
      cases elseBranch with
      | none =>
          rcases List.mem_append.mp walked with inner | walked
          · exact atExpr condition rooted event inner
          rcases List.mem_cons.mp walked with rfl | inner
          · exact rooted
          · exact inThen event inner
      | some elseBranch =>
          rcases List.mem_append.mp walked with inner | walked
          · exact atExpr condition rooted event inner
          rcases List.mem_append.mp walked with walked | walked
          · rcases List.mem_cons.mp walked with rfl | inner
            · exact rooted
            · exact inThen event inner
          · rcases List.mem_cons.mp walked with rfl | inner
            · exact after
            · exact elseBranch.walk_rooted (getLast?_path ends 1) after event inner
  | inclusion pathToken => cases walked
  | print value => exact atExpr value rooted event walked
  | ret keyword value =>
      rcases List.mem_cons.mp walked with rfl | inner
      · exact rooted
      · exact atOptional value rooted event inner
  | varDecl name init =>
      rcases List.mem_cons.mp walked with rfl | inner
      · exact rooted
      · exact atOptional init (rooted.of_sites (p.declare_sites _)) event inner
  | whileLoop condition body =>
      rcases List.mem_append.mp walked with inner | walked
      · exact atExpr condition rooted event inner
      rcases List.mem_cons.mp walked with rfl | inner
      · exact rooted
      · exact body.walk_rooted (getLast?_path ends 0) rooted event inner

theorem FunDecl.walk_rooted {path : List Nat} {p : Spot} (ends : path.getLast? = some first)
    (rooted : p.Rooted first) (decl : FunDecl) :
    ∀ event ∈ decl.walk path p, event.spot.Rooted first := by
  obtain ⟨name, params, body⟩ := decl
  have inside : (p.forFunction path ⟨name, params, body⟩).Rooted first := rooted.push ends rfl
  have within : (p.forBody path ⟨name, params, body⟩).Rooted first :=
    rooted.push ends (Spot.forBody_sites path _ p)
  intro event walked
  rcases List.mem_append.mp walked with atParam | inner
  · exact inside.of_sites (walkParameters_sites [] params event atParam)
  · exact walkBody_rooted ends within 0 body event inner

theorem walkBody_rooted {path : List Nat} {p : Spot} (ends : path.getLast? = some first)
    (rooted : p.Rooted first) (index : Nat) (stmts : List Stmt) :
    ∀ event ∈ walkBody path p index stmts, event.spot.Rooted first := by
  intro event walked
  cases stmts with
  | nil => cases walked
  | cons stmt stmts =>
      rcases List.mem_append.mp walked with inner | later
      · exact stmt.walk_rooted (getLast?_path ends index) rooted event inner
      · exact walkBody_rooted ends (rooted.of_sites (p.after_sites stmt)) (index + 1) stmts event
          later

theorem walkMethods_rooted {path : List Nat} {p : Spot} (ends : path.getLast? = some first)
    (rooted : p.Rooted first) (index : Nat) (methods : List FunDecl) :
    ∀ event ∈ walkMethods path p index methods, event.spot.Rooted first := by
  intro event walked
  cases methods with
  | nil => cases walked
  | cons method methods =>
      have inside : (p.forReceiver path method).Rooted first :=
        rooted.push ends (Spot.define_sites _ _)
      rcases List.mem_append.mp walked with inner | later
      · exact method.walk_rooted (getLast?_path ends index) inside event inner
      · exact walkMethods_rooted ends rooted (index + 1) methods event later
end

end Rooted

end Lox
