import Lox.Scope

/-!
# The walk of analysis, as a list of events

What analysis decides at one node of a tree depends on the spot of the node alone: the scopes
that are open there, with the names they know by then, and what is around it.  A walk lists what
happens, in the order of the walk, each with its spot.  Analysis records exactly the distances
and the faults of the events of its walk, and leaves the scopes of the spot where it ends.

Scopes of one program are told apart by the path to the phrase that opens them.
-/

namespace Lox

/-- What opens a scope in a text, and a frame at run time. -/
inductive Opener where
  | globals
  | block (body : List Stmt)
  | function (decl : FunDecl)
  /-- The scope that holds `this` around a method. -/
  | receiver (method : FunDecl)
  /-- The scope that holds `super` around the methods of a class. -/
  | superclass (methods : List FunDecl)

/-- One scope of a program: what opens it, and the path to it, the last step first. -/
structure Site where
  opener : Opener
  path : List Nat

/-- An open scope, with the names that it knows so far. -/
structure OpenScope where
  site : Site
  names : Scope

/-- A spot in the walk of a program: the open scopes, innermost first, and what is around it. -/
structure Spot where
  scopes : List OpenScope
  around : Surroundings

namespace Spot

/-- The spot of a whole program. -/
def root : Spot := ⟨[], .topLevel⟩

/-- The names of the open scopes, as analysis keeps them. -/
def names (p : Spot) : List Scope := p.scopes.map OpenScope.names

def sites (p : Spot) : List Site := p.scopes.map OpenScope.site

def push (site : Site) (p : Spot) : Spot := { p with scopes := ⟨site, []⟩ :: p.scopes }

/-- Enter a name into the innermost scope, if there is one. -/
def enter (name : String) (ready : Bool) (p : Spot) : Spot :=
  match p.scopes with
  | [] => p
  | scope :: outer =>
      { p with scopes := { scope with names := scope.names.insert name ready } :: outer }

def declare (name : String) (p : Spot) : Spot := p.enter name false

def define (name : String) (p : Spot) : Spot := p.enter name true

def introduce (name : String) (p : Spot) : Spot := (p.declare name).define name

def introduceAll (names : List String) (p : Spot) : Spot :=
  names.foldl (fun spot name => spot.introduce name) p

/-- Whether the innermost scope knows the name but its initializer is not over. -/
def isUnready (name : String) (p : Spot) : Bool :=
  match p.scopes with
  | [] => false
  | scope :: _ => scope.names.find? name == some false

/-- The spot with the given kind of class around it. -/
def inClass (kind : ClassSurroundings) (p : Spot) : Spot :=
  { p with around := { p.around with inClass := kind } }

/-- The scope around one method that holds its `this`. -/
def forReceiver (path : List Nat) (method : FunDecl) (p : Spot) : Spot :=
  (p.push ⟨.receiver method, path⟩).define "this"

/-- The scope around the methods of a class that holds their `super`. -/
def forSuperclass (path : List Nat) (methods : List FunDecl) (p : Spot) : Spot :=
  (p.push ⟨.superclass methods, path⟩).define "super"

/-- The scope of a function, before its parameters are known. -/
def forFunction (path : List Nat) (decl : FunDecl) (p : Spot) : Spot :=
  { p.push ⟨.function decl, path⟩ with around := { p.around with inFunction := true } }

/-- The spot in the body of a function. -/
def forBody (path : List Nat) (decl : FunDecl) (p : Spot) : Spot :=
  (p.forFunction path decl).introduceAll (decl.params.map Token.lexeme)

end Spot

/-- What happens at one point of a walk. -/
inductive Act where
  | read (reference : Reference)
  | assign (target : Reference)
  | this (keyword : Reference)
  | super (keyword : Reference)
  /-- A class names its superclass. -/
  | inherit (name : Token) (superclass : Reference)
  /-- A variable is declared. -/
  | declare (name : Token)
  /-- A function or a class is declared. -/
  | define (name : Token)
  /-- A parameter is declared, after those `seen` before. -/
  | parameter (seen : List String) (param : Token)
  | ret (keyword : Token)
  /-- A statement stands by itself, as a branch or as the body of a loop. -/
  | branch (stmt : Stmt)

/-- The reference that is looked up and the name under which it is sought. -/
def Act.sought? : Act → Option (Reference × String)
  | .read reference => some (reference, reference.name.lexeme)
  | .assign target => some (target, target.name.lexeme)
  | .this keyword => some (keyword, "this")
  | .super keyword => some (keyword, "super")
  | _ => none

structure Event where
  spot : Spot
  act : Act

namespace Event

/-- What is wrong with an event at its spot. -/
def fault? (event : Event) : Option Error :=
  match event.act with
  | .read reference =>
      if event.spot.isUnready reference.name.lexeme then
        some (.staticAt reference.name .ownInitializer)
      else none
  | .this keyword =>
      match event.spot.around.inClass with
      | .outside => some (.staticAt keyword.name .thisOutsideClass)
      | _ => none
  | .super keyword =>
      match event.spot.around.inClass with
      | .outside => some (.staticAt keyword.name .superOutsideClass)
      | .plain => some (.staticAt keyword.name .superWithoutSuperclass)
      | .derived => none
  | .inherit name superclass =>
      if superclass.name.lexeme = name.lexeme then
        some (.staticAt superclass.name .inheritsFromItself)
      else none
  | .parameter seen param =>
      if param.lexeme ∈ seen then some (.staticAt param (.duplicateParameter param.lexeme))
      else none
  | .ret keyword =>
      if event.spot.around.inFunction then none else some (.staticAt keyword .topLevelReturn)
  | _ => none

/-- How many scopes are to be left for the one that knows the sought name. -/
def distance? (event : Event) : Option Nat :=
  event.act.sought?.bind fun sought => Analysis.hops? sought.2 event.spot.names

/-- The entry that a sound event makes in the table of distances. -/
def hop? (event : Event) : Option (Nat × Nat) :=
  if event.fault?.isSome then none
  else
    event.act.sought?.bind fun sought => event.distance?.map fun distance => (sought.1.id, distance)

end Event

/-! ## Walks -/

mutual
def Expr.walk (p : Spot) : Expr → List Event
  | .assign target value => value.walk p ++ [⟨p, .assign target⟩]
  | .binary left _ right => left.walk p ++ right.walk p
  | .call callee _ args => callee.walk p ++ walkAll p args
  | .get object _ => object.walk p
  | .grouping inner => inner.walk p
  | .literal _ => []
  | .logical left _ right => left.walk p ++ right.walk p
  | .set object _ value => value.walk p ++ object.walk p
  | .super keyword _ => [⟨p, .super keyword⟩]
  | .this keyword => [⟨p, .this keyword⟩]
  | .unary _ operand => operand.walk p
  | .var name => [⟨p, .read name⟩]

def walkAll (p : Spot) : List Expr → List Event
  | [] => []
  | expr :: exprs => expr.walk p ++ walkAll p exprs
end

def walkOptional (p : Spot) : Option Expr → List Event
  | none => []
  | some expr => expr.walk p

/-- The parameters that are left, after those `seen`. -/
def walkParameters (seen : List String) (p : Spot) : List Token → List Event
  | [] => []
  | param :: params =>
      ⟨p, .parameter seen param⟩ ::
        walkParameters (param.lexeme :: seen) (p.introduce param.lexeme) params

/-- The names that a statement enters into the scope that it stands in. -/
def Stmt.declares : Stmt → List String
  | .classDecl name _ _ => [name.lexeme]
  | .funDecl decl => [decl.name.lexeme]
  | .ifElse _ thenBranch none => thenBranch.declares
  | .ifElse _ thenBranch (some elseBranch) => thenBranch.declares ++ elseBranch.declares
  | .varDecl name _ => [name.lexeme]
  | .whileLoop _ body => body.declares
  | _ => []

/-- The spot after a statement. -/
def Spot.after (stmt : Stmt) (p : Spot) : Spot := p.introduceAll stmt.declares

/-- The spot after a sequence of statements. -/
def Spot.afterBody (stmts : List Stmt) (p : Spot) : Spot :=
  stmts.foldl (fun spot stmt => spot.after stmt) p

mutual
/-- A statement at the end of the given path. -/
def Stmt.walk (path : List Nat) (p : Spot) : Stmt → List Event
  | .block body => walkBody path (p.push ⟨.block body, path⟩) 0 body
  | .classDecl name none methods =>
      ⟨p, .define name⟩ :: walkMethods path ((p.introduce name.lexeme).inClass .plain) 0 methods
  | .classDecl name (some reference) methods =>
      ⟨p, .define name⟩ ::
        ⟨p.introduce name.lexeme, .inherit name reference⟩ ::
        ⟨p.introduce name.lexeme, .read reference⟩ ::
        walkMethods path
          (((p.introduce name.lexeme).forSuperclass path methods).inClass .derived) 0 methods
  | .expression expr => expr.walk p
  | .funDecl decl => ⟨p, .define decl.name⟩ :: decl.walk path (p.introduce decl.name.lexeme)
  | .ifElse condition thenBranch none =>
      condition.walk p ++ ⟨p, .branch thenBranch⟩ :: thenBranch.walk (0 :: path) p
  | .ifElse condition thenBranch (some elseBranch) =>
      condition.walk p ++ (⟨p, .branch thenBranch⟩ :: thenBranch.walk (0 :: path) p ++
        ⟨p.after thenBranch, .branch elseBranch⟩ ::
          elseBranch.walk (1 :: path) (p.after thenBranch))
  | .inclusion _ => []
  | .print value => value.walk p
  | .ret keyword value => ⟨p, .ret keyword⟩ :: walkOptional p value
  | .varDecl name init => ⟨p, .declare name⟩ :: walkOptional (p.declare name.lexeme) init
  | .whileLoop condition body =>
      condition.walk p ++ ⟨p, .branch body⟩ :: body.walk (0 :: path) p

/-- A function, in the spot that its declaration stands in. -/
def FunDecl.walk (path : List Nat) (p : Spot) : FunDecl → List Event
  | ⟨name, params, body⟩ =>
      walkParameters [] (p.forFunction path ⟨name, params, body⟩) params ++
        walkBody path (p.forBody path ⟨name, params, body⟩) 0 body

/-- Statements of which the first is the one with the given number in its body. -/
def walkBody (path : List Nat) (p : Spot) (index : Nat) : List Stmt → List Event
  | [] => []
  | stmt :: stmts =>
      stmt.walk (index :: path) p ++ walkBody path (p.after stmt) (index + 1) stmts

/-- The methods of a class, each with a scope of its own for `this`. -/
def walkMethods (path : List Nat) (p : Spot) (index : Nat) : List FunDecl → List Event
  | [] => []
  | method :: methods =>
      method.walk (index :: path) (p.forReceiver path method) ++
        walkMethods path p (index + 1) methods
end

/-! ## What a spot keeps -/

namespace Spot

@[simp] theorem enter_around (name : String) (ready : Bool) (p : Spot) :
    (p.enter name ready).around = p.around := by
  unfold enter
  split
  · rfl
  · rfl

@[simp] theorem enter_sites (name : String) (ready : Bool) (p : Spot) :
    (p.enter name ready).sites = p.sites := by
  unfold enter
  split
  · rfl
  · next scopes => simp [sites, scopes]

@[simp] theorem enter_tail (name : String) (ready : Bool) (p : Spot) :
    (p.enter name ready).scopes.tail = p.scopes.tail := by
  unfold enter
  split
  · rfl
  · next scopes => simp [scopes]

@[simp] theorem declare_around (name : String) (p : Spot) :
    (p.declare name).around = p.around := p.enter_around name false

@[simp] theorem declare_sites (name : String) (p : Spot) :
    (p.declare name).sites = p.sites := p.enter_sites name false

@[simp] theorem define_around (name : String) (p : Spot) :
    (p.define name).around = p.around := p.enter_around name true

@[simp] theorem define_sites (name : String) (p : Spot) :
    (p.define name).sites = p.sites := p.enter_sites name true

@[simp] theorem define_tail (name : String) (p : Spot) :
    (p.define name).scopes.tail = p.scopes.tail := p.enter_tail name true

@[simp] theorem introduce_around (name : String) (p : Spot) :
    (p.introduce name).around = p.around := by
  simp [introduce]

@[simp] theorem introduce_sites (name : String) (p : Spot) :
    (p.introduce name).sites = p.sites := by
  simp [introduce]

@[simp] theorem introduce_tail (name : String) (p : Spot) :
    (p.introduce name).scopes.tail = p.scopes.tail := by
  simp only [introduce, declare, define, enter_tail]

/-- What introducing one name keeps, introducing any number of names keeps. -/
theorem introduceAll_keeps {α : Type} (part : Spot → α)
    (kept : ∀ (name : String) (p : Spot), part (p.introduce name) = part p)
    (names : List String) (p : Spot) : part (p.introduceAll names) = part p := by
  induction names generalizing p with
  | nil => rfl
  | cons name names ih => exact (ih (p.introduce name)).trans (kept name p)

@[simp] theorem introduceAll_around (names : List String) (p : Spot) :
    (p.introduceAll names).around = p.around :=
  introduceAll_keeps Spot.around introduce_around names p

@[simp] theorem introduceAll_sites (names : List String) (p : Spot) :
    (p.introduceAll names).sites = p.sites :=
  introduceAll_keeps Spot.sites introduce_sites names p

@[simp] theorem introduceAll_tail (names : List String) (p : Spot) :
    (p.introduceAll names).scopes.tail = p.scopes.tail :=
  introduceAll_keeps (fun q => q.scopes.tail) introduce_tail names p

@[simp] theorem introduceAll_append (before after : List String) (p : Spot) :
    p.introduceAll (before ++ after) = (p.introduceAll before).introduceAll after :=
  List.foldl_append

@[simp] theorem after_around (stmt : Stmt) (p : Spot) : (p.after stmt).around = p.around :=
  p.introduceAll_around stmt.declares

@[simp] theorem after_sites (stmt : Stmt) (p : Spot) : (p.after stmt).sites = p.sites :=
  p.introduceAll_sites stmt.declares

@[simp] theorem after_tail (stmt : Stmt) (p : Spot) :
    (p.after stmt).scopes.tail = p.scopes.tail :=
  p.introduceAll_tail stmt.declares

@[simp] theorem afterBody_nil (p : Spot) : p.afterBody [] = p := rfl

@[simp] theorem afterBody_cons (stmt : Stmt) (stmts : List Stmt) (p : Spot) :
    p.afterBody (stmt :: stmts) = (p.after stmt).afterBody stmts := rfl

@[simp] theorem afterBody_around (stmts : List Stmt) (p : Spot) :
    (p.afterBody stmts).around = p.around := by
  induction stmts generalizing p with
  | nil => rfl
  | cons stmt stmts ih => rw [afterBody_cons, ih, after_around]

@[simp] theorem afterBody_sites (stmts : List Stmt) (p : Spot) :
    (p.afterBody stmts).sites = p.sites := by
  induction stmts generalizing p with
  | nil => rfl
  | cons stmt stmts ih => rw [afterBody_cons, ih, after_sites]

@[simp] theorem afterBody_tail (stmts : List Stmt) (p : Spot) :
    (p.afterBody stmts).scopes.tail = p.scopes.tail := by
  induction stmts generalizing p with
  | nil => rfl
  | cons stmt stmts ih => rw [afterBody_cons, ih, after_tail]

@[simp] theorem forBody_around (path : List Nat) (decl : FunDecl) (p : Spot) :
    (p.forBody path decl).around = { p.around with inFunction := true } :=
  introduceAll_around _ _

@[simp] theorem forBody_sites (path : List Nat) (decl : FunDecl) (p : Spot) :
    (p.forBody path decl).sites = ⟨.function decl, path⟩ :: p.sites :=
  introduceAll_sites _ _

@[simp] theorem forBody_tail (path : List Nat) (decl : FunDecl) (p : Spot) :
    (p.forBody path decl).scopes.tail = p.scopes :=
  introduceAll_tail _ _

end Spot

/-! ## Analysis records its walk -/

namespace Analysis

/-- Put one event on record. -/
def note (event : Event) (a : Analysis) : Analysis :=
  { a with
    hops := a.hops ++ event.hop?.toList.toArray
    errors := a.errors ++ event.fault?.toList.toArray }

/-- Put events on record, in their order. -/
def record (events : List Event) (a : Analysis) : Analysis :=
  events.foldl (fun a event => a.note event) a

/-- An analysis that has come to a spot. -/
def atSpot (p : Spot) (a : Analysis) : Analysis := { a with scopes := p.names }

@[simp] theorem record_nil (a : Analysis) : a.record [] = a := rfl

@[simp] theorem record_cons (event : Event) (events : List Event) (a : Analysis) :
    a.record (event :: events) = (a.note event).record events := rfl

@[simp] theorem record_append (before after : List Event) (a : Analysis) :
    a.record (before ++ after) = (a.record before).record after :=
  List.foldl_append

theorem record_hops (events : List Event) (a : Analysis) :
    (a.record events).hops.toList = a.hops.toList ++ events.filterMap Event.hop? := by
  induction events generalizing a with
  | nil => simp
  | cons event events ih =>
      rw [record_cons, ih]
      cases entry : event.hop? <;> simp [note, entry]

theorem record_errors (events : List Event) (a : Analysis) :
    (a.record events).errors.toList = a.errors.toList ++ events.filterMap Event.fault? := by
  induction events generalizing a with
  | nil => simp
  | cons event events ih =>
      rw [record_cons, ih]
      cases entry : event.fault? <;> simp [note, entry]

theorem enter_atSpot (name : String) (ready : Bool) (p : Spot) (a : Analysis) :
    (a.atSpot p).enter name ready = a.atSpot (p.enter name ready) := by
  cases scopes : p.scopes with
  | nil => simp [enter, Spot.enter, atSpot, Spot.names, scopes]
  | cons scope outer => simp [enter, Spot.enter, atSpot, Spot.names, scopes]

theorem declare_atSpot (name : String) (p : Spot) (a : Analysis) :
    (a.atSpot p).declare name = a.atSpot (p.declare name) := enter_atSpot name false p a

theorem define_atSpot (name : String) (p : Spot) (a : Analysis) :
    (a.atSpot p).define name = a.atSpot (p.define name) := enter_atSpot name true p a

theorem introduce_atSpot (name : String) (p : Spot) (a : Analysis) :
    (a.atSpot p).introduce name = a.atSpot (p.introduce name) := by
  rw [introduce, declare_atSpot, define_atSpot, Spot.introduce]

theorem push_atSpot (site : Site) (p : Spot) (a : Analysis) :
    (a.atSpot p).push = a.atSpot (p.push site) := rfl

/-- Leaving the innermost scope leads back to the spot around it. -/
theorem pop_atSpot {p q : Spot} (a : Analysis) (around : q.scopes.tail = p.scopes) :
    (a.atSpot q).pop = a.atSpot p := by
  simp [pop, atSpot, Spot.names, ← around]

theorem isUnready_atSpot (name : String) (p : Spot) (a : Analysis) :
    (a.atSpot p).isUnready name = p.isUnready name := by
  cases scopes : p.scopes with
  | nil => simp [isUnready, Spot.isUnready, atSpot, Spot.names, scopes]
  | cons scope outer => simp [isUnready, Spot.isUnready, atSpot, Spot.names, scopes]

/-- Locating a name is what an event without a fault puts on record. -/
theorem locate_atSpot (event : Event) {reference : Reference} {name : String} (a : Analysis)
    (sought : event.act.sought? = some (reference, name)) (sound : event.fault? = none) :
    (a.atSpot event.spot).locate reference name = (a.note event).atSpot event.spot := by
  unfold locate note Event.hop? Event.distance?
  rw [sought, sound]
  cases found : hops? name event.spot.names with
  | none => simp [atSpot, found]
  | some distance => simp [atSpot, found]

theorem report_atSpot (event : Event) {token : Token} {fault : StaticFault} (a : Analysis)
    (faulty : event.fault? = some (.staticAt token fault)) :
    (a.atSpot event.spot).report token fault = (a.note event).atSpot event.spot := by
  simp [report, note, Event.hop?, faulty, atSpot]

/-- An event that looks nothing up and is not at fault leaves no trace. -/
theorem note_silent (event : Event) (a : Analysis) (silent : event.act.sought? = none)
    (sound : event.fault? = none) : a.note event = a := by
  simp [note, Event.hop?, silent, sound]

theorem read_atSpot (reference : Reference) (p : Spot) (a : Analysis) :
    (a.atSpot p).read reference = (a.note ⟨p, .read reference⟩).atSpot p := by
  unfold read
  rw [isUnready_atSpot]
  split
  · next unready => exact report_atSpot ⟨p, .read reference⟩ a (by simp [Event.fault?, unready])
  · next ready =>
      exact locate_atSpot ⟨p, .read reference⟩ a rfl (by simp [Event.fault?, ready])

theorem readThis_atSpot (keyword : Reference) (p : Spot) (a : Analysis) :
    (a.atSpot p).readThis p.around keyword = (a.note ⟨p, .this keyword⟩).atSpot p := by
  unfold readThis
  split
  · next outside => exact report_atSpot ⟨p, .this keyword⟩ a (by simp [Event.fault?, outside])
  · next inside =>
      refine locate_atSpot ⟨p, .this keyword⟩ a rfl ?_
      cases kind : p.around.inClass with
      | outside => exact absurd kind inside
      | plain => simp [Event.fault?, kind]
      | derived => simp [Event.fault?, kind]

theorem readSuper_atSpot (keyword : Reference) (p : Spot) (a : Analysis) :
    (a.atSpot p).readSuper p.around keyword = (a.note ⟨p, .super keyword⟩).atSpot p := by
  unfold readSuper
  split
  · next outside => exact report_atSpot ⟨p, .super keyword⟩ a (by simp [Event.fault?, outside])
  · next plain => exact report_atSpot ⟨p, .super keyword⟩ a (by simp [Event.fault?, plain])
  · next derived =>
      exact locate_atSpot ⟨p, .super keyword⟩ a rfl (by simp [Event.fault?, derived])

theorem returned_atSpot (keyword : Token) (p : Spot) (a : Analysis) :
    (a.atSpot p).returned p.around keyword = (a.note ⟨p, .ret keyword⟩).atSpot p := by
  unfold returned
  split
  · next inside => rw [note_silent _ a rfl (by simp [Event.fault?, inside])]
  · next outside => exact report_atSpot ⟨p, .ret keyword⟩ a (by simp [Event.fault?, outside])

theorem parameters_atSpot (seen : List String) (params : List Token) (p : Spot) (a : Analysis) :
    (a.atSpot p).parameters seen params =
      (a.record (walkParameters seen p params)).atSpot
        (p.introduceAll (params.map Token.lexeme)) := by
  induction params generalizing seen p a with
  | nil => rfl
  | cons param params ih =>
      have checked :
          (if param.lexeme ∈ seen then
              (a.atSpot p).report param (.duplicateParameter param.lexeme)
            else a.atSpot p) =
            (a.note ⟨p, .parameter seen param⟩).atSpot p := by
        split
        · next again =>
            exact report_atSpot ⟨p, .parameter seen param⟩ a
              (by simp [Event.fault?, again])
        · next new => rw [note_silent _ a rfl (by simp [Event.fault?, new])]
      rw [parameters, checked, introduce_atSpot, ih]
      rfl

/-- A superclass is checked and read, and opens the scope of `super`. -/
theorem superclass_atSpot (name : Token) (reference : Reference) (path : List Nat)
    (methods : List FunDecl) (p : Spot) (a : Analysis) :
    (a.atSpot p).superclass name reference =
      (a.record [⟨p, .inherit name reference⟩, ⟨p, .read reference⟩]).atSpot
        (p.forSuperclass path methods) := by
  have checked :
      (if reference.name.lexeme = name.lexeme then
          (a.atSpot p).report reference.name .inheritsFromItself
        else a.atSpot p) =
        (a.note ⟨p, .inherit name reference⟩).atSpot p := by
    split
    · next same =>
        exact report_atSpot ⟨p, .inherit name reference⟩ a (by simp [Event.fault?, same])
    · next different => rw [note_silent _ a rfl (by simp [Event.fault?, different])]
  rw [superclass, checked, read_atSpot, push_atSpot ⟨.superclass methods, path⟩, define_atSpot]
  rfl

end Analysis

open Analysis

mutual
theorem Expr.analyze_atSpot (p : Spot) (a : Analysis) (expr : Expr) :
    expr.analyze p.around (a.atSpot p) = (a.record (expr.walk p)).atSpot p := by
  cases expr with
  | assign target value =>
      rw [Expr.analyze, value.analyze_atSpot p a, Expr.walk, record_append]
      exact locate_atSpot ⟨p, .assign target⟩ _ rfl rfl
  | binary left operator right =>
      rw [Expr.analyze, left.analyze_atSpot p a, right.analyze_atSpot p, Expr.walk, record_append]
  | call callee paren args =>
      rw [Expr.analyze, callee.analyze_atSpot p a, analyzeAll_atSpot p _ args, Expr.walk,
        record_append]
  | get object name => rw [Expr.analyze, object.analyze_atSpot p a, Expr.walk]
  | grouping inner => rw [Expr.analyze, inner.analyze_atSpot p a, Expr.walk]
  | literal value => rfl
  | logical left operator right =>
      rw [Expr.analyze, left.analyze_atSpot p a, right.analyze_atSpot p, Expr.walk, record_append]
  | set object name value =>
      rw [Expr.analyze, value.analyze_atSpot p a, object.analyze_atSpot p, Expr.walk,
        record_append]
  | super keyword method => exact readSuper_atSpot keyword p a
  | this keyword => exact readThis_atSpot keyword p a
  | unary operator operand => rw [Expr.analyze, operand.analyze_atSpot p a, Expr.walk]
  | var name => exact read_atSpot name p a

theorem analyzeAll_atSpot (p : Spot) (a : Analysis) (exprs : List Expr) :
    analyzeAll p.around exprs (a.atSpot p) = (a.record (walkAll p exprs)).atSpot p := by
  cases exprs with
  | nil => rfl
  | cons expr exprs =>
      rw [analyzeAll, expr.analyze_atSpot p a, analyzeAll_atSpot p _ exprs, walkAll, record_append]
end

theorem analyzeOptional_atSpot (p : Spot) (a : Analysis) (expr : Option Expr) :
    analyzeOptional p.around expr (a.atSpot p) = (a.record (walkOptional p expr)).atSpot p := by
  cases expr with
  | none => rfl
  | some expr => exact expr.analyze_atSpot p a

mutual
/-- Analysis of a statement records its walk and ends at the spot after it. -/
theorem Stmt.analyze_atSpot (path : List Nat) (p : Spot) (a : Analysis) (stmt : Stmt) :
    stmt.analyze p.around (a.atSpot p) = (a.record (stmt.walk path p)).atSpot (p.after stmt) := by
  cases stmt with
  | block body =>
      have inside := analyzeBody_atSpot path (p.push ⟨.block body, path⟩) 0 a body
      rw [Stmt.analyze, push_atSpot ⟨.block body, path⟩]
      refine (congrArg pop inside).trans (pop_atSpot _ ?_)
      rw [Spot.afterBody_tail]
      rfl
  | classDecl name superclass methods =>
      cases superclass with
      | none =>
          have inside := analyzeMethods_atSpot path ((p.introduce name.lexeme).inClass .plain) 0 a
            methods
          rw [Stmt.analyze, introduce_atSpot, Stmt.walk, record_cons, note_silent _ a rfl rfl]
          exact congrArg pop inside
      | some reference =>
          have inside := analyzeMethods_atSpot path
            (((p.introduce name.lexeme).forSuperclass path methods).inClass .derived) 0
            (a.record [⟨p.introduce name.lexeme, .inherit name reference⟩,
              ⟨p.introduce name.lexeme, .read reference⟩]) methods
          rw [Stmt.analyze, introduce_atSpot, superclass_atSpot name reference path methods, Stmt.walk,
            record_cons ⟨p, .define name⟩, note_silent ⟨p, .define name⟩ a rfl rfl]
          exact congrArg (fun b => pop (pop b)) inside
  | expression expr => exact expr.analyze_atSpot p a
  | funDecl decl =>
      rw [Stmt.analyze, introduce_atSpot, Stmt.walk, record_cons, note_silent _ a rfl rfl]
      have inside := decl.analyze_atSpot path (p.introduce decl.name.lexeme) a
      rw [Spot.introduce_around] at inside
      exact inside
  | ifElse condition thenBranch elseBranch =>
      cases elseBranch with
      | none =>
          rw [Stmt.analyze, condition.analyze_atSpot p a, thenBranch.analyze_atSpot (0 :: path) p,
            Stmt.walk, record_append, record_cons, note_silent _ _ rfl rfl]
          rfl
      | some elseBranch =>
          have last := elseBranch.analyze_atSpot (1 :: path) (p.after thenBranch)
            ((a.record (condition.walk p)).record (thenBranch.walk (0 :: path) p))
          rw [Spot.after_around] at last
          rw [Stmt.analyze, condition.analyze_atSpot p a, thenBranch.analyze_atSpot (0 :: path) p,
            last, Stmt.walk, record_append, record_append, record_cons, record_cons,
            note_silent _ _ rfl rfl, note_silent _ _ rfl rfl]
          simp only [Spot.after, Stmt.declares, Spot.introduceAll_append]
  | inclusion pathToken => rfl
  | print value => exact value.analyze_atSpot p a
  | ret keyword value =>
      rw [Stmt.analyze, returned_atSpot keyword p a, analyzeOptional_atSpot, Stmt.walk,
        record_cons]
      rfl
  | varDecl name init =>
      have inside := analyzeOptional_atSpot (p.declare name.lexeme) a init
      rw [Spot.declare_around] at inside
      rw [Stmt.analyze, declare_atSpot, inside, define_atSpot, Stmt.walk, record_cons,
        note_silent _ a rfl rfl]
      rfl
  | whileLoop condition body =>
      rw [Stmt.analyze, condition.analyze_atSpot p a, body.analyze_atSpot (0 :: path) p,
        Stmt.walk, record_append, record_cons, note_silent _ _ rfl rfl]
      rfl

theorem FunDecl.analyze_atSpot (path : List Nat) (p : Spot) (a : Analysis) (decl : FunDecl) :
    decl.analyze p.around.inClass (a.atSpot p) = (a.record (decl.walk path p)).atSpot p := by
  obtain ⟨name, params, body⟩ := decl
  have first := parameters_atSpot [] params (p.forFunction path ⟨name, params, body⟩) a
  have inside := analyzeBody_atSpot path (p.forBody path ⟨name, params, body⟩) 0
    (a.record (walkParameters [] (p.forFunction path ⟨name, params, body⟩) params)) body
  rw [Spot.forBody_around] at inside
  rw [FunDecl.analyze, push_atSpot ⟨.function ⟨name, params, body⟩, path⟩]
  refine (congrArg (fun b => (analyzeBody _ body b).pop) first).trans ?_
  refine (congrArg pop inside).trans ?_
  rw [FunDecl.walk, record_append]
  refine pop_atSpot _ ?_
  rw [Spot.afterBody_tail, Spot.forBody_tail]

theorem analyzeBody_atSpot (path : List Nat) (p : Spot) (index : Nat) (a : Analysis)
    (stmts : List Stmt) :
    analyzeBody p.around stmts (a.atSpot p) =
      (a.record (walkBody path p index stmts)).atSpot (p.afterBody stmts) := by
  cases stmts with
  | nil => rfl
  | cons stmt stmts =>
      have rest := analyzeBody_atSpot path (p.after stmt) (index + 1)
        (a.record (stmt.walk (index :: path) p)) stmts
      rw [Spot.after_around] at rest
      rw [analyzeBody, stmt.analyze_atSpot (index :: path) p a, rest, walkBody, record_append]
      rfl

/-- The methods of a class are walked in one scope that knows `this`. -/
theorem analyzeMethods_atSpot (path : List Nat) (p : Spot) (index : Nat) (a : Analysis)
    (methods : List FunDecl) :
    analyzeMethods methods p.around.inClass ((a.atSpot p).push.define "this") =
      ((a.record (walkMethods path p index methods)).atSpot p).push.define "this" := by
  cases methods with
  | nil => rfl
  | cons method methods =>
      have first := method.analyze_atSpot (index :: path) (p.forReceiver path method) a
      have rest := analyzeMethods_atSpot path p (index + 1)
        (a.record (method.walk (index :: path) (p.forReceiver path method))) methods
      rw [analyzeMethods, walkMethods, record_append]
      refine Eq.trans ?_ rest
      exact congrArg (analyzeMethods methods p.around.inClass) first
end

/-- The events of a whole program, whose paths all end in the given number. -/
def walkProgram (first : Nat) (stmts : List Stmt) : List Event :=
  walkBody [first] .root 0 stmts

/-- Analysis of a whole program records the walk of it. -/
theorem analyze_eq_record (first : Nat) (stmts : List Stmt) :
    analyze stmts =
      (start.record (walkProgram first stmts)).atSpot (Spot.root.afterBody stmts) :=
  analyzeBody_atSpot [first] .root 0 start stmts

theorem analyze_errors (first : Nat) (stmts : List Stmt) :
    (analyze stmts).errors.toList = (walkProgram first stmts).filterMap Event.fault? := by
  rw [analyze_eq_record first stmts]
  exact record_errors (walkProgram first stmts) start

theorem analyze_hops (first : Nat) (stmts : List Stmt) :
    (analyze stmts).hops.toList = (walkProgram first stmts).filterMap Event.hop? := by
  rw [analyze_eq_record first stmts]
  exact record_hops (walkProgram first stmts) start

end Lox
