import Mathlib.Data.List.Forall2
import Lox.Proofs.Scope.Positions

/-!
# Analysis is exact

Analysis keeps a stack of scopes and marks the names whose initializers are not over.  What it
tells of a node by these is what the position of the node tells: the scopes on the stack are those
around the node, and since no scope is opened inside of an initializer, the mark in the innermost
one says whether the node stands in the initializer of its own variable.
-/

namespace Lox

/-! ## Names of scopes -/

/-- A scope after declarations, whose names are usable at once. -/
def Scope.introduceAll (names : List String) (known : Scope) : Scope :=
  names.foldl (fun known name => (known.insert name false).insert name true) known

theorem Scope.find?_introduceAll (names : List String) (known : Scope) (name : String) :
    (known.introduceAll names).find? name =
      if name ∈ names then some true else known.find? name := by
  induction names generalizing known with
  | nil => rfl
  | cons first names ih =>
      refine (ih _).trans ?_
      by_cases later : name ∈ names
      · rw [if_pos later, if_pos (List.mem_cons_of_mem _ later)]
      · by_cases same : name = first
        · subst same
          rw [if_neg later, if_pos List.mem_cons_self, Bindings.find?_insert_self]
        · have other : name ∉ first :: names := by simp [same, later]
          rw [if_neg later, if_neg other, Bindings.find?_insert_of_ne same,
            Bindings.find?_insert_of_ne same]

namespace Spot

theorem names_enter (name : String) (ready : Bool) (p : Spot) :
    (p.enter name ready).names = p.names.modifyHead (Bindings.insert name ready) := by
  cases scopes : p.scopes with
  | nil => simp [enter, names, scopes]
  | cons scope outer => simp [enter, names, scopes]

theorem names_introduceAll (names : List String) (p : Spot) :
    (p.introduceAll names).names = p.names.modifyHead (Scope.introduceAll names) := by
  induction names generalizing p with
  | nil => cases known : p.names <;> simp [introduceAll, known, Scope.introduceAll]
  | cons name names ih =>
      have first : (p.introduce name).names = p.names.modifyHead fun known =>
          (known.insert name false).insert name true := by
        rw [introduce, declare, define, names_enter, names_enter]
        cases p.names <;> rfl
      refine (ih (p.introduce name)).trans ?_
      rw [first]
      cases p.names <;> rfl

theorem isUnready_eq (name : String) (p : Spot) :
    p.isUnready name = p.names.head?.any fun known => known.find? name == some false := by
  cases scopes : p.scopes with
  | nil => simp [isUnready, names, scopes]
  | cons scope outer => simp [isUnready, names, scopes]

end Spot

/-! ## Spots and positions -/

/-- A scope that knows the names that were declared in it. -/
def Scope.Knows (known : Scope) (names : List String) : Prop :=
  ∀ name, known.has name = decide (name ∈ names)

/-- A spot of a walk has the scopes that are around a position, and what is marked there. -/
structure Spot.Shows (p : Spot) (here : Position) : Prop where
  declared : List.Forall₂ Scope.Knows p.names here.declared
  unready : ∀ name, p.isUnready name =
    (decide (here.declared ≠ []) && decide (here.initializes = some name))
  around : p.around = here.around

theorem forall₂_modifyHead {α β : Type} {R : α → β → Prop} {f : α → α} {g : β → β}
    (kept : ∀ x y, R x y → R (f x) (g y)) {xs : List α} {ys : List β}
    (each : List.Forall₂ R xs ys) : List.Forall₂ R (xs.modifyHead f) (ys.modifyHead g) := by
  cases each with
  | nil => exact .nil
  | cons first rest => exact .cons (kept _ _ first) rest

namespace Spot.Shows

variable {p : Spot} {here : Position}

theorem distance?_eq (shows : p.Shows here) (name : String) :
    Analysis.hops? name p.names = here.distance? name := by
  have declared := shows.declared
  unfold Analysis.hops? Position.distance?
  generalize p.names = scopes at declared
  generalize here.declared = names at declared
  induction declared with
  | nil => rfl
  | cons first _ ih => rw [List.findIdx?_cons, List.findIdx?_cons, first name, ih]

theorem root : Spot.root.Shows .root := ⟨.nil, fun _ => rfl, rfl⟩

theorem inClass (shows : p.Shows here) (kind : ClassSurroundings) :
    (p.inClass kind).Shows (here.inClass kind) :=
  ⟨shows.declared, shows.unready, by rw [Spot.inClass, Position.inClass, shows.around]⟩

section Settled

variable (shows : p.Shows here) (settled : here.initializes = none)

include shows settled

theorem ready (name : String) : p.isUnready name = false := by
  rw [shows.unready, settled]
  simp

/-- No scope is opened inside of an initializer, so nothing is marked in the scope outside. -/
theorem opened (site : Site) : (p.push site).Shows here.opened := by
  refine ⟨.cons (fun _ => rfl) shows.declared, fun name => ?_, shows.around⟩
  have none : here.opened.initializes = none := settled
  rw [none]
  rfl

/-- Names that are entered into the innermost scope, and that are usable at once. -/
theorem declaring {q : Spot} (names : List String) {enter : Scope → Scope}
    (entered : q.names = p.names.modifyHead enter)
    (finds : ∀ known name, (enter known).find? name =
      if name ∈ names then some true else Bindings.find? name known)
    (around : q.around = p.around) : q.Shows (here.declaring names) := by
  refine ⟨?_, fun name => ?_, around.trans shows.around⟩
  · rw [entered]
    refine forall₂_modifyHead (fun known declared knows name => ?_) shows.declared
    rw [Bindings.has, finds]
    by_cases among : name ∈ names
    · simp [among]
    · rw [if_neg among, ← Bindings.has, knows name]
      simp [among]
  · have none : (here.declaring names).initializes = none := settled
    have ready := shows.ready settled name
    rw [none, isUnready_eq, entered]
    rw [isUnready_eq] at ready
    cases known : p.names with
    | nil => simp
    | cons scope outer =>
        rw [known, List.head?_cons, Option.any_some] at ready
        rw [List.modifyHead_cons, List.head?_cons, Option.any_some, finds]
        by_cases among : name ∈ names
        · simp [among]
        · simpa [among] using ready

theorem introduceAll (names : List String) : (p.introduceAll names).Shows (here.declaring names) :=
  shows.declaring settled names (p.names_introduceAll names) (Scope.find?_introduceAll names)
    (p.introduceAll_around names)

theorem introduce (name : String) : (p.introduce name).Shows (here.declaring [name]) :=
  shows.introduceAll settled [name]

theorem define (name : String) : (p.define name).Shows (here.declaring [name]) :=
  shows.declaring settled [name] (p.names_enter name true)
    (fun known other => by simp only [Bindings.find?_insert, List.mem_singleton])
    (p.define_around name)

theorem forBody (path : List Nat) (decl : FunDecl) :
    (p.forBody path decl).Shows (here.inFunction (decl.params.map Token.lexeme)) := by
  have inside := (shows.opened settled ⟨.function decl, path⟩).introduceAll settled
    (decl.params.map Token.lexeme)
  refine ⟨?_, fun name => ?_, ?_⟩
  · have declared := inside.declared
    rw [names_introduceAll] at declared
    rw [Spot.forBody, names_introduceAll]
    exact declared
  · have unready := inside.unready name
    rw [isUnready_eq, names_introduceAll] at unready
    rw [Spot.forBody, isUnready_eq, names_introduceAll]
    exact unready
  · rw [forBody_around, shows.around]
    rfl

/-- In the initializer of a local variable its name is marked in the innermost scope. -/
theorem declare (name : String) : (p.declare name).Shows (here.initializing name) := by
  refine ⟨?_, fun other => ?_, (p.declare_around name).trans shows.around⟩
  · rw [Spot.declare, names_enter]
    refine forall₂_modifyHead (fun known declared knows other => ?_) shows.declared
    rw [Bindings.has, Bindings.find?_insert]
    by_cases same : other = name
    · simp [same]
    · rw [if_neg same, ← Bindings.has, knows other]
      simp [same]
  · have declared := shows.declared
    have ready := shows.ready settled other
    rw [Spot.declare, isUnready_eq, names_enter]
    rw [isUnready_eq] at ready
    unfold Position.initializing Position.declaring
    cases known : p.names with
    | nil =>
        rw [known, List.forall₂_nil_left_iff] at declared
        simp [declared]
    | cons scope outer =>
        rw [known] at declared ready
        rw [List.head?_cons, Option.any_some] at ready
        obtain ⟨names, others, _, _, isDeclared⟩ := List.forall₂_cons_left_iff.mp declared
        rw [isDeclared, List.modifyHead_cons, List.modifyHead_cons, List.head?_cons,
          Option.any_some, Bindings.find?_insert]
        by_cases same : other = name
        · simp [same]
        · simpa [same, Ne.symm same] using ready

end Settled

end Spot.Shows

/-! ## What is told of a node -/

/-- What a walk comes by, if it is a node. -/
def Act.node? : Act → Option Node
  | .read reference => some (.use ⟨.read, reference⟩)
  | .assign target => some (.use ⟨.assigned, target⟩)
  | .this keyword => some (.use ⟨.receiver, keyword⟩)
  | .super keyword => some (.use ⟨.superclass, keyword⟩)
  | .inherit name superclass => some (.inherit name superclass.name)
  | .parameter seen param => some (.parameter seen param)
  | .ret keyword => some (.ret keyword)
  | _ => none

/-- A node, with the fault and the distance that are told of it. -/
structure Report where
  node : Node
  fault : Option Error
  entry : Option (Nat × Nat)

def Event.report? (event : Event) : Option Report :=
  event.act.node?.map fun node => ⟨node, event.fault?, event.hop?⟩

def Visit.report (visit : Visit) : Report := ⟨visit.node, visit.fault?, visit.entry?⟩

theorem Act.sought?_of_node? {act : Act} {node : Node} (isNode : act.node? = some node)
    (here : Position) :
    act.sought? = (Visit.use? ⟨here, node⟩).map fun use => (use.reference, use.name) := by
  cases act <;> cases isNode <;> rfl

namespace Spot.Shows

variable {p : Spot} {here : Position} {act : Act} {node : Node}

theorem fault?_eq (shows : p.Shows here) (isNode : act.node? = some node) :
    Event.fault? ⟨p, act⟩ = Visit.fault? ⟨here, node⟩ := by
  cases act with
  | read reference =>
      cases isNode
      simp only [Event.fault?, Visit.fault?, shows.unready, Bool.and_eq_true, decide_eq_true_eq]
  | assign target =>
      cases isNode
      rfl
  | this keyword =>
      cases isNode
      cases inClass : here.around.inClass <;>
        simp only [Event.fault?, Visit.fault?, shows.around, inClass]
  | super keyword =>
      cases isNode
      cases inClass : here.around.inClass <;>
        simp only [Event.fault?, Visit.fault?, shows.around, inClass]
  | inherit name superclass =>
      cases isNode
      rfl
  | parameter seen param =>
      cases isNode
      rfl
  | ret keyword =>
      cases isNode
      simp only [Event.fault?, Visit.fault?, shows.around]
  | declare name => cases isNode
  | define name => cases isNode
  | branch stmt => cases isNode

/-- Of a node the same is told at a spot as at the position that it shows. -/
theorem report?_eq (shows : p.Shows here) (isNode : act.node? = some node) :
    Event.report? ⟨p, act⟩ = some (Visit.report ⟨here, node⟩) := by
  have fault := shows.fault?_eq isNode
  have entry : Event.hop? ⟨p, act⟩ = Visit.entry? ⟨here, node⟩ := by
    unfold Event.hop? Visit.entry? Event.distance?
    rw [fault, Act.sought?_of_node? isNode here]
    cases Visit.use? ⟨here, node⟩ with
    | none => rfl
    | some use =>
        simp only [Option.map_some, Option.bind_some]
        rw [shows.distance?_eq]
  rw [Event.report?, isNode, Visit.report, ← fault, ← entry]
  rfl

end Spot.Shows

/-! ## Walks and visits -/

/-- The same is told in two ways, by what a walk comes by and by what is visited. -/
def Tells (events : List Event) (visits : List Visit) : Prop :=
  events.filterMap Event.report? = visits.map Visit.report

namespace Tells

variable {p : Spot} {here : Position} {events events' : List Event} {visits visits' : List Visit}

theorem nil : Tells [] [] := rfl

theorem append (first : Tells events visits) (second : Tells events' visits') :
    Tells (events ++ events') (visits ++ visits') := by
  rw [Tells, List.filterMap_append, List.map_append, first, second]

theorem node {act : Act} {node : Node} (shows : p.Shows here) (isNode : act.node? = some node)
    (rest : Tells events visits) : Tells (⟨p, act⟩ :: events) (⟨here, node⟩ :: visits) := by
  rw [Tells, List.filterMap_cons_some (shows.report?_eq isNode), rest, List.map_cons]

/-- Declarations and branches are no nodes. -/
theorem silent {event : Event} (noNode : event.act.node? = none) (rest : Tells events visits) :
    Tells (event :: events) visits := by
  rw [Tells, List.filterMap_cons_none (by rw [Event.report?, noNode]; rfl), rest]

theorem hops (tells : Tells events visits) :
    events.filterMap Event.hop? = visits.filterMap Visit.entry? := by
  have ofReport : ∀ event : Event, event.hop? = event.report?.bind Report.entry := by
    rintro ⟨spot, act⟩
    cases act <;> rfl
  have told := congrArg (List.filterMap Report.entry) tells
  rw [List.filterMap_filterMap, List.filterMap_map] at told
  rw [funext ofReport]
  exact told

theorem faults (tells : Tells events visits) :
    events.filterMap Event.fault? = visits.filterMap Visit.fault? := by
  have ofReport : ∀ event : Event, event.fault? = event.report?.bind Report.fault := by
    rintro ⟨spot, act⟩
    cases act <;> rfl
  have told := congrArg (List.filterMap Report.fault) tells
  rw [List.filterMap_filterMap, List.filterMap_map] at told
  rw [funext ofReport]
  exact told

end Tells

mutual
theorem Expr.visits_tell {p : Spot} {here : Position} (shows : p.Shows here) (expr : Expr) :
    Tells (expr.walk p) (expr.visits here) := by
  cases expr with
  | assign target value => exact (value.visits_tell shows).append (.node shows rfl .nil)
  | binary left operator right => exact (left.visits_tell shows).append (right.visits_tell shows)
  | call callee paren args => exact (callee.visits_tell shows).append (visitsAll_tell shows args)
  | get object name => exact object.visits_tell shows
  | grouping inner => exact inner.visits_tell shows
  | literal value => exact .nil
  | logical left operator right => exact (left.visits_tell shows).append (right.visits_tell shows)
  | set object name value => exact (value.visits_tell shows).append (object.visits_tell shows)
  | super keyword method => exact .node shows rfl .nil
  | this keyword => exact .node shows rfl .nil
  | unary operator operand => exact operand.visits_tell shows
  | var name => exact .node shows rfl .nil

theorem visitsAll_tell {p : Spot} {here : Position} (shows : p.Shows here) (exprs : List Expr) :
    Tells (walkAll p exprs) (visitsAll here exprs) := by
  cases exprs with
  | nil => exact .nil
  | cons expr exprs => exact (expr.visits_tell shows).append (visitsAll_tell shows exprs)
end

theorem visitsOptional_tell {p : Spot} {here : Position} (shows : p.Shows here)
    (expr : Option Expr) : Tells (walkOptional p expr) (visitsOptional here expr) := by
  cases expr with
  | none => exact .nil
  | some expr => exact expr.visits_tell shows

theorem visitsParameters_tell (p : Spot) (here : Position) (seen : List String)
    (params : List Token) :
    Tells (walkParameters seen p params) (visitsParameters here seen params) := by
  induction params generalizing seen p with
  | nil => exact .nil
  | cons param params ih =>
      have first : Event.report? ⟨p, .parameter seen param⟩ =
          some (Visit.report ⟨here, .parameter seen param⟩) := rfl
      have rest := ih (p.introduce param.lexeme) (param.lexeme :: seen)
      rw [Tells, walkParameters, visitsParameters, List.filterMap_cons_some first, rest,
        List.map_cons]

mutual
/-- A walk of a statement tells what its visits tell, from wherever no initializer is around. -/
theorem Stmt.visits_tell {p : Spot} {here : Position} (shows : p.Shows here)
    (settled : here.initializes = none) (path : List Nat) (stmt : Stmt) :
    Tells (stmt.walk path p) (stmt.visits here) := by
  cases stmt with
  | block body => exact visitsBody_tell (shows.opened settled _) settled path 0 body
  | classDecl name superclass methods =>
      have inside := shows.introduce settled name.lexeme
      cases superclass with
      | none =>
          exact .silent rfl (visitsMethods_tell (inside.inClass .plain) settled path 0 methods)
      | some reference =>
          have above := ((inside.opened settled ⟨.superclass methods, path⟩).define settled
            "super").inClass .derived
          exact .silent rfl (.node inside rfl (.node inside rfl
            (visitsMethods_tell above settled path 0 methods)))
  | expression expr => exact expr.visits_tell shows
  | funDecl decl =>
      exact .silent rfl (decl.visits_tell (shows.introduce settled decl.name.lexeme) settled path)
  | ifElse condition thenBranch elseBranch =>
      cases elseBranch with
      | none =>
          exact (condition.visits_tell shows).append
            (.silent rfl (thenBranch.visits_tell shows settled _))
      | some elseBranch =>
          have after := shows.introduceAll settled thenBranch.declares
          exact (condition.visits_tell shows).append
            ((Tells.silent rfl (thenBranch.visits_tell shows settled _)).append
              (.silent rfl (elseBranch.visits_tell after settled _)))
  | inclusion pathToken => exact .nil
  | print value => exact value.visits_tell shows
  | ret keyword value => exact .node shows rfl (visitsOptional_tell shows value)
  | varDecl name init =>
      exact .silent rfl (visitsOptional_tell (shows.declare settled name.lexeme) init)
  | whileLoop condition body =>
      exact (condition.visits_tell shows).append (.silent rfl (body.visits_tell shows settled _))

theorem FunDecl.visits_tell {p : Spot} {here : Position} (shows : p.Shows here)
    (settled : here.initializes = none) (path : List Nat) (decl : FunDecl) :
    Tells (decl.walk path p) (decl.visits here) := by
  obtain ⟨name, params, body⟩ := decl
  exact (visitsParameters_tell _ here [] params).append
    (visitsBody_tell (shows.forBody settled path ⟨name, params, body⟩) settled path 0 body)

theorem visitsBody_tell {p : Spot} {here : Position} (shows : p.Shows here)
    (settled : here.initializes = none) (path : List Nat) (index : Nat) (stmts : List Stmt) :
    Tells (walkBody path p index stmts) (visitsBody here stmts) := by
  cases stmts with
  | nil => exact .nil
  | cons stmt stmts =>
      exact (stmt.visits_tell shows settled _).append
        (visitsBody_tell (shows.introduceAll settled stmt.declares) settled path (index + 1) stmts)

theorem visitsMethods_tell {p : Spot} {here : Position} (shows : p.Shows here)
    (settled : here.initializes = none) (path : List Nat) (index : Nat) (methods : List FunDecl) :
    Tells (walkMethods path p index methods) (visitsMethods here methods) := by
  cases methods with
  | nil => exact .nil
  | cons method methods =>
      have inside := (shows.opened settled ⟨.receiver method, path⟩).define settled "this"
      exact (method.visits_tell inside settled _).append
        (visitsMethods_tell shows settled path (index + 1) methods)
end

end Lox
