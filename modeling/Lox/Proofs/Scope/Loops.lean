import Lox.Proofs.Loops.Meaning
import Lox.Proofs.Scope.Members

/-!
# What the parts of a loop see

The tree that is made of a loop opens a scope for the first clause, and one for each iteration if
there is a last clause.  So the condition stands behind the first clause, in its scope; the last
clause and the body stand in the scope of the iteration, which declares nothing.  The scopes that
the body opens are closed where the others are looked at.
-/

namespace Lox

namespace ForClauses

variable (clauses : ForClauses) (path : List Nat) (p : Spot)

/-- The path to the statement behind the first clause. -/
def loopPath : List Nat :=
  match clauses.init with
  | none => path
  | some _ => 1 :: path

/-- The scope that the first clause opens. -/
def opened : Spot :=
  match clauses.init with
  | none => p
  | some init => p.push ⟨.block [init, clauses.loop], path⟩

/-- What the first clause declares. -/
def declares : List String :=
  match clauses.init with
  | none => []
  | some init => init.declares

/-- Where the condition stands. -/
def inside : Spot := (clauses.opened path p).introduceAll clauses.declares

/-- What happens in the first clause. -/
def walkInit : List Event :=
  match clauses.init with
  | none => []
  | some init => init.walk (0 :: path) (clauses.opened path p)

/-- The scopes of an iteration, innermost first. -/
def iterationScopes : List OpenScope :=
  match clauses.increment with
  | none => []
  | some increment =>
      [⟨⟨.block [clauses.body, .expression increment], 0 :: clauses.loopPath path⟩, []⟩]

/-- Where the body stands, and the last clause. -/
def within : Spot :=
  { clauses.inside path p with
    scopes := clauses.iterationScopes path ++ (clauses.inside path p).scopes }

/-- The path to the body. -/
def bodyPath : List Nat :=
  match clauses.increment with
  | none => 0 :: clauses.loopPath path
  | some _ => 0 :: 0 :: clauses.loopPath path

theorem walk_iteration (alone : clauses.body.declares = []) :
    clauses.iteration.walk (0 :: clauses.loopPath path) (clauses.inside path p) =
      clauses.body.walk (clauses.bodyPath path) (clauses.within path p) ++
        walkOptional (clauses.within path p) clauses.increment := by
  obtain ⟨init, condition, increment, body⟩ := clauses
  have alone : body.declares = [] := alone
  cases increment with
  | none => exact (List.append_nil _).symm
  | some increment =>
      show body.walk _ _ ++ (increment.walk (Spot.introduceAll body.declares _) ++ []) = _
      rw [alone, List.append_nil]
      rfl

/-- What happens in a loop: in the first clause, in the condition, in the body, and in the last
clause. -/
theorem walk_statement (alone : clauses.body.declares = []) :
    clauses.statement.walk path p = clauses.walkInit path p ++
      (walkOptional (clauses.inside path p) clauses.condition ++
        ⟨clauses.inside path p, .branch clauses.iteration⟩ ::
          (clauses.body.walk (clauses.bodyPath path) (clauses.within path p) ++
            walkOptional (clauses.within path p) clauses.increment)) := by
  rw [← clauses.walk_iteration path p alone]
  have tested : clauses.test.walk (clauses.inside path p) =
      walkOptional (clauses.inside path p) clauses.condition := by
    obtain ⟨init, condition, increment, body⟩ := clauses
    cases condition <;> rfl
  rw [← tested]
  obtain ⟨init, condition, increment, body⟩ := clauses
  cases init with
  | none => rfl
  | some init => exact congrArg (_ ++ ·) (List.append_nil _)

theorem inside_of_none (none : clauses.init = none) : clauses.inside path p = p := by
  obtain ⟨init, condition, increment, body⟩ := clauses
  cases none
  rfl

/-- Behind the first clause its scope knows what it declares. -/
theorem inside_scopes {init : Stmt} (isInit : clauses.init = some init) :
    ∃ shared, (clauses.inside path p).scopes = shared :: p.scopes ∧
      shared.site = ⟨.block [init, clauses.loop], path⟩ ∧
        ∀ name, shared.names.has name = decide (name ∈ init.declares) := by
  have learned := Learned.introduceAll init.declares (p.push ⟨.block [init, clauses.loop], path⟩)
  have same : (p.push ⟨.block [init, clauses.loop], path⟩).introduceAll init.declares =
      clauses.inside path p := by
    rw [inside, opened, declares, isInit]
  rw [same] at learned
  generalize isScopes : (clauses.inside path p).scopes = scopes at learned
  cases learned with
  | @inner _ shared _ same has =>
      exact ⟨shared, rfl, same, fun name => (has name).trans (by simp [Bindings.has])⟩

end ForClauses

/-! ## How far names are -/

/-- Scopes that do not know a name are passed over. -/
theorem hops?_of_inner {name : String} {inner : List OpenScope} {p q : Spot}
    (whole : p.scopes = inner ++ q.scopes)
    (unknown : ∀ scope ∈ inner, scope.names.has name = false) :
    Analysis.hops? name p.names = (Analysis.hops? name q.names).map (· + inner.length) := by
  have none : (inner.map OpenScope.names).findIdx? (fun scope => scope.has name) = none := by
    refine List.findIdx?_eq_none_iff.mpr fun names listed => ?_
    obtain ⟨scope, among, rfl⟩ := List.mem_map.mp listed
    exact unknown scope among
  rw [Analysis.hops?, Spot.names, whole, List.map_append, List.findIdx?_append, none,
    Option.none_or, List.length_map]
  rfl

/-- So is what a scope has learned, if that is nothing. -/
theorem Learned.hops?_eq {p q : Spot} (same : Learned [] p.scopes q.scopes) (name : String) :
    Analysis.hops? name q.names = Analysis.hops? name p.names := by
  obtain ⟨scopes, around⟩ := p
  obtain ⟨scopes', around'⟩ := q
  cases same with
  | outermost => rfl
  | inner outer _ has =>
      simp only [Analysis.hops?, Spot.names, List.map_cons, List.findIdx?_cons, has]
      simp

namespace ForClauses

/-- How far the scope that knows a name is from the condition of a loop. -/
def seen (clauses : ForClauses) (name : String) (p : Spot) : Option Nat :=
  match clauses.init with
  | none => Analysis.hops? name p.names
  | some init =>
      if name ∈ init.declares then some 0 else (Analysis.hops? name p.names).map (· + 1)

variable (clauses : ForClauses) (path : List Nat) (p : Spot)

theorem hops?_inside (name : String) :
    Analysis.hops? name (clauses.inside path p).names = clauses.seen name p := by
  unfold seen
  cases isInit : clauses.init with
  | none => rw [clauses.inside_of_none path p isInit]
  | some init =>
      obtain ⟨shared, whole, _, has⟩ := clauses.inside_scopes path p isInit
      by_cases declared : name ∈ init.declares
      · dsimp only
        rw [if_pos declared, Analysis.hops?, Spot.names, whole]
        simp [List.findIdx?_cons, has, declared]
      · dsimp only
        rw [if_neg declared]
        have unknown : ∀ scope ∈ [shared], scope.names.has name = false :=
          List.forall_mem_singleton.mpr ((has name).trans (decide_eq_false declared))
        exact hops?_of_inner whole unknown

theorem iterationScopes_unknown (name : String) :
    ∀ scope ∈ clauses.iterationScopes path, scope.names.has name = false := by
  unfold iterationScopes
  cases clauses.increment with
  | none => exact fun _ none => (List.not_mem_nil none).elim
  | some increment => exact List.forall_mem_singleton.mpr rfl

/-- The scope of an iteration is passed over. -/
theorem hops?_within (name : String) :
    Analysis.hops? name (clauses.within path p).names =
      (clauses.seen name p).map (· + (clauses.iterationScopes path).length) := by
  rw [← clauses.hops?_inside path p name]
  exact hops?_of_inner rfl (clauses.iterationScopes_unknown path name)

/--
Where something that is looked up stands in a loop, and how far it is.  Neither the condition nor
the last clause is in any scope of the body; and scopes that the body opens are in the others.
-/
inductive Finds (event : Event) (name : String) : Prop where
  | init (among : event ∈ clauses.walkInit path p)
  | condition {condition : Expr} (isCondition : clauses.condition = some condition)
      (among : event ∈ condition.walk (clauses.inside path p))
      (distance : event.distance? = clauses.seen name p)
  | body {own outer : List OpenScope}
      (among : event ∈ clauses.body.walk (clauses.bodyPath path) (clauses.within path p))
      (whole : event.spot.scopes = own ++ outer)
      (same : Learned [] (clauses.within path p).scopes outer)
      (follows : ∀ scope ∈ own, scope.Follows event.act)
      (distance : (∀ scope ∈ own, scope.names.has name = false) →
        event.distance? =
          (clauses.seen name p).map (· + ((clauses.iterationScopes path).length + own.length)))
  | increment {increment : Expr} (isIncrement : clauses.increment = some increment)
      (among : event ∈ increment.walk (clauses.within path p))
      (distance : event.distance? =
        (clauses.seen name p).map (· + (clauses.iterationScopes path).length))

theorem finds (alone : clauses.body.declares = []) {event : Event} {reference : Reference}
    {name : String} (walked : event ∈ clauses.statement.walk path p)
    (sought : event.act.sought? = some (reference, name)) : clauses.Finds path p event name := by
  have distance : event.distance? = Analysis.hops? name event.spot.names := by
    rw [Event.distance?, sought]
    rfl
  rw [clauses.walk_statement path p alone] at walked
  rcases List.mem_append.mp walked with first | walked
  · exact .init first
  rcases List.mem_append.mp walked with tested | walked
  · cases isCondition : clauses.condition with
    | none =>
        rw [isCondition] at tested
        cases tested
    | some condition =>
        rw [isCondition] at tested
        refine .condition isCondition tested ?_
        rw [distance, condition.walk_spot event tested, clauses.hops?_inside]
  rcases List.mem_cons.mp walked with rfl | walked
  · cases sought
  rcases List.mem_append.mp walked with inBody | last
  · have seeks : event.act.sought?.isSome = true := by rw [sought]; rfl
    obtain ⟨names, declared, _, own, outer, whole, learned, follows⟩ :=
      clauses.body.contains_walk _ _ event inBody seeks
    -- The body declares nothing, so the scopes around it are as they were.
    rw [alone] at declared
    obtain rfl := List.eq_nil_of_subset_nil declared
    refine .body inBody whole learned follows fun unknown => ?_
    have passes := hops?_of_inner (q := ⟨outer, event.spot.around⟩) whole unknown
    rw [distance, passes, learned.hops?_eq (p := clauses.within path p), clauses.hops?_within,
      Option.map_map]
    exact congrArg (Option.map · _) (funext fun _ => Nat.add_assoc ..)
  · cases isIncrement : clauses.increment with
    | none =>
        rw [isIncrement] at last
        cases last
    | some increment =>
        rw [isIncrement] at last
        refine .increment isIncrement last ?_
        rw [distance, increment.walk_spot event last, clauses.hops?_within]

end ForClauses

end Lox
