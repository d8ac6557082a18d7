import Mathlib.Data.List.Forall2
import Lox.Proofs.Scope.Respelling

/-!
# Analysis of a respelled program

If the new spelling occurs nowhere in a sound program and the old one names no function or class
of the scope, then analysis records the same distances for the respelled program, and no faults.
Its scopes know the names of the old ones as they are spelled.
-/

namespace Lox

/-- The names that are written where something happens, apart from those of reserved words. -/
def Act.names : Act → List String
  | .read reference => [reference.name.lexeme]
  | .assign target => [target.name.lexeme]
  | .inherit name superclass => [name.lexeme, superclass.name.lexeme]
  | .declare name => [name.lexeme]
  | .define name => [name.lexeme]
  | .parameter seen param => param.lexeme :: seen
  | _ => []

/-- An event that is sound and stays sound if a name is respelled. -/
structure Event.Spared (r : Respelling) (event : Event) : Prop where
  sound : event.fault? = none
  /-- The new spelling is not used yet. -/
  fresh : ∀ name ∈ event.act.names, name ≠ r.new
  /-- A function or a class is not declared under the name that is respelled. -/
  defined : ∀ name, event.act = .define name → r.spellHere event.spot name.lexeme = name.lexeme

/-- Scopes of analysis that know the names of a spot as they are spelled. -/
structure Spelled (r : Respelling) (p : Spot) (scopes : List Scope) : Prop where
  fresh : ∀ scope ∈ p.scopes, scope.names.find? r.new = none
  each :
    List.Forall₂ (fun scope names => Bindings.Respelled Eq r scope.site scope.names names)
      p.scopes scopes

/-- An analysis with the given scopes open. -/
def Analysis.within (scopes : List Scope) (a : Analysis) : Analysis := { a with scopes := scopes }

namespace Respelling

variable {r : Respelling}

theorem spell_self {site : Site} {name : String} (other : name ≠ r.old) :
    r.spell site name = name := by
  simp [spell, other]

/-- A name is spelled as it was, or it is the old one and spelled as the new one. -/
theorem spellFound_cases (scopes : List OpenScope) (name : String) :
    r.spellFound scopes name = name ∨
      (name = r.old ∧ r.spellFound scopes name = r.new) := by
  unfold spellFound
  split
  · next scope found =>
      unfold spell
      split
      · next here => exact .inr ⟨here.2, rfl⟩
      · exact .inl rfl
  · exact .inl rfl

theorem spellFound_self (scopes : List OpenScope) {name : String} (other : name ≠ r.old) :
    r.spellFound scopes name = name := by
  rcases spellFound_cases scopes name with same | ⟨old, _⟩
  · exact same
  · exact absurd old other

theorem spellHere_self (p : Spot) {name : String} (other : name ≠ r.old) :
    r.spellHere p name = name := by
  unfold spellHere
  split
  · rfl
  · exact spell_self other

end Respelling

namespace Bindings.Respelled

variable {α : Type} {r : Respelling} {site : Site} {b b' : Bindings α}

theorem find?_eq (respelled : Respelled Eq r site b b') (spelled : String) :
    b'.find? spelled = (r.unspell site spelled).bind b.find? := by
  have found := respelled spelled
  revert found
  generalize (r.unspell site spelled).bind b.find? = x
  generalize b'.find? spelled = y
  intro found
  cases found with
  | some same => rw [same]
  | none => rfl

/-- A scope that does not know a name does not know it as it is spelled in other scopes. -/
theorem find?_spellFound_of_absent (respelled : Respelled Eq r site b b')
    (fresh : b.find? r.new = none) (scopes : List OpenScope) {name : String}
    (notNew : name ≠ r.new) (absent : b.find? name = none) :
    b'.find? (r.spellFound scopes name) = none := by
  rw [respelled.find?_eq]
  rcases Respelling.spellFound_cases (r := r) scopes name with same | ⟨old, new⟩
  · rw [same]
    unfold Respelling.unspell
    by_cases here : site.path = r.target
    · by_cases isOld : name = r.old
      · rw [if_pos here, if_neg notNew, if_pos isOld, Option.bind_none]
      · rw [if_pos here, if_neg notNew, if_neg isOld, Option.bind_some, absent]
    · simp [here, absent]
  · rw [new]
    unfold Respelling.unspell
    by_cases here : site.path = r.target
    · simp [here, ← old, absent]
    · simp [here, fresh]

end Bindings.Respelled

namespace Spelled

variable {r : Respelling} {p : Spot} {scopes : List Scope}

open Analysis

theorem root : Spelled r .root [] := ⟨fun _ opened => (List.not_mem_nil opened).elim, .nil⟩

/-- How scopes are spelled only depends on which are open and what they know. -/
theorem of_scopes (spelled : Spelled r p scopes) {q : Spot} (same : q.scopes = p.scopes) :
    Spelled r q scopes := by
  obtain ⟨fresh, each⟩ := spelled
  rw [← same] at fresh each
  exact ⟨fresh, each⟩

/-- A new scope without names is spelled as it is. -/
theorem push (spelled : Spelled r p scopes) (site : Site) :
    Spelled r (p.push site) ([] :: scopes) := by
  refine ⟨?_, .cons Bindings.Respelled.nil spelled.each⟩
  intro scope opened
  rcases List.mem_cons.mp opened with rfl | outer
  · rfl
  · exact spelled.fresh scope outer

/-- Entering a name as it is spelled goes along with entering the name. -/
theorem enter (spelled : Spelled r p scopes) {name : String} (notNew : name ≠ r.new)
    (ready : Bool) :
    ∃ after, Spelled r (p.enter name ready) after ∧ after.tail = scopes.tail ∧
      ∀ a : Analysis, (a.within scopes).enter (r.spellHere p name) ready = a.within after := by
  obtain ⟨fresh, each⟩ := spelled
  unfold Spot.enter Respelling.spellHere Spot.sites
  revert fresh each
  generalize opened : p.scopes = open'
  intro fresh each
  cases each with
  | nil =>
      refine ⟨[], ⟨?_, ?_⟩, rfl, fun a => rfl⟩
      · rw [opened]
        exact fresh
      · rw [opened]
        exact .nil
  | @cons scope names outer others here each =>
      refine ⟨names.insert (r.spell scope.site name) ready :: others, ⟨?_, ?_⟩, rfl, fun a => rfl⟩
      · intro other known
        rcases List.mem_cons.mp known with rfl | outside
        · rw [Bindings.find?_insert_of_ne notNew.symm]
          exact fresh scope List.mem_cons_self
        · exact fresh other (List.mem_cons_of_mem _ outside)
      · exact .cons (here.insert (fun _ => notNew) rfl) each

/-- A name as it is spelled is found at the same distance as before. -/
theorem hops? (spelled : Spelled r p scopes) {name : String} (notNew : name ≠ r.new) :
    Analysis.hops? (r.spellFound p.scopes name) scopes = Analysis.hops? name p.names := by
  obtain ⟨fresh, each⟩ := spelled
  unfold Spot.names Analysis.hops?
  revert fresh each
  generalize p.scopes = open'
  intro fresh each
  induction each with
  | nil => rfl
  | @cons scope names outer others here each ih =>
      have later := ih fun other outside => fresh other (List.mem_cons_of_mem _ outside)
      rw [List.map_cons, List.findIdx?_cons, List.findIdx?_cons]
      cases found : scope.names.find? name with
      | none =>
          have unknown : scope.names.has name = false := by simp [Bindings.has, found]
          have passed : r.spellFound (scope :: outer) name = r.spellFound outer name := by
            simp [Respelling.spellFound, unknown]
          have absent := here.find?_spellFound_of_absent (fresh scope List.mem_cons_self) outer
            notNew found
          rw [passed, later]
          simp [Bindings.has, absent, found]
      | some ready =>
          have known : scope.names.has name = true := by simp [Bindings.has, found]
          have stopped : r.spellFound (scope :: outer) name = r.spell scope.site name := by
            simp [Respelling.spellFound, known]
          have present := here.find?_eq (r.spell scope.site name)
          rw [Respelling.unspell_spell fun _ => notNew, Option.bind_some, found] at present
          rw [stopped]
          simp [Bindings.has, present, found]

/-- A name that may be read may be read as it is spelled. -/
theorem isUnready (spelled : Spelled r p scopes) {name : String} (notNew : name ≠ r.new)
    (a : Analysis) :
    (a.within scopes).isUnready (r.spellFound p.scopes name) = p.isUnready name := by
  obtain ⟨fresh, each⟩ := spelled
  unfold Spot.isUnready Analysis.isUnready within
  revert fresh each
  generalize p.scopes = open'
  intro fresh each
  cases each with
  | nil => rfl
  | @cons scope names outer others here each =>
      dsimp only
      cases found : scope.names.find? name with
      | none =>
          have absent := here.find?_spellFound_of_absent (fresh scope List.mem_cons_self)
            (scope :: outer) notNew found
          rw [absent]
      | some ready =>
          have known : scope.names.has name = true := by simp [Bindings.has, found]
          have stopped : r.spellFound (scope :: outer) name = r.spell scope.site name := by
            simp [Respelling.spellFound, known]
          have present := here.find?_eq (r.spell scope.site name)
          rw [Respelling.unspell_spell fun _ => notNew, Option.bind_some, found] at present
          rw [stopped, present]

end Spelled

namespace Respelling

variable {r : Respelling} {p q : Spot}

theorem spellHere_of_sites (same : q.sites = p.sites) (name : String) :
    r.spellHere q name = r.spellHere p name := by
  rw [spellHere, spellHere, same]

/-- Two names of a scope that are spelled alike are the same. -/
theorem eq_of_spellHere {name other : String} (notNew : name ≠ r.new) (otherNotNew : other ≠ r.new)
    (alike : r.spellHere p name = r.spellHere p other) : name = other := by
  unfold spellHere at alike
  split at alike
  · exact alike
  · next site _ _ =>
      have back := congrArg (r.unspell site) alike
      rw [unspell_spell fun _ => notNew, unspell_spell fun _ => otherNotNew] at back
      exact Option.some.inj back

end Respelling

namespace Spelled

variable {r : Respelling} {p : Spot} {scopes : List Scope}

/-- The name of a variable is declared before its initializer and defined after it. -/
theorem declareThenDefine (spelled : Spelled r p scopes) {name : String} (notNew : name ≠ r.new) :
    ∃ middle after, Spelled r (p.enter name false) middle ∧
      Spelled r ((p.enter name false).enter name true) after ∧ after.tail = scopes.tail ∧
      (∀ a : Analysis, (a.within scopes).declare (r.spellHere p name) = a.within middle) ∧
      ∀ a : Analysis, (a.within middle).define (r.spellHere p name) = a.within after := by
  obtain ⟨middle, isMiddle, middleTail, declaring⟩ := spelled.enter notNew false
  obtain ⟨after, isAfter, afterTail, defining⟩ := isMiddle.enter notNew true
  have here : r.spellHere (p.enter name false) name = r.spellHere p name :=
    Respelling.spellHere_of_sites (p.enter_sites name false) name
  rw [here] at defining
  exact ⟨middle, after, isMiddle, isAfter, afterTail.trans middleTail, declaring, defining⟩

theorem introduce (spelled : Spelled r p scopes) {name : String} (notNew : name ≠ r.new) :
    ∃ after, Spelled r (p.introduce name) after ∧ after.tail = scopes.tail ∧
      ∀ a : Analysis, (a.within scopes).introduce (r.spellHere p name) = a.within after := by
  obtain ⟨_, after, _, isAfter, afterTail, declaring, defining⟩ := spelled.declareThenDefine notNew
  refine ⟨after, isAfter, afterTail, fun a => ?_⟩
  rw [Analysis.introduce, declaring, defining]

/-- A scope that is opened with one name in it, which is spelled as it is. -/
theorem pushWith (spelled : Spelled r p scopes) (site : Site) {name : String}
    (notNew : name ≠ r.new) (notOld : name ≠ r.old) :
    ∃ inner, Spelled r ((p.push site).define name) inner ∧ inner.tail = scopes ∧
      ∀ a : Analysis, (a.within scopes).push.define name = a.within inner := by
  obtain ⟨inner, isInner, tailOf, defining⟩ := (spelled.push site).enter notNew true
  rw [Respelling.spellHere_self _ notOld] at defining
  exact ⟨inner, isInner, tailOf, defining⟩

end Spelled

namespace Analysis

variable {r : Respelling} {p : Spot} {scopes : List Scope}

@[simp] theorem record_within (events : List Event) (a : Analysis) :
    (a.within scopes).record events = (a.record events).within scopes := by
  induction events generalizing a with
  | nil => rfl
  | cons event events ih => exact ih (a.note event)

/-- An event that is sound is put on record where its name is found as it is spelled. -/
theorem locate_spelled (spelled : Spelled r p scopes) {act : Act} {reference : Reference}
    {name : String} (a : Analysis) (sought : act.sought? = some (reference, name))
    (sound : Event.fault? ⟨p, act⟩ = none) (notNew : name ≠ r.new) {other : Reference}
    (same : other.id = reference.id) :
    (a.within scopes).locate other (r.spellFound p.scopes name) =
      (a.note ⟨p, act⟩).within scopes := by
  have found := spelled.hops? notNew
  unfold locate note Event.hop? Event.distance?
  rw [sought, sound]
  cases distance : hops? name p.names with
  | none => simp [within, found, distance]
  | some distance' => simp [within, found, distance, same]

theorem read_spelled (spelled : Spelled r p scopes) {reference : Reference} (a : Analysis)
    (spared : Event.Spared r ⟨p, .read reference⟩) :
    (a.within scopes).read (r.referred p reference) =
      (a.note ⟨p, .read reference⟩).within scopes := by
  have notNew : reference.name.lexeme ≠ r.new := spared.fresh _ List.mem_cons_self
  have ready : p.isUnready reference.name.lexeme = false := by
    have sound := spared.sound
    simp only [Event.fault?] at sound
    split at sound
    · cases sound
    · next ready => exact eq_false_of_ne_true ready
  have readable := spelled.isUnready notNew a
  unfold read
  have sought : (Act.read reference).sought? = some (reference, reference.name.lexeme) := rfl
  rw [Respelling.referred, readable, ready]
  exact locate_spelled spelled a sought spared.sound notNew rfl

/-- A name that is not respelled is sought as before. -/
theorem locate_reserved (spelled : Spelled r p scopes) {act : Act} {reference : Reference}
    {name : String} (a : Analysis) (sought : act.sought? = some (reference, name))
    (sound : Event.fault? ⟨p, act⟩ = none) (notNew : name ≠ r.new) (notOld : name ≠ r.old) :
    (a.within scopes).locate reference name = (a.note ⟨p, act⟩).within scopes := by
  have located := locate_spelled spelled a sought sound notNew rfl
  rwa [Respelling.spellFound_self _ notOld] at located

theorem readThis_spelled (proper : r.Proper) (spelled : Spelled r p scopes) {keyword : Reference}
    (a : Analysis) (sound : Event.fault? ⟨p, .this keyword⟩ = none) :
    (a.within scopes).readThis p.around keyword = (a.note ⟨p, .this keyword⟩).within scopes := by
  unfold readThis
  split
  · next outside => simp [Event.fault?, outside] at sound
  · exact locate_reserved spelled a rfl sound proper.new_ne_this.symm proper.old_ne_this.symm

theorem readSuper_spelled (proper : r.Proper) (spelled : Spelled r p scopes)
    {keyword : Reference} (a : Analysis) (sound : Event.fault? ⟨p, .super keyword⟩ = none) :
    (a.within scopes).readSuper p.around keyword =
      (a.note ⟨p, .super keyword⟩).within scopes := by
  unfold readSuper
  split
  · next outside => simp [Event.fault?, outside] at sound
  · next plain => simp [Event.fault?, plain] at sound
  · exact locate_reserved spelled a rfl sound proper.new_ne_super.symm proper.old_ne_super.symm

/-- A class that does not name itself as its superclass does not do so if names are respelled. -/
theorem superclass_ne {name : Token} {reference : Reference}
    (inherits : Event.Spared r ⟨p, .inherit name reference⟩) :
    (r.referred p reference).name.lexeme ≠ name.lexeme := by
  intro same
  rcases Respelling.spellFound_cases (r := r) p.scopes reference.name.lexeme with kept | ⟨_, new⟩
  · have sound := inherits.sound
    simp only [Event.fault?] at sound
    rw [if_pos (kept.symm.trans same)] at sound
    cases sound
  · exact inherits.fresh _ List.mem_cons_self (same.symm.trans new)

theorem superclass_spelled (spelled : Spelled r p scopes) {name : Token} {reference : Reference}
    (inherits : Event.Spared r ⟨p, .inherit name reference⟩)
    (reads : Event.Spared r ⟨p, .read reference⟩) (a : Analysis) :
    (a.within scopes).superclass name (r.referred p reference) =
      (((a.note ⟨p, .read reference⟩).within scopes).push).define "super" := by
  rw [superclass, if_neg (superclass_ne inherits), read_spelled spelled a reads]

/-- A return that is sound stands in a function. -/
theorem returned_of_sound {keyword : Token} (sound : Event.fault? ⟨p, .ret keyword⟩ = none)
    (a : Analysis) : a.returned p.around keyword = a := by
  unfold returned
  split
  · rfl
  · next outside => simp [Event.fault?, outside] at sound

theorem parameters_spelled {seen : List String} {params : List Token}
    (spelled : Spelled r p scopes)
    (spared : ∀ event ∈ walkParameters seen p params, event.Spared r) :
    ∃ after, Spelled r (p.introduceAll (params.map Token.lexeme)) after ∧
      after.tail = scopes.tail ∧
      ∀ a : Analysis,
        (a.within scopes).parameters (seen.map (r.spellHere p)) (params.map (r.declared p)) =
          (a.record (walkParameters seen p params)).within after := by
  induction params generalizing seen p scopes with
  | nil => exact ⟨scopes, spelled, rfl, fun a => rfl⟩
  | cons param params ih =>
      have first := spared _ List.mem_cons_self
      have later := fun event walked => spared event (List.mem_cons_of_mem _ walked)
      have notNew : param.lexeme ≠ r.new := first.fresh _ List.mem_cons_self
      obtain ⟨inner, isInner, innerTail, introducing⟩ := spelled.introduce notNew
      have declaring : ∀ b : Analysis,
          (b.within scopes).introduce (r.declared p param).lexeme = b.within inner := introducing
      obtain ⟨after, isAfter, afterTail, others⟩ := ih isInner later
      have unseen : (r.declared p param).lexeme ∉ seen.map (r.spellHere p) := by
        intro again
        obtain ⟨name, known, alike⟩ := List.mem_map.mp again
        have same := Respelling.eq_of_spellHere
          (first.fresh name (List.mem_cons_of_mem _ known)) notNew alike
        have sound := first.sound
        simp [Event.fault?, ← same, known] at sound
      have here : r.spellHere (p.introduce param.lexeme) = r.spellHere p :=
        funext (Respelling.spellHere_of_sites (p.introduce_sites param.lexeme))
      have declares : r.declared (p.introduce param.lexeme) = r.declared p := by
        funext token
        rw [Respelling.declared, here, Respelling.declared]
      rw [here, declares] at others
      refine ⟨after, isAfter, afterTail.trans innerTail, fun a => ?_⟩
      rw [List.map_cons, parameters, if_neg unseen, declaring, walkParameters, record_cons,
        note_silent ⟨p, .parameter seen param⟩ a rfl first.sound]
      exact others a

end Analysis

/-! ## Whole phrases -/

section Phrases

variable {r : Respelling}

open Analysis

mutual
theorem Expr.analyze_respell (proper : r.Proper) {p : Spot} {scopes : List Scope}
    (spelled : Spelled r p scopes) (expr : Expr) (spared : ∀ event ∈ expr.walk p, event.Spared r)
    (a : Analysis) :
    (expr.respell r p).analyze p.around (a.within scopes) =
      (a.record (expr.walk p)).within scopes := by
  cases expr with
  | assign target value =>
      obtain ⟨inValue, atTarget⟩ := List.forall_mem_append.mp spared
      have here := atTarget _ List.mem_cons_self
      have sought : (Act.assign target).sought? = some (target, target.name.lexeme) := rfl
      rw [Expr.respell, Expr.analyze, value.analyze_respell proper spelled inValue, Expr.walk,
        record_append]
      exact locate_spelled spelled _ sought here.sound (here.fresh _ List.mem_cons_self) rfl
  | binary left operator right =>
      obtain ⟨inLeft, inRight⟩ := List.forall_mem_append.mp spared
      rw [Expr.respell, Expr.analyze, left.analyze_respell proper spelled inLeft,
        right.analyze_respell proper spelled inRight, Expr.walk, record_append]
  | call callee paren args =>
      obtain ⟨inCallee, inArgs⟩ := List.forall_mem_append.mp spared
      rw [Expr.respell, Expr.analyze, callee.analyze_respell proper spelled inCallee,
        analyzeAll_respell proper spelled args inArgs, Expr.walk, record_append]
  | get object name => exact object.analyze_respell proper spelled spared a
  | grouping inner => exact inner.analyze_respell proper spelled spared a
  | literal value => rfl
  | logical left operator right =>
      obtain ⟨inLeft, inRight⟩ := List.forall_mem_append.mp spared
      rw [Expr.respell, Expr.analyze, left.analyze_respell proper spelled inLeft,
        right.analyze_respell proper spelled inRight, Expr.walk, record_append]
  | set object name value =>
      obtain ⟨inValue, inObject⟩ := List.forall_mem_append.mp spared
      rw [Expr.respell, Expr.analyze, value.analyze_respell proper spelled inValue,
        object.analyze_respell proper spelled inObject, Expr.walk, record_append]
  | super keyword method =>
      exact readSuper_spelled proper spelled a (spared _ List.mem_cons_self).sound
  | this keyword => exact readThis_spelled proper spelled a (spared _ List.mem_cons_self).sound
  | unary operator operand => exact operand.analyze_respell proper spelled spared a
  | var name => exact read_spelled spelled a (spared _ List.mem_cons_self)

theorem analyzeAll_respell (proper : r.Proper) {p : Spot} {scopes : List Scope}
    (spelled : Spelled r p scopes) (exprs : List Expr)
    (spared : ∀ event ∈ walkAll p exprs, event.Spared r) (a : Analysis) :
    analyzeAll p.around (respellAll r p exprs) (a.within scopes) =
      (a.record (walkAll p exprs)).within scopes := by
  cases exprs with
  | nil => rfl
  | cons expr exprs =>
      obtain ⟨first, others⟩ := List.forall_mem_append.mp spared
      rw [respellAll, analyzeAll, expr.analyze_respell proper spelled first,
        analyzeAll_respell proper spelled exprs others, walkAll, record_append]
end

theorem analyzeOptional_respell (proper : r.Proper) {p : Spot} {scopes : List Scope}
    (spelled : Spelled r p scopes) (expr : Option Expr)
    (spared : ∀ event ∈ walkOptional p expr, event.Spared r) (a : Analysis) :
    analyzeOptional p.around (respellOptional r p expr) (a.within scopes) =
      (a.record (walkOptional p expr)).within scopes := by
  cases expr with
  | none => rfl
  | some expr => exact expr.analyze_respell proper spelled spared a

mutual
/-- Analysis of a respelled statement records the walk of the statement as it was. -/
theorem Stmt.analyze_respell (proper : r.Proper) {path : List Nat} {p : Spot}
    {scopes : List Scope} (spelled : Spelled r p scopes) (stmt : Stmt)
    (spared : ∀ event ∈ stmt.walk path p, event.Spared r) :
    ∃ after, Spelled r (p.after stmt) after ∧ after.tail = scopes.tail ∧
      ∀ a : Analysis, (stmt.respell r path p).analyze p.around (a.within scopes) =
        (a.record (stmt.walk path p)).within after := by
  cases stmt with
  | block body =>
      obtain ⟨inner, isInner, tailOf, walking⟩ := analyzeBody_respell proper
        (spelled.push ⟨.block body, path⟩) 0 body spared
      refine ⟨scopes, spelled, rfl, fun a => ?_⟩
      refine (congrArg pop (walking a)).trans ?_
      rw [← show inner.tail = scopes from tailOf]
      rfl
  | classDecl name superclass methods =>
      cases superclass with
      | none =>
          obtain ⟨here, inMethods⟩ := List.forall_mem_cons.mp spared
          have notNew : name.lexeme ≠ r.new := here.fresh _ List.mem_cons_self
          obtain ⟨after, isAfter, afterTail, introducing⟩ := spelled.introduce notNew
          rw [here.defined name rfl] at introducing
          refine ⟨after, isAfter, afterTail, fun a => ?_⟩
          have inside : Spelled r ((p.introduce name.lexeme).inClass .plain) after :=
            isAfter.of_scopes rfl
          have walking := analyzeMethods_respell proper inside 0 methods inMethods a
          rw [Stmt.respell, Stmt.analyze, introducing, Stmt.walk, record_cons,
            note_silent _ a rfl rfl]
          exact congrArg pop walking
      | some reference =>
          obtain ⟨here, others⟩ := List.forall_mem_cons.mp spared
          obtain ⟨inherits, others⟩ := List.forall_mem_cons.mp others
          obtain ⟨reads, inMethods⟩ := List.forall_mem_cons.mp others
          have notNew : name.lexeme ≠ r.new := here.fresh _ List.mem_cons_self
          obtain ⟨after, isAfter, afterTail, introducing⟩ := spelled.introduce notNew
          rw [here.defined name rfl] at introducing
          obtain ⟨inner, isInner, tailOf, defining⟩ := isAfter.pushWith
            ⟨.superclass methods, path⟩ proper.new_ne_super.symm proper.old_ne_super.symm
          have inside :
              Spelled r (((p.introduce name.lexeme).forSuperclass path methods).inClass .derived)
                inner :=
            isInner.of_scopes rfl
          refine ⟨after, isAfter, afterTail, fun a => ?_⟩
          have walking := analyzeMethods_respell proper inside 0 methods inMethods
            (a.note ⟨p.introduce name.lexeme, .read reference⟩)
          rw [Stmt.respell, Stmt.analyze, introducing, superclass_spelled isAfter inherits reads,
            defining, Stmt.walk, record_cons, note_silent ⟨p, .define name⟩ a rfl rfl, record_cons,
            note_silent ⟨_, .inherit name reference⟩ a rfl inherits.sound, record_cons]
          refine (congrArg (fun b => pop (pop b)) walking).trans ?_
          rw [← tailOf]
          rfl
  | expression expr =>
      exact ⟨scopes, spelled, rfl, expr.analyze_respell proper spelled spared⟩
  | funDecl decl =>
      obtain ⟨here, inside⟩ := List.forall_mem_cons.mp spared
      have notNew : decl.name.lexeme ≠ r.new := here.fresh _ List.mem_cons_self
      obtain ⟨after, isAfter, afterTail, introducing⟩ := spelled.introduce notNew
      rw [here.defined decl.name rfl] at introducing
      refine ⟨after, isAfter, afterTail, fun a => ?_⟩
      have walking := decl.analyze_respell proper isAfter inside a
      rw [Spot.introduce_around] at walking
      rw [Stmt.respell, Stmt.analyze, decl.respell_name, introducing, walking, Stmt.walk,
        record_cons, note_silent _ a rfl rfl]
  | ifElse condition thenBranch elseBranch =>
      cases elseBranch with
      | none =>
          obtain ⟨inCondition, others⟩ := List.forall_mem_append.mp spared
          obtain ⟨branch, inThen⟩ := List.forall_mem_cons.mp others
          obtain ⟨after, isAfter, afterTail, walking⟩ := thenBranch.analyze_respell proper spelled inThen
          refine ⟨after, isAfter, afterTail, fun a => ?_⟩
          rw [Stmt.respell, Stmt.analyze, condition.analyze_respell proper spelled inCondition,
            walking, Stmt.walk, record_append, record_cons, note_silent _ _ rfl rfl]
      | some elseBranch =>
          obtain ⟨inCondition, others⟩ := List.forall_mem_append.mp spared
          obtain ⟨inThen, inElse⟩ := List.forall_mem_append.mp others
          obtain ⟨branch, inThen⟩ := List.forall_mem_cons.mp inThen
          obtain ⟨branch, inElse⟩ := List.forall_mem_cons.mp inElse
          obtain ⟨middle, isMiddle, middleTail, walkingThen⟩ :=
            thenBranch.analyze_respell proper spelled inThen
          obtain ⟨after, isAfter, afterTail, walkingElse⟩ :=
            elseBranch.analyze_respell proper isMiddle inElse
          rw [Spot.after_around] at walkingElse
          refine ⟨after, isAfter.of_scopes ?_, afterTail.trans middleTail, fun a => ?_⟩
          · simp only [Spot.after, Stmt.declares, Spot.introduceAll_append]
          · rw [Stmt.respell, Stmt.analyze, condition.analyze_respell proper spelled inCondition,
              walkingThen, walkingElse, Stmt.walk, record_append, record_append, record_cons,
              record_cons, note_silent _ _ rfl rfl, note_silent _ _ rfl rfl]
  | inclusion pathToken => exact ⟨scopes, spelled, rfl, fun a => rfl⟩
  | print value => exact ⟨scopes, spelled, rfl, value.analyze_respell proper spelled spared⟩
  | ret keyword value =>
      obtain ⟨here, inValue⟩ := List.forall_mem_cons.mp spared
      refine ⟨scopes, spelled, rfl, fun a => ?_⟩
      rw [Stmt.respell, Stmt.analyze, returned_of_sound here.sound,
        analyzeOptional_respell proper spelled value inValue, Stmt.walk, record_cons,
        note_silent ⟨p, .ret keyword⟩ a rfl here.sound]
  | varDecl name init =>
      obtain ⟨here, inInit⟩ := List.forall_mem_cons.mp spared
      have notNew : name.lexeme ≠ r.new := here.fresh _ List.mem_cons_self
      obtain ⟨middle, after, isMiddle, isAfter, afterTail, declaring, defining⟩ :=
        spelled.declareThenDefine notNew
      have declaring : ∀ b : Analysis,
          (b.within scopes).declare (r.declared p name).lexeme = b.within middle := declaring
      have walking := analyzeOptional_respell proper isMiddle init inInit
      rw [Spot.enter_around] at walking
      refine ⟨after, isAfter, afterTail, fun a => ?_⟩
      rw [Stmt.respell, Stmt.analyze, declaring]
      refine (congrArg (fun b => define _ b) (walking a)).trans ?_
      refine (defining _).trans ?_
      rw [Stmt.walk, record_cons, note_silent ⟨p, .declare name⟩ a rfl rfl]
      rfl
  | whileLoop condition body =>
      obtain ⟨inCondition, others⟩ := List.forall_mem_append.mp spared
      obtain ⟨branch, inBody⟩ := List.forall_mem_cons.mp others
      obtain ⟨after, isAfter, afterTail, walking⟩ := body.analyze_respell proper spelled inBody
      refine ⟨after, isAfter, afterTail, fun a => ?_⟩
      rw [Stmt.respell, Stmt.analyze, condition.analyze_respell proper spelled inCondition,
        walking, Stmt.walk, record_append, record_cons, note_silent _ _ rfl rfl]

theorem FunDecl.analyze_respell (proper : r.Proper) {path : List Nat} {p : Spot}
    {scopes : List Scope} (spelled : Spelled r p scopes) (decl : FunDecl)
    (spared : ∀ event ∈ decl.walk path p, event.Spared r) (a : Analysis) :
    (decl.respell r path p).analyze p.around.inClass (a.within scopes) =
      (a.record (decl.walk path p)).within scopes := by
  obtain ⟨name, params, body⟩ := decl
  obtain ⟨atParams, inBody⟩ := List.forall_mem_append.mp spared
  have opened : Spelled r (p.forFunction path ⟨name, params, body⟩) ([] :: scopes) :=
    (spelled.push ⟨.function ⟨name, params, body⟩, path⟩).of_scopes rfl
  obtain ⟨middle, isMiddle, middleTail, walkingParams⟩ := parameters_spelled opened atParams
  obtain ⟨after, isAfter, afterTail, walkingBody⟩ :=
    analyzeBody_respell proper isMiddle 0 body inBody
  have tailOf : after.tail = scopes := afterTail.trans middleTail
  rw [FunDecl.respell, FunDecl.analyze]
  refine (congrArg (fun b => pop (analyzeBody _ _ b)) (walkingParams a)).trans ?_
  have walking :=
    walkingBody (a.record (walkParameters [] (p.forFunction path ⟨name, params, body⟩) params))
  rw [Spot.introduceAll_around] at walking
  refine (congrArg pop walking).trans ?_
  rw [FunDecl.walk, record_append, ← tailOf]
  rfl

theorem analyzeBody_respell (proper : r.Proper) {path : List Nat} {p : Spot}
    {scopes : List Scope} (spelled : Spelled r p scopes) (index : Nat) (stmts : List Stmt)
    (spared : ∀ event ∈ walkBody path p index stmts, event.Spared r) :
    ∃ after, Spelled r (p.afterBody stmts) after ∧ after.tail = scopes.tail ∧
      ∀ a : Analysis, analyzeBody p.around (respellBody r path p index stmts) (a.within scopes) =
        (a.record (walkBody path p index stmts)).within after := by
  cases stmts with
  | nil => exact ⟨scopes, spelled, rfl, fun a => rfl⟩
  | cons stmt stmts =>
      obtain ⟨first, others⟩ := List.forall_mem_append.mp spared
      obtain ⟨middle, isMiddle, middleTail, walkingFirst⟩ := stmt.analyze_respell proper spelled first
      obtain ⟨after, isAfter, afterTail, walkingOthers⟩ :=
        analyzeBody_respell proper isMiddle (index + 1) stmts others
      refine ⟨after, isAfter, afterTail.trans middleTail, fun a => ?_⟩
      rw [Spot.after_around] at walkingOthers
      rw [respellBody, analyzeBody, walkingFirst, walkingOthers, walkBody, record_append]

theorem analyzeMethods_respell (proper : r.Proper) {path : List Nat} {p : Spot}
    {scopes : List Scope} (spelled : Spelled r p scopes) (index : Nat) (methods : List FunDecl)
    (spared : ∀ event ∈ walkMethods path p index methods, event.Spared r) (a : Analysis) :
    analyzeMethods (respellMethods r path p index methods) p.around.inClass
        ((a.within scopes).push.define "this") =
      ((a.record (walkMethods path p index methods)).within scopes).push.define "this" := by
  cases methods with
  | nil => rfl
  | cons method methods =>
      obtain ⟨first, others⟩ := List.forall_mem_append.mp spared
      obtain ⟨inner, isInner, _, defining⟩ := spelled.pushWith ⟨.receiver method, path⟩
        proper.new_ne_this.symm proper.old_ne_this.symm
      have walking := method.analyze_respell proper isInner first a
      have rest := analyzeMethods_respell proper spelled (index + 1) methods others
        (a.record (method.walk (index :: path) (p.forReceiver path method)))
      rw [respellMethods, analyzeMethods, walkMethods, record_append, defining]
      rw [defining] at rest
      refine Eq.trans ?_ rest
      exact congrArg (analyzeMethods _ _) walking
end

/-- Analysis finds as little fault with a respelled program, and the same distances. -/
theorem analyze_respell (proper : r.Proper) (first : Nat) (stmts : List Stmt)
    (spared : ∀ event ∈ walkProgram first stmts, event.Spared r) :
    (analyze (respellProgram r first stmts)).errors = (analyze stmts).errors ∧
      (analyze (respellProgram r first stmts)).hops = (analyze stmts).hops := by
  obtain ⟨after, _, _, walking⟩ := analyzeBody_respell proper Spelled.root 0 stmts spared
  have respelled : analyze (respellProgram r first stmts) =
      (start.record (walkProgram first stmts)).within after := walking start
  rw [respelled, analyze_eq_record first stmts]
  exact ⟨rfl, rfl⟩

end Phrases

end Lox
