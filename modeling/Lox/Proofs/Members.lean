import Lox.Proofs.Leads
import Lox.Proofs.Resolution
import Lox.Proofs.Scope.Members

/-!
# Later members of a body are not seen

A function or a class in a body sees the parameters, the members before it and itself.  A function
or a class that the same body declares behind it is passed over, and the name is looked for further
outside, at last among the globals, where the order of declarations does not matter: there a name
is looked for when it is used.
-/

namespace Lox

/-- In the scope of each body around it, an event in a function or in a class among the members
finds a name just if the parameters, a member before, or this member itself declares it. -/
def Event.SeesNoLaterMember (event : Event) (name : String) : Prop :=
  ∀ distance scope params body, event.spot.scopes[distance]? = some scope →
    scope.site.opener.body? = some (params, body) →
      ∃ before member after, body = before ++ member :: after ∧ event.act ∈ member.acts ∧
        (member.isDeclaration = true →
          (event.distance? = some distance ↔
            (∀ nearer ∈ event.spot.scopes.take distance, nearer.names.has name = false) ∧
              (name ∈ params ++ declaresAll before ∨ name ∈ member.declares)))

namespace Spot

variable {p : Spot} {name : String} {distance : Nat} {scope : OpenScope}

/-- Analysis finds a name in the nearest scope that knows it. -/
theorem hops?_eq_some_iff (isOpen : p.scopes[distance]? = some scope) :
    Analysis.hops? name p.names = some distance ↔
      (∀ nearer ∈ p.scopes.take distance, nearer.names.has name = false) ∧
        scope.names.has name = true := by
  obtain ⟨inRange, isScope⟩ := List.getElem?_eq_some_iff.mp isOpen
  have isNamed : ∀ (index : Nat) (opened : index < p.scopes.length)
      (short : index < p.names.length), p.names[index] = p.scopes[index].names :=
    fun _ _ _ => List.getElem_map OpenScope.names
  have short : distance < p.names.length := by simpa [names] using inRange
  constructor
  · intro found
    obtain ⟨_, has, _⟩ := List.findIdx?_eq_some_iff_getElem.mp found
    rw [isNamed distance inRange short, isScope] at has
    exact ⟨nearer_unknown found, has⟩
  · rintro ⟨nearer, has⟩
    refine List.findIdx?_eq_some_iff_getElem.mpr ⟨short, ?_, fun index before => ?_⟩
    · rw [isNamed distance inRange short, isScope]
      exact has
    · have listed : p.scopes[index] ∈ p.scopes.take distance :=
        List.mem_take_iff_getElem.mpr ⟨index, by omega, rfl⟩
      rw [isNamed index (before.trans inRange) (before.trans short), nearer _ listed]
      exact Bool.false_ne_true

end Spot

theorem Event.seesNoLaterMember {first : Nat} {stmts : List Stmt} {event : Event}
    {reference : Reference} {name : String} (walked : event ∈ walkProgram first stmts)
    (sought : event.act.sought? = some (reference, name)) : event.SeesNoLaterMember name := by
  intro distance scope params body isOpen isBody
  have seeks : event.act.sought?.isSome = true := by rw [sought]; rfl
  obtain ⟨before, member, after, whole, stands⟩ :=
    walkProgram_follows walked seeks scope (List.mem_of_getElem? isOpen) params body isBody
  refine ⟨before, member, after, whole, stands.among, fun isDeclaration => ?_⟩
  have distance? : event.distance? = Analysis.hops? name event.spot.names := by
    rw [Event.distance?, sought]
    rfl
  rw [distance?, Spot.hops?_eq_some_iff isOpen]
  refine and_congr_right fun _ => ⟨stands.nothingElse name, ?_⟩
  rintro (earlier | own)
  · exact stands.knows name earlier
  · exact stands.itself isDeclaration name own

/-- A read of a name that is found in no scope answers what the globals hold by then. -/
theorem Machine.Agrees.read_global {m : Machine} {past : Past} {event : Event}
    {reference : Reference} {name : String} (agrees : m.Agrees past event reference name)
    (notFound : event.distance? = none) :
    m.state.read reference =
      match m.state.store.valueIn? 0 reference.name.lexeme with
      | some value => .value value
      | none => .failAt reference.name (.undefinedVariable reference.name.lexeme) := by
  have global := (agrees.global (agrees.recorded.trans notFound)).1
  cases held : m.state.store.valueIn? 0 reference.name.lexeme with
  | none => simp only [State.read, global, held]
  | some value => simp only [State.read, global, held]

/--
In every program, whatever is looked up in a function or in a class that is a member of a body is
found in the scope of the body just if no nearer scope knows the name and the parameters, an
earlier member or this member itself declares it: a later member is not seen.  Every run looks names
up accordingly, in the frames that were made for these scopes.  A name that no scope around had
declared by then is a global, or undefined.
-/
theorem later_members_are_not_seen (first : Nat) (stmts : List Stmt) :
    (∀ (event : Event) (reference : Reference) (name : String),
      event ∈ walkProgram first stmts → event.act.sought? = some (reference, name) →
        event.SeesNoLaterMember name) ∧
    (∀ (past : Past) (m : Machine) (act : Act), Reached past m → m.lookup? = some act →
      ∃ reference name event, act.sought? = some (reference, name) ∧ past.Knows event ∧
        event.act = act ∧ m.Agrees past event reference name ∧ event.SeesNoLaterMember name ∧
          (event.distance? = none → m.state.read reference =
            match m.state.store.valueIn? 0 reference.name.lexeme with
            | some value => .value value
            | none => .failAt reference.name (.undefinedVariable reference.name.lexeme))) := by
  refine ⟨fun _ _ _ walked sought => Event.seesNoLaterMember walked sought, ?_⟩
  intro past m act reached next
  obtain ⟨w, sites, known, related⟩ := reached.related fun _ => Past.first_ne_unused
  obtain ⟨p, reference, looksUp⟩ := related.looksUp next
  obtain @⟨_, _, control, _, tasks, _, s, _, _, _, _, states⟩ := related
  have agrees := looksUp.agrees states sites control tasks
  obtain ⟨loaded, held, walked⟩ := (known _).mp looksUp.known
  exact ⟨reference, reference.name.lexeme, ⟨p, act⟩, looksUp.sought, ⟨loaded, held, walked⟩, rfl,
    agrees, Event.seesNoLaterMember walked looksUp.sought, agrees.read_global⟩

/-- The text of two functions of which the first calls the second, and a call of the first. -/
def callingLater : String :=
  "fun a() \x7b return b(); \x7d fun b() \x7b return true; \x7d print a();"

/-- The same in a block. -/
def callingLaterInBlock : String := "\x7b " ++ callingLater ++ " \x7d"

/-- Whether the machine has come to the name of the later function, of which nothing is on
record. -/
def looksUpLater (program : Program) : Bool :=
  let m := ((Session.fresh .unlimited .unlimited false).begin 0 program).advanced
    (fun _ => .error .missing) 14
  match m.lookup? with
  | some (.read reference) =>
      decide (reference.name.lexeme = "b") && decide (m.state.hops[reference.id]? = none) &&
        (m.state.store.valueIn? 0 reference.name.lexeme).isNone
  | _ => false

/-- When the first function is called, the block has bound the second, which is not found there. -/
theorem later_function_is_passed_over :
    ∃ (past : Past) (m : Machine) (reference : Reference) (event : Event),
      Reached past m ∧ m.lookup? = some (.read reference) ∧ reference.name.lexeme = "b" ∧
        m.Agrees past event reference reference.name.lexeme ∧
        event.SeesNoLaterMember reference.name.lexeme ∧
        (∃ first stmts, event ∈ walkProgram first stmts ∧
          event.act.sought? = some (reference, reference.name.lexeme) ∧
          event.SeesNoLaterMember reference.name.lexeme) ∧
        m.state.read reference =
          .failAt reference.name (.undefinedVariable reference.name.lexeme) := by
  obtain ⟨program, compiled, looks⟩ := exists_of_compilesTo
    (show compilesTo looksUpLater callingLaterInBlock = true by decide +kernel)
  have fresh : (Session.fresh .unlimited .unlimited false).Reachable := .fresh _ _ _
  obtain ⟨_, started, _⟩ := fresh.atRest.begin 0 compiled
  obtain ⟨past, reached⟩ := started.advanced (fun _ => .error .missing) 14
  unfold looksUpLater at looks
  dsimp only at looks
  split at looks
  · next reference next' =>
      simp only [Bool.and_eq_true, decide_eq_true_eq, Option.isNone_iff_eq_none] at looks
      obtain ⟨⟨spelled, unrecorded⟩, unbound⟩ := looks
      obtain ⟨other, name, event, sought, ⟨loaded, held, walked⟩, isRead, agrees, sees, global⟩ :=
        (later_members_are_not_seen 0 program.stmts).2 past _ _ reached next'
      cases sought
      have soughtToo : event.act.sought? = some (reference, reference.name.lexeme) := by
        rw [isRead]
        rfl
      have seesToo := (later_members_are_not_seen loaded.first loaded.program.stmts).1 event
        reference _ walked soughtToo
      have read := global (agrees.recorded.symm.trans unrecorded)
      rw [unbound] at read
      exact ⟨past, _, reference, event, reached, next', spelled, agrees, sees,
        ⟨_, _, walked, soughtToo, seesToo⟩, read⟩
  · cases looks

/-- What a fresh session makes of a text: the errors of its run, and its output. -/
def Session.transcript (source : String) : Option (List String) × String :=
  let ran :=
    (Session.fresh .unlimited .unlimited false).run ⟨fun _ => .error .missing, 0, 99⟩ source
  (match ran.1 with
    | .finished errors => some (errors.map Error.text)
    | _ => none, ran.2.state.output.text)

/-- A function that is declared behind its caller is found at top level, and is not in a block. -/
theorem later_function_of_block_is_undefined :
    Session.transcript callingLater = (some [], "true\n") ∧
      Session.transcript callingLaterInBlock =
        (some ["Undefined variable 'b'.\n[line 1]"], "") := by
  decide +kernel

end Lox
