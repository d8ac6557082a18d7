import Lox.Proofs.History
import Lox.Proofs.Scope.Texts

/-!
# Names of local variables do not matter

A scope may give a variable or a parameter any other name that its source does not use: in the
declarations of the name and in the references and assignments that find it there.  The source
that is rewritten so is accepted as before, and from any session it runs as before, up to the
spelling of the name in one message.
-/

namespace Lox

/-! ## Which names may be changed -/

/-- The innermost scope of a spot is the one at a path. -/
def Spot.IsAt (path : List Nat) (p : Spot) : Prop := p.sites.head?.map Site.path = some path

instance (path : List Nat) (p : Spot) : Decidable (p.IsAt path) :=
  inferInstanceAs (Decidable (_ = _))

/-- The name that is declared for a variable or a parameter. -/
def Act.plainlyDeclared? : Act → Option String
  | .declare name => some name.lexeme
  | .parameter _ param => some param.lexeme
  | _ => none

/-- The name that is declared for a function or a class. -/
def Act.defined? : Act → Option String
  | .define name => some name.lexeme
  | _ => none

/--
A block or a function of a program, told by its path, declares a name, and that for variables and
parameters only.
-/
structure Program.DeclaresPlainly (first : Nat) (program : Program) (path : List Nat)
    (name : String) : Prop where
  declared : ∃ event ∈ program.events first, event.spot.IsAt path ∧
    event.act.plainlyDeclared? = some name
  only : ∀ event ∈ program.events first, event.spot.IsAt path → event.act.defined? ≠ some name

instance (first : Nat) (program : Program) (path : List Nat) (name : String) :
    Decidable (program.DeclaresPlainly first path name) :=
  decidable_of_iff
    ((∃ event ∈ program.events first, event.spot.IsAt path ∧
      event.act.plainlyDeclared? = some name) ∧
      ∀ event ∈ program.events first, event.spot.IsAt path → event.act.defined? ≠ some name)
    ⟨fun both => ⟨both.1, both.2⟩, fun declares => ⟨declares.declared, declares.only⟩⟩

namespace Program.DeclaresPlainly

variable {first : Nat} {source : String} {program : Program} {path : List Nat} {old new : String}

/-- A name that is declared is no reserved word. -/
theorem isName (declares : program.DeclaresPlainly first path old)
    (checked : program.Checked first) :
    ∃ token : Token, token.lexeme = old ∧ token.IsOf [.identifier] := by
  obtain ⟨event, walked, _, declared⟩ := declares.declared
  have proper := checked.proper event walked
  obtain ⟨spot, act⟩ := event
  cases act with
  | declare name => exact ⟨name, Option.some.inj declared, proper⟩
  | parameter seen param => exact ⟨param, Option.some.inj declared, proper⟩
  | _ => cases declared

theorem unreserved (declares : program.DeclaresPlainly first path old)
    (checked : program.Checked first) : Kind.ofWord? old.toList = none := by
  obtain ⟨token, rfl, isOf⟩ := declares.isName checked
  exact isOf.faithful.unreserved (List.mem_singleton.mp isOf.kind)

/-- The scope belongs to the program. -/
theorem getLast?_path (declares : program.DeclaresPlainly first path old) :
    path.getLast? = some first := by
  obtain ⟨event, walked, isAt, _⟩ := declares.declared
  obtain ⟨site, innermost, rfl⟩ := Option.map_eq_some_iff.mp isAt
  exact walkBody_rooted rfl Spot.Rooted.root 0 program.stmts event walked site
    (List.mem_of_head? innermost)

/-- No name at any point of the program is the new one, if that does not occur in the source. -/
theorem fresh (compiled : compile first source = .ok program)
    (unused : ∀ token ∈ Token.ofSource source, token.lexeme ≠ new) :
    ∀ event ∈ program.events first, ∀ name ∈ event.act.names, name ≠ new := by
  intro event walked name named
  obtain ⟨token, inTree, rfl⟩ := Event.exists_token walked named
  exact unused token (mem_ofSource_of_mem_tokens compiled token inTree)

theorem differs (declares : program.DeclaresPlainly first path old)
    (fresh : ∀ event ∈ program.events first, ∀ name ∈ event.act.names, name ≠ new) :
    new ≠ old := by
  obtain ⟨event, walked, _, declared⟩ := declares.declared
  refine (fresh event walked old ?_).symm
  revert declared
  cases event.act with
  | declare name => rintro ⟨⟩; exact List.mem_cons_self
  | parameter seen param => rintro ⟨⟩; exact List.mem_cons_self
  | _ => intro impossible; cases impossible

theorem proper (declares : program.DeclaresPlainly first path old)
    (checked : program.Checked first) (isNew : Token.IsName new.toList) (differs : new ≠ old) :
    (Respelling.mk path old new).Proper := by
  obtain ⟨token, isOld, isOf⟩ := declares.isName checked
  obtain ⟨notThis, notSuper⟩ := (isOf.mono (List.cons_subset_cons _ (List.nil_subset _))).lexeme_ne
  rw [isOld] at notThis notSuper
  have unreserved := isNew.unreserved
  refine ⟨notThis, notSuper, ?_, ?_, differs⟩
  · rintro rfl
    cases unreserved
  · rintro rfl
    cases unreserved

/-- Functions and classes of the scope keep their names. -/
theorem defined (declares : program.DeclaresPlainly first path old) (new : String) :
    ∀ event ∈ program.events first, ∀ token, event.act = .define token →
      (Respelling.mk path old new).spellHere event.spot token.lexeme = token.lexeme := by
  intro event walked token defines
  unfold Respelling.spellHere
  split
  · rfl
  · next site outer sites =>
      unfold Respelling.spell
      split
      · next both =>
          obtain ⟨here, rfl⟩ := both
          have isAt : event.spot.IsAt path := by
            rw [Spot.IsAt, sites]
            exact congrArg some here
          refine absurd ?_ (declares.only event walked isAt)
          rw [defines]
          rfl
      · rfl

end Program.DeclaresPlainly

/-! ## Runs -/

/-- How machines that correspond end. -/
inductive Machine.Ending.Respelled (r : Respelling) : Machine.Ending → Machine.Ending → Prop where
  | value (value value' : Value) :
      Respelled r (.outcome (.value value)) (.outcome (.value value'))
  | returned (value value' : Value) :
      Respelled r (.outcome (.returned value)) (.outcome (.returned value'))
  | failed {error error' : Error} (related : ErrorRel r error error') :
      Respelled r (.outcome (.failed error)) (.outcome (.failed error'))
  | exited (code : UInt8) : Respelled r (.exited code) (.exited code)
  | unfinished : Respelled r .unfinished .unfinished

/-- Two runs that come to the same, up to the spelling of a name that is no class. -/
inductive RunResult.Respelled (r : Respelling) : RunResult → RunResult → Prop where
  | finished {errors errors' : List Error} (related : List.Forall₂ (ErrorRel r) errors errors') :
      Respelled r (.finished errors) (.finished errors')
  | exited (code : UInt8) : Respelled r (.exited code) (.exited code)
  | unfinished : Respelled r .unfinished .unfinished

namespace MachineRel

variable {r : Respelling} {w : World} {m m' : Machine}

/-- Machines that correspond have both ended, and alike, or both have not. -/
theorem ending? (related : MachineRel r w m m') :
    Option.Rel (Machine.Ending.Respelled r) m.ending? m'.ending? := by
  obtain @⟨p, q, control, control', tasks, tasks', s, s', _, doing, left, _⟩ := related
  rcases left.empty_or_cons with ⟨rfl, rfl⟩ | ⟨_, _, _, _, rfl, rfl⟩ <;> cases doing with
  | value _ _ => first | exact .some (.value _ _) | exact .none
  | returned _ _ => first | exact .some (.returned _ _) | exact .none
  | failed related => first | exact .some (.failed related) | exact .none
  | exited code => exact .some (.exited code)
  | _ => exact .none

theorem output_eq (related : MachineRel r w m m') : m'.state.output = m.state.output := by
  obtain ⟨_, _, _, states⟩ := related
  exact states.output

/-- Machines that correspond run alike: programs that they load later have other scopes. -/
theorem run {first : Nat} (related : MachineRel r w m m') (proper : r.Proper)
    (ends : r.target.getLast? = some first) (used : first < w.used)
    (files : String → Except Failure String) (steps : Nat) :
    Machine.Ending.Respelled r (m.run files steps).1 (m'.run files steps).1 ∧
      (m'.run files steps).2.output = (m.run files steps).2.output := by
  have inside : r.target ≠ [] := by
    intro none
    rw [none] at ends
    cases ends
  induction steps generalizing w m m' with
  | zero =>
      refine ⟨?_, related.output_eq⟩
      have ending := related.ending?
      unfold Machine.run
      revert ending
      cases m.ending? with
      | none =>
          cases m'.ending? with
          | none => exact fun _ => .unfinished
          | some ending' => exact fun impossible => by cases impossible
      | some ending =>
          cases m'.ending? with
          | none => exact fun impossible => by cases impossible
          | some ending' => rintro ⟨related⟩; exact related
  | succ steps ih =>
      rw [Machine.run_succ, Machine.run_succ]
      have ending := related.ending?
      revert ending
      cases m.ending? with
      | none =>
          cases m'.ending? with
          | none =>
              intro _
              dsimp only
              have foreign : ∀ loaded, m.loads? files = some loaded →
                  r.target.getLast? ≠ some loaded.first := by
                intro loaded loads same
                have := related.used_le
                have := (Machine.loads?_first loads).symm
                rw [ends] at same
                cases same
                omega
              obtain ⟨w', follows⟩ := related.advance proper inside files foreign
              exact ih follows.related (Nat.lt_of_lt_of_le used follows.used)
          | some ending' => exact fun impossible => by cases impossible
      | some ending =>
          cases m'.ending? with
          | none => exact fun impossible => by cases impossible
          | some ending' =>
              rintro ⟨ended⟩
              exact ⟨ended, related.output_eq⟩

end MachineRel

/-- Endings that correspond are put on record alike. -/
theorem Session.conclude_respelled {r : Respelling} {ending ending' : Machine.Ending}
    (related : Machine.Ending.Respelled r ending ending') (journal journal' : Journal)
    (state state' : State) :
    RunResult.Respelled r (conclude journal ending state).1 (conclude journal' ending' state').1 ∧
      (conclude journal ending state).2.state = state ∧
      (conclude journal' ending' state').2.state = state' := by
  cases related with
  | value value value' => exact ⟨.finished .nil, rfl, rfl⟩
  | returned value value' => exact ⟨.finished .nil, rfl, rfl⟩
  | failed related => exact ⟨.finished (.cons related .nil), rfl, rfl⟩
  | exited code => exact ⟨.exited code, rfl, rfl⟩
  | unfinished => exact ⟨.unfinished, rfl, rfl⟩

/-- A compiled source is run from the machine with which its session begins. -/
theorem Session.run_eq {session : Session} (host : Host) {source : String} {program : Program}
    (compiled : Program.compile session.state.nextReference source = .ok program) :
    ∃ journal, session.run host source =
      conclude journal ((session.begin host.now program).run host.files host.patience).1
        ((session.begin host.now program).run host.files host.patience).2 := by
  obtain ⟨state, journal⟩ := session
  rw [run_eq_start]
  unfold start begin
  simp only [setClock]
  rw [compiled]
  exact ⟨_, rfl⟩

/--
A local name may be changed.  Let a block or function of a compiled source declare a name for
variables and parameters only, and let another name not occur in the source.  Then the source can
be rewritten at some of the places where the old name stands so that it is compiled to the same
program with the new name in those declarations and in the references and assignments that find
the name in this scope; and from the session both sources run alike: to the same output and the
same outcome, and with the same errors, but for the spelling of a name that is no class.
-/
theorem local_name_may_be_changed {session : Session} (reachable : session.Reachable)
    {source : String} {program : Program}
    (compiled : Program.compile session.state.nextReference source = .ok program)
    {path : List Nat} {old new : String}
    (declares : program.DeclaresPlainly session.state.nextReference path old)
    (isNew : Token.IsName new.toList)
    (unused : ∀ token ∈ Token.ofSource source, token.lexeme ≠ new) :
    ∃ (places : List Nat) (renamed : Program),
      (∀ place ∈ places, ∃ token, (Token.ofSource source)[place]? = some token ∧
        token.kind = .identifier ∧ token.lexeme = old) ∧
      Program.compile session.state.nextReference (Token.rewrite places new source) = .ok renamed ∧
      renamed.stmts =
        respellProgram ⟨path, old, new⟩ session.state.nextReference program.stmts ∧
      ∀ host : Host,
        RunResult.Respelled ⟨path, old, new⟩ (session.run host source).1
          (session.run host (Token.rewrite places new source)).1 ∧
        (session.run host (Token.rewrite places new source)).2.state.output =
          (session.run host source).2.state.output := by
  have checked := Program.compile_checked compiled
  have fresh := Program.DeclaresPlainly.fresh compiled unused
  have proper := declares.proper checked isNew (declares.differs fresh)
  have ends := declares.getLast?_path
  have defined := declares.defined new
  have spared : ∀ event ∈ program.events session.state.nextReference,
      event.Spared ⟨path, old, new⟩ := fun event walked =>
    ⟨checked.sound event walked, fresh event walked, defined event walked⟩
  have fit : ∀ event ∈ program.events session.state.nextReference,
      event.Fit ⟨path, old, new⟩ := fun event walked =>
    ⟨checked.sound event walked, checked.proper event walked,
      fun name named _ _ _ => fresh event walked name named, defined event walked⟩
  obtain ⟨places, renamed, spelled, compiled', respelled, sameHops, sameWidth⟩ :=
    Program.compile_rewritten compiled proper isNew (declares.unreserved checked) spared
  refine ⟨places, renamed, spelled, compiled', respelled, fun host => ?_⟩
  -- The session corresponds to itself, since what was loaded before has other scopes.
  obtain ⟨past, outcome, reached⟩ := reachable.atRest.setClock host.now
  have foreign : ∀ loaded ∈ past.loaded, path.getLast? ≠ some loaded.first := by
    intro loaded held same
    have earlier : loaded.first < session.state.nextReference := reached.first_lt loaded held
    have same := Option.some.inj (ends.symm.trans same)
    omega
  have inside : path ≠ [] := by
    rintro rfl
    cases ends
  obtain ⟨w, _, _, _, itself⟩ :=
    reached.related_of_foreign proper inside foreign
  have begun := itself.begin checked fit respelled sameHops sameWidth
  have used : session.state.nextReference < session.state.nextReference + program.width :=
    Nat.lt_add_of_pos_right (Program.width_pos compiled)
  obtain ⟨ended, sameOutput⟩ := begun.run proper ends used host.files host.patience
  obtain ⟨journal, ran⟩ := Session.run_eq host compiled
  obtain ⟨journal', ran'⟩ := Session.run_eq host compiled'
  obtain ⟨same, state, state'⟩ := Session.conclude_respelled ended journal journal' _ _
  rw [ran, ran']
  exact ⟨same, (congrArg State.output state').trans
    (sameOutput.trans (congrArg State.output state).symm)⟩

/-- A program in which a parameter is captured by a closure that outlives its scope. -/
def capturing : String := "fun f(a) \x7b fun g() \x7b return a; \x7d return g; \x7d print f(1)();"

/-- Whether the function of the program declares `a` for its parameter only. -/
def declaresParameter : Bool :=
  match Program.compile 0 capturing with
  | .ok program => decide (program.DeclaresPlainly 0 [0, 0] "a")
  | .error _ => false

/-- The parameter of the function may be called `b` instead. -/
theorem parameter_may_be_changed :
    ∃ (places : List Nat) (renamed : Program),
      Program.compile 0 (Token.rewrite places "b" capturing) = .ok renamed ∧
      ∀ host : Host,
        ((Session.fresh .unlimited .unlimited false).run host
          (Token.rewrite places "b" capturing)).2.state.output =
        ((Session.fresh .unlimited .unlimited false).run host capturing).2.state.output := by
  have computed : declaresParameter = true := by decide +kernel
  have isNew : Token.IsName "b".toList := ⟨⟨'b', [], rfl, by decide, by simp⟩, rfl⟩
  have unused : ∀ token ∈ Token.ofSource capturing, token.lexeme ≠ "b" := by decide +kernel
  unfold declaresParameter at computed
  split at computed
  · next program compiled =>
      obtain ⟨places, renamed, _, compiled', _, alike⟩ :=
        local_name_may_be_changed (.fresh .unlimited .unlimited false) compiled
          (of_decide_eq_true computed) isNew unused
      exact ⟨places, renamed, compiled', fun host => (alike host).2⟩
  · cases computed

end Lox
