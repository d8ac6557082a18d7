import Lox.Proofs.Context
import Lox.Proofs.Origins

/-!
# References keep their numbers to themselves

Each reference of a program has a number that no other reference has, in this program or in another
one that the session loads, before or afterwards.  So what the table of distances tells of the
references of a program is what the analysis of this program found, however much is loaded later.
-/

namespace Lox

/-! ## The references of a tree -/

/-- The numbers of references are those that are looked up in a walk, if in another order. -/
def Counts (uses : List Use) (acts : List Act) : Prop :=
  (uses.map fun use => use.reference.id).Perm (acts.filterMap Act.id?)

namespace Counts

variable {uses others : List Use} {acts acts' : List Act}

theorem nil : Counts [] [] := .refl _

theorem single {kind : UseKind} {reference : Reference} {act : Act}
    (looks : act.id? = some reference.id) : Counts [⟨kind, reference⟩] [act] := by
  unfold Counts
  rw [List.filterMap_cons_some looks]
  exact .refl _

theorem append (first : Counts uses acts) (second : Counts others acts') :
    Counts (uses ++ others) (acts ++ acts') := by
  unfold Counts
  rw [List.map_append, List.filterMap_append]
  exact List.Perm.append first second

/-- What is counted last may be looked up first. -/
theorem swapped (first : Counts uses acts) (second : Counts others acts') :
    Counts (uses ++ others) (acts' ++ acts) := by
  unfold Counts
  rw [List.map_append, List.filterMap_append]
  exact (List.Perm.append first second).trans List.perm_append_comm

/-- What looks nothing up is not counted. -/
theorem silent {act : Act} (rest : Counts uses acts) (looks : act.id? = none) :
    Counts uses (act :: acts) := by
  unfold Counts
  rw [List.filterMap_cons_none looks]
  exact rest

end Counts

mutual
theorem Expr.counts (expr : Expr) : Counts expr.uses expr.acts := by
  cases expr with
  | assign target value =>
      have assigned : Counts [⟨.assigned, target⟩] [.assign target] := .single rfl
      exact assigned.swapped value.counts
  | binary left operator right => exact left.counts.append right.counts
  | call callee paren args => exact callee.counts.append (counts_all args)
  | get object name => exact object.counts
  | grouping inner => exact inner.counts
  | literal value => exact .nil
  | logical left operator right => exact left.counts.append right.counts
  | set object name value => exact object.counts.swapped value.counts
  | super keyword method => exact .single rfl
  | this keyword => exact .single rfl
  | unary operator operand => exact operand.counts
  | var name => exact .single rfl

theorem counts_all (exprs : List Expr) : Counts (usesAll exprs) (actsAll exprs) := by
  cases exprs with
  | nil => exact .nil
  | cons expr exprs => exact expr.counts.append (counts_all exprs)
end

theorem counts_optional (expr : Option Expr) : Counts (optionalUses expr) (actsOptional expr) := by
  cases expr with
  | none => exact .nil
  | some expr => exact expr.counts

theorem counts_parameters (seen : List String) (params : List Token) :
    Counts [] (actsParameters seen params) := by
  induction params generalizing seen with
  | nil => exact .nil
  | cons param params ih => exact (ih _).silent rfl

mutual
theorem Stmt.counts (stmt : Stmt) : Counts stmt.uses stmt.acts := by
  cases stmt with
  | block body => exact counts_body body
  | classDecl name superclass methods =>
      cases superclass with
      | none => exact (counts_methods methods).silent rfl
      | some reference =>
          have read : Counts [⟨.read, reference⟩] [.read reference] := .single rfl
          exact ((read.append (counts_methods methods)).silent rfl).silent rfl
  | expression expr => exact expr.counts
  | funDecl decl => exact decl.counts.silent rfl
  | ifElse condition thenBranch elseBranch =>
      cases elseBranch with
      | none => exact condition.counts.append (thenBranch.counts.silent rfl)
      | some elseBranch =>
          have first : Counts thenBranch.uses (.branch thenBranch :: thenBranch.acts) :=
            thenBranch.counts.silent rfl
          have second : Counts elseBranch.uses (.branch elseBranch :: elseBranch.acts) :=
            elseBranch.counts.silent rfl
          have both := condition.counts.append (first.append second)
          rwa [← List.append_assoc] at both
  | inclusion path => exact .nil
  | print value => exact value.counts
  | ret keyword value => exact (counts_optional value).silent rfl
  | varDecl name init => exact (counts_optional init).silent rfl
  | whileLoop condition body => exact condition.counts.append (body.counts.silent rfl)

theorem FunDecl.counts (decl : FunDecl) : Counts decl.uses decl.acts := by
  obtain ⟨name, params, body⟩ := decl
  exact (counts_parameters [] params).append (counts_body body)

theorem counts_body (stmts : List Stmt) : Counts (bodyUses stmts) (actsBody stmts) := by
  cases stmts with
  | nil => exact .nil
  | cons stmt stmts => exact stmt.counts.append (counts_body stmts)

theorem counts_methods (methods : List FunDecl) :
    Counts (methodUses methods) (actsMethods methods) := by
  cases methods with
  | nil => exact .nil
  | cons method methods => exact method.counts.append (counts_methods methods)
end

theorem Code.counts (code : Code) : Counts code.uses code.acts := by
  cases code with
  | expr expr => exact expr.counts
  | exprs exprs => exact counts_all exprs
  | stmt stmt => exact stmt.counts
  | stmts stmts => exact counts_body stmts
  | function decl => exact decl.counts
  | target reference => exact .single rfl

/-- The numbers of all references of a tree. -/
def Code.numbers (code : Code) : List Nat := code.uses.map fun use => use.reference.id

/-- The numbers of all references of a program. -/
def Loaded.numbers (loaded : Loaded) : List Nat :=
  (bodyUses loaded.program.stmts).map fun use => use.reference.id

/-! ## The references of all programs -/

theorem Loaded.numbers_perm (loaded : Loaded) :
    loaded.numbers.Perm (loaded.events.filterMap fun event => event.act.id?) := by
  have counted := counts_body loaded.program.stmts
  unfold Counts at counted
  rwa [← map_act_walkBody [loaded.first] .root 0, List.filterMap_map] at counted

theorem Loaded.exists_event {loaded : Loaded} {id : Nat} (held : id ∈ loaded.numbers) :
    ∃ event ∈ loaded.events, event.act.id? = some id :=
  List.mem_filterMap.mp (loaded.numbers_perm.mem_iff.mp held)

/-- The numbers of a program are its own, and all different. -/
theorem Program.Checked.spread {first : Nat} {program : Program} (checked : program.Checked first) :
    Parse.Spread first (first + program.width) (Loaded.numbers ⟨first, program⟩) :=
  checked.ids.perm (Loaded.numbers_perm ⟨first, program⟩).symm

theorem Machine.loads?_checked {files : String → Except Failure String} {m : Machine}
    {loaded : Loaded} (loads : m.loads? files = some loaded) :
    loaded.program.Checked loaded.first := by
  unfold loads? at loads
  split at loads
  · split at loads
    · split at loads
      · next compiled =>
          cases loads
          exact Program.compile_checked compiled
      · cases loads
    · cases loads
  · cases loads

namespace Reached

variable {past : Past} {m : Machine}

theorem checked (reached : Reached past m) :
    ∀ loaded ∈ past.loaded, loaded.program.Checked loaded.first := by
  induction reached with
  | fresh output now => exact fun _ none => (List.not_mem_nil none).elim
  | begin before compiled ih =>
      exact List.forall_mem_append.mpr
        ⟨ih, List.forall_mem_singleton.mpr (Program.compile_checked compiled)⟩
  | advance files before ih =>
      exact List.forall_mem_append.mpr
        ⟨ih, fun next held => Machine.loads?_checked (Option.mem_toList.mp held)⟩
  | pass now output before ih => exact ih
  | setBase base before ih => exact ih

/-- The table of distances tells of the events of all programs that were loaded. -/
theorem located (reached : Reached past m) : m.state.Located past.Knows := by
  obtain ⟨w, _, known, related⟩ := reached.related fun _ => Past.first_ne_unused
  obtain ⟨_, _, _, states⟩ := related
  have same : w.known = past.Knows := funext fun event => propext (known event)
  exact same ▸ states.located

theorem number_lt (reached : Reached past m) {id : Nat}
    (held : id ∈ past.loaded.flatMap Loaded.numbers) : id < m.state.nextReference := by
  obtain ⟨loaded, among, held⟩ := List.mem_flatMap.mp held
  obtain ⟨event, walked, looks⟩ := Loaded.exists_event held
  have isKnown : past.Knows event := ⟨loaded, among, walked⟩
  exact reached.located.used event isKnown id looks

/-- A program that is loaded next has new numbers. -/
theorem nodup_loads (reached : Reached past m) (before : (past.loaded.flatMap Loaded.numbers).Nodup)
    {program : Program} (checked : program.Checked m.state.nextReference) :
    ((past.loaded ++ [Loaded.mk m.state.nextReference program]).flatMap Loaded.numbers).Nodup := by
  rw [List.flatMap_append, List.flatMap_singleton]
  -- Earlier programs have numbers below the next one, and this one has numbers from there on.
  refine before.append checked.spread.nodup fun id earlier latest => ?_
  have := reached.number_lt earlier
  have := (checked.spread.range id latest).1
  omega

/-- No two references of the programs that were loaded have the same number. -/
theorem nodup (reached : Reached past m) : (past.loaded.flatMap Loaded.numbers).Nodup := by
  induction reached with
  | fresh output now => exact List.nodup_nil
  | begin before compiled ih => exact before.nodup_loads ih (Program.compile_checked compiled)
  | @advance past m files before ih =>
      unfold Past.after
      cases loads : m.loads? files with
      | none => simpa using ih
      | some loaded =>
          have checked := Machine.loads?_checked loads
          obtain ⟨first, program⟩ := loaded
          obtain rfl : first = m.state.nextReference := Machine.loads?_first loads
          exact before.nodup_loads ih checked
  | pass now output before ih => exact ih
  | setBase base before ih => exact ih

/-- The table tells of the references of a program what its own analysis found. -/
theorem hops_iff (reached : Reached past m) {loaded : Loaded} (among : loaded ∈ past.loaded)
    {id : Nat} (held : id ∈ loaded.numbers) (distance : Nat) :
    m.state.hops[id]? = some distance ↔ (id, distance) ∈ loaded.program.hops := by
  have checked := reached.checked loaded among
  have found (event : Event) (walked : event ∈ loaded.events) :=
    reached.located.found event ⟨loaded, among, walked⟩
  rw [checked.hops]
  constructor
  · intro recorded
    obtain ⟨event, walked, looks⟩ := Loaded.exists_event held
    have enters := Event.hop?_of_sound (checked.sound event walked) looks
    rw [← found event walked id looks, recorded] at enters
    exact List.mem_filterMap.mpr ⟨event, walked, enters⟩
  · intro entered
    obtain ⟨event, walked, enters⟩ := List.mem_filterMap.mp entered
    obtain ⟨looks, distance⟩ := Event.hop?_eq_some enters
    exact (found event walked id looks).trans distance

/-- Every tree that can be executed is a part of a program that was loaded. -/
theorem part_of_loaded (reached : Reached past m) {code : Code} (executes : m.Executes code) :
    ∃ loaded ∈ past.loaded, code.acts <:+: actsBody loaded.program.stmts := by
  have divides : Divides fun acts =>
      ∃ loaded ∈ past.loaded, acts <:+: actsBody loaded.program.stmts := by
    constructor
    · rintro before after ⟨loaded, among, inside⟩
      exact ⟨loaded, among, (List.prefix_append before after).isInfix.trans inside⟩
    · rintro before after ⟨loaded, among, inside⟩
      exact ⟨loaded, among, (List.suffix_append before after).isInfix.trans inside⟩
  exact reached.within divides (fun loaded among => ⟨loaded, among, List.infix_rfl⟩) (.code executes)

/-- The table never changes for the references of programs that were loaded. -/
theorem hops_eq (reached : Reached past m) {past' : Past} {n : Machine}
    (sequel : Sequel past m past' n) {loaded : Loaded} (among : loaded ∈ past.loaded) {id : Nat}
    (held : id ∈ loaded.numbers) : n.state.hops[id]? = m.state.hops[id]? := by
  ext distance
  rw [(sequel.reached reached).hops_iff (sequel.loaded.subset among) held,
    reached.hops_iff among held]

/-- The numbers of a tree that can be executed are those of a program that was loaded. -/
theorem numbers_subperm (reached : Reached past m) {code : Code} (executes : m.Executes code) :
    ∃ loaded ∈ past.loaded, code.acts <:+: actsBody loaded.program.stmts ∧
      code.numbers.Subperm loaded.numbers := by
  obtain ⟨loaded, among, part⟩ := reached.part_of_loaded executes
  have inside := (part.sublist.filterMap Act.id?).subperm
  have whole := counts_body loaded.program.stmts
  exact ⟨loaded, among, part, code.counts.subperm.trans (inside.trans whole.symm.subperm)⟩

end Reached

/--
Later programs never disturb earlier ones.  Whatever a session gets to, by any runs and inclusions,
all references of all programs that were loaded have different numbers; every tree that can still
be executed is a part of one of these programs, and so all its references have different numbers;
and at any later time the table tells of the references of a program just what its own analysis
found, so that what can be executed now resolves its references then as it does now.
-/
theorem later_programs_disturb_nothing {past : Past} {m : Machine} (reached : Reached past m) :
    (past.loaded.flatMap Loaded.numbers).Nodup ∧
    (∀ code, m.Executes code → code.numbers.Nodup ∧
      ∃ loaded ∈ past.loaded,
        code.acts <:+: actsBody loaded.program.stmts ∧ code.numbers ⊆ loaded.numbers) ∧
    ∀ past' n, Sequel past m past' n →
      (∀ loaded ∈ past.loaded, ∀ id ∈ loaded.numbers,
        n.state.hops[id]? = m.state.hops[id]? ∧
          ∀ distance, n.state.hops[id]? = some distance ↔ (id, distance) ∈ loaded.program.hops) ∧
      ∀ code, m.Executes code → ∀ id ∈ code.numbers, n.state.hops[id]? = m.state.hops[id]? := by
  refine ⟨reached.nodup, fun code executes => ?_, fun past' n sequel =>
    ⟨fun loaded among id held => ⟨reached.hops_eq sequel among held, fun distance => ?_⟩,
      fun code executes id held => ?_⟩⟩
  · obtain ⟨loaded, among, part, inside⟩ := reached.numbers_subperm executes
    refine ⟨?_, loaded, among, part, inside.subset⟩
    obtain ⟨reordered, same, sublist⟩ := inside
    have own : loaded.numbers.Nodup := (List.nodup_flatMap.mp reached.nodup).1 loaded among
    exact same.nodup_iff.mp (sublist.nodup own)
  · exact (sequel.reached reached).hops_iff (sequel.loaded.subset among) held distance
  · obtain ⟨loaded, among, _, inside⟩ := reached.numbers_subperm executes
    exact reached.hops_eq sequel among (inside.subset held)

/-- Whether the body of a function of an earlier run is being executed in a later one. -/
def callsEarlier : Bool :=
  match (Session.fresh .unlimited .unlimited false).run bareHost "fun f(a) \x7b return a; \x7d" with
  | (.finished [], session) =>
    match Program.compile session.state.nextReference "f(1);" with
    | .ok program =>
      match (Machine.stepped 9 (session.begin 0 program)).control with
      | .eval (.var name) => decide (name.name.lexeme = "a")
      | _ => false
    | .error _ => false
  | _ => false

/-- The parameter of a function is read in a later run, by a number of the earlier program. -/
theorem earlier_function_disturbed_by_nothing :
    ∃ past m name, Reached past m ∧ m.control = .eval (.var name) ∧ name.name.lexeme = "a" ∧
      ∃ loaded ∈ past.loaded, name.id ∈ loaded.numbers ∧
        ∀ past' n, Sequel past m past' n → n.state.hops[name.id]? = m.state.hops[name.id]? := by
  have computed : callsEarlier = true := by decide +kernel
  unfold callsEarlier at computed
  split at computed
  · next session ran =>
      split at computed
      · next program compiled =>
          split at computed
          · next name reads =>
              have reachable : session.Reachable := .run (.fresh _ _ _) bareHost _ ran
              obtain ⟨past, started, _⟩ := reachable.atRest.begin 0 compiled
              have stepped : ∃ later, Sequel past (session.begin 0 program) later _ :=
                Sequel.of_stepped 9
              obtain ⟨past, sequel⟩ := stepped
              have reached := sequel.reached started
              obtain ⟨_, trees, later⟩ := later_programs_disturb_nothing reached
              have executes := Machine.Executes.eval reads
              obtain ⟨loaded, among, _, inside⟩ := (trees _ executes).2
              exact ⟨past, _, name, reached, reads, of_decide_eq_true computed, loaded, among,
                inside List.mem_cons_self, fun past' n sequel =>
                  (later past' n sequel).2 _ executes _ List.mem_cons_self⟩
          · cases computed
      · cases computed
  · cases computed

end Lox
