import Lox.Proofs.Origins.Steps

/-!
# Where values and environments come from

Whatever a machine carries or sees was made at some step of its past: closures by declaring a
function or by binding a method, classes by declaring them, instances by calling their classes; and
environments frame by frame, each in front of one that was at hand.  And all code of a machine is
a part of some program that was loaded.
-/

namespace Lox

/-- Before some step of the past something was the case. -/
def Since (past : Past) (m : Machine) (P : Machine → Prop) : Prop :=
  ∃ past₀ m₀ files, Reached past₀ m₀ ∧
    Sequel (past₀.after files m₀) (m₀.advance files) past m ∧ P m₀

namespace Machine

variable {m : Machine}

/-! ## What is made and opened by a step -/

theorem opens_calling {calling : Calling} (calls : m.calling? = some calling) :
    m.opens = opensCall calling.callee calling.args m.state := by
  unfold calling? at calls
  split at calls
  · cases calls
    rfl
  · cases calls
    rfl
  · cases calls

/-- A frame is made for the scope that is opened. -/
theorem Branches.opens {frame : Nat} {opener : Opener} {env : Env}
    (branches : m.Branches frame opener env) :
    ∃ index, frame = m.state.store.frames.size + index ∧ m.opens[index]? = some opener := by
  cases branches with
  | block now =>
      obtain ⟨control, tasks, s⟩ := m
      cases now
      exact ⟨0, rfl, rfl⟩
  | superclass declares =>
      obtain ⟨name, reference, now, read⟩ := declares
      obtain ⟨control, tasks, s⟩ := m
      cases now
      have read : s.read reference = _ := read
      refine ⟨0, rfl, ?_⟩
      simp [Machine.opens, opensExec, read]
  | receiver binds =>
      refine ⟨0, rfl, ?_⟩
      cases bindsMethod_of_binding binds with
      | super now stands found =>
          obtain ⟨control, tasks, s⟩ := m
          cases now
          have stands : s.superOf? _ = _ := stands
          simp [Machine.opens, opensSuper, stands, found]
      | get given waits noField found =>
          obtain ⟨control, tasks, s⟩ := m
          cases given
          cases waits
          have noField : s.store.field? _ _ = _ := noField
          simp [Machine.opens, opensGet, noField, found]
      | init calls isClass accepted found made =>
          rw [opens_calling calls, opensCall, accepted]
          simp [opensInvoke, isClass, found]
  | activation begins =>
      cases activates_of_activation begins with
      | closure calls isClosure accepted =>
          refine ⟨0, rfl, ?_⟩
          rw [opens_calling calls, opensCall, accepted]
          simp [opensInvoke, isClosure, Calling.ofClosure]
      | init calls isClass accepted found =>
          refine ⟨1, ?_, ?_⟩
          · dsimp only [Activation.frame, Calling.ofInitializer, Store.newIdentity]
            rw [Store.frames_newFrame]
            rfl
          · rw [opens_calling calls, opensCall, accepted]
            simp [opensInvoke, isClass, found, Calling.ofInitializer]

/-- An instance that is made is a new object. -/
theorem objects_of_makes {inst : Instance} (makes : m.Makes (.inst inst))
    (files : String → Except Failure String) :
    inst.object = m.state.store.objects.size ∧
      (m.advance files).state.store.objects.size = m.state.store.objects.size + 1 := by
  cases makes with
  | plain isPlain => cases isPlain
  | @inst calling cls calls isClass accepted =>
      refine ⟨rfl, ?_⟩
      rw [advance_accepted calls accepted, isClass]
      unfold invoke instantiate
      dsimp only
      rw [State.newInstance_eq]
      cases cls.initializer? with
      | none => simp [giving, Store.newObject]
      | some init =>
          dsimp only [enter]
          rw [State.bindMethod_eq, State.extend_eq]
          simp [State.setContext, Store.newFrame, Store.newIdentity, Store.newObject]

end Machine

/-! ## Between steps -/

/--
A machine that a session gets to without a step, with its past: a program is started, or the host
does something.  Then nothing is made.
-/
structure Rests (past : Past) (m : Machine) (past' : Past) (n : Machine) : Prop where
  sequel : Sequel past m past' n
  opened : past'.opened = past.opened
  store : n.state.store = m.state.store
  carries : ∀ {value}, n.Carries value → value.isPlain = true ∨ m.Carries value
  sees : ∀ {env}, n.Sees env → m.Sees env
  phrases : ∀ {acts}, n.Phrase acts →
    m.Phrase acts ∨ ∃ loaded ∈ past'.loaded, acts = actsBody loaded.program.stmts

namespace Rests

variable {past past' : Past} {m n : Machine}

/-- A program that was loaded may be started, and all else is as it was. -/
theorem of_control (sequel : Sequel past m past' n) (opened : past'.opened = past.opened)
    (store : n.state.store = m.state.store) (env : n.state.context.env = m.state.context.env)
    (control : n.control = m.control ∨ n.control = .give .nil)
    (tasks : ∀ task ∈ n.tasks,
      task ∈ m.tasks ∨ ∃ loaded ∈ past'.loaded, task = .program loaded.program.stmts) :
    Rests past m past' n := by
  have carried {value : Value} (carries : n.Carries value) :
      value.isPlain = true ∨ m.Carries value := by
    cases carries with
    | bound held => exact .inr (.bound (store ▸ held))
    | field held => exact .inr (.field (store ▸ held))
    | given now =>
        rcases control with same | ended
        · exact .inr (.given (same.symm.trans now))
        · cases ended.symm.trans now
          exact .inl rfl
    | returned now =>
        rcases control with same | ended
        · exact .inr (.returned (same.symm.trans now))
        · cases ended.symm.trans now
    | waiting waits held =>
        rcases tasks _ waits with before | ⟨_, _, rfl⟩
        · exact .inr (.waiting before held)
        · cases held
  have sees {seen : Env} (sees : n.Sees seen) : m.Sees seen := by
    cases sees with
    | current => exact env ▸ .current
    | saved waits held =>
        rcases tasks _ waits with before | ⟨_, _, rfl⟩
        · exact .saved before held
        · cases held
    | captured held captures =>
        rcases carried held with isPlain | held
        · cases captures <;> cases isPlain
        · exact .captured held captures
  have executed {code : Code} (executes : n.Executes code) :
      m.Executes code ∨ ∃ loaded ∈ past'.loaded, code = .stmts loaded.program.stmts := by
    cases executes with
    | eval now =>
        rcases control with same | ended
        · exact .inl (.eval (same.symm.trans now))
        · cases ended.symm.trans now
    | exec now =>
        rcases control with same | ended
        · exact .inl (.exec (same.symm.trans now))
        · cases ended.symm.trans now
    | waiting waits held =>
        rcases tasks _ waits with before | ⟨loaded, among, rfl⟩
        · exact .inl (.waiting before held)
        · cases held
          exact .inr ⟨loaded, among, rfl⟩
    | callable held runs =>
        rcases carried held with isPlain | held
        · cases runs <;> cases isPlain
        · exact .inl (.callable held runs)
  refine ⟨sequel, opened, store, carried, sees, fun phrase => ?_⟩
  cases phrase with
  | code executes =>
      rcases executed executes with before | ⟨loaded, among, rfl⟩
      · exact .inl (.code before)
      · exact .inr ⟨loaded, among, rfl⟩
  | define waits =>
      rcases tasks _ waits with before | ⟨_, _, isProgram⟩
      · exact .inl (.define before)
      · cases isProgram

theorem begin {past : Past} {outcome : Outcome} {s : State} {source : String} {program : Program}
    (compiled : Program.compile s.nextReference source = .ok program) :
    Rests past ⟨.give outcome, [], s⟩ ⟨past.loaded ++ [⟨s.nextReference, program⟩], past.opened⟩
      (.ofProgram program.stmts (s.load program)) := by
  refine of_control (.begin .here compiled) rfl rfl rfl (.inr rfl) fun task waits => .inr ?_
  exact ⟨_, List.mem_append_right _ List.mem_cons_self, List.mem_singleton.mp waits⟩

theorem pass (past : Past) (m : Machine) (now : Float) (output : Sink) :
    Rests past m past (m.pass now output) :=
  of_control (.pass now output .here) rfl rfl rfl (.inl rfl) fun _ => .inl

theorem setBase (past : Past) (outcome : Outcome) (s : State) (base : String) :
    Rests past ⟨.give outcome, [], s⟩ past
      ⟨.give outcome, [], { s with context := { s.context with base := base } }⟩ :=
  of_control (.setBase base .here) rfl rfl rfl (.inl rfl) fun _ => .inl

end Rests

/-- What holds at first, and is kept by steps and where nothing is made, holds of all machines. -/
theorem Reached.kept {P : Past → Machine → Prop}
    (fresh : ∀ output now, P ⟨[], [.globals]⟩ ⟨.give .nil, [], .initial output now⟩)
    (step : ∀ {past m}, Reached past m → P past m → ∀ files, P (past.after files m) (m.advance files))
    (rest : ∀ {past m past' n}, Reached past m → P past m → Rests past m past' n → P past' n)
    {past : Past} {m : Machine} (reached : Reached past m) : P past m := by
  induction reached with
  | fresh output now => exact fresh output now
  | begin before compiled ih => exact rest before ih (.begin compiled)
  | advance files before ih => exact step before ih files
  | pass now output before ih => exact rest before ih (.pass ..)
  | setBase base before ih => exact rest before ih (.setBase ..)

/-! ## Origins -/

section Origins

variable {past past' : Past} {m n : Machine} {P : Machine → Prop}

theorem Since.now (reached : Reached past m) (here : P m) (files : String → Except Failure String) :
    Since (past.after files m) (m.advance files) P :=
  ⟨past, m, files, reached, .here, here⟩

theorem Since.sequel (since : Since past m P) (later : Sequel past m past' n) : Since past' n P := by
  obtain ⟨past₀, m₀, files, reached, sequel, here⟩ := since
  exact ⟨past₀, m₀, files, reached, sequel.trans later, here⟩

theorem Since.advance (since : Since past m P) (files : String → Except Failure String) :
    Since (past.after files m) (m.advance files) P :=
  since.sequel (.advance files .here)

/-- In a fresh session there are only the functions of the system. -/
theorem Machine.isPlain_of_fresh {output : Sink} {now : Float} {value : Value}
    (carries : Machine.Carries ⟨.give .nil, [], .initial output now⟩ value) :
    value.isPlain = true := by
  cases carries with
  | @bound frame name _ held =>
      cases frame with
      | zero =>
          obtain ⟨native, rfl⟩ := State.exists_native (show State.natives.find? name = _ from held)
          rfl
      | succ frame => cases held
  | field held => cases held
  | given now =>
      cases now
      rfl
  | returned now => cases now
  | waiting waits held => cases waits

/-- Whatever a machine carries was made at some step, unless it is plain. -/
theorem Reached.origin (reached : Reached past m) {value : Value} (carries : m.Carries value) :
    value.isPlain = true ∨ Since past m (·.Makes value) := by
  revert value
  refine reached.kept (P := fun past m => ∀ {value}, m.Carries value →
    value.isPlain = true ∨ Since past m (·.Makes value)) ?_ ?_ ?_
  · exact fun _ _ => fun carries => .inl (Machine.isPlain_of_fresh carries)
  · intro past m reached ih files value carries
    rcases Machine.offers_of_carries carries with before | makes
    · exact (ih before).imp_right fun since => since.advance files
    · exact .inr (.now reached makes files)
  · intro past m past' n _ ih rests value carries
    rcases rests.carries carries with isPlain | before
    · exact .inl isPlain
    · exact (ih before).imp_right fun since => since.sequel rests.sequel

/-- A frame was put in front of an environment at some step, for the scope that it was made for. -/
def Grew (past : Past) (m : Machine) (frame : Nat) (outer : List Nat) : Prop :=
  ∃ opener, past.opened[frame]? = some opener ∧
    Since past m fun m₀ => ∃ env, m₀.Branches frame opener env ∧ env.chain = outer

/-- Each frame of an environment was put in front of the outer ones. -/
def Env.Grown (past : Past) (m : Machine) (env : Env) : Prop :=
  ∀ inner frame outer, env.chain = inner ++ frame :: outer →
    (frame = 0 ∧ outer = []) ∨ Grew past m frame outer

theorem Env.grown_globals : State.globals.Grown past m := by
  intro inner frame outer chain
  cases inner with
  | nil =>
      obtain ⟨rfl, rfl⟩ := List.cons.inj chain
      exact .inl ⟨rfl, rfl⟩
  | cons first inner =>
      have short := congrArg List.length (List.cons.inj chain).2
      simp [State.globals] at short

theorem Env.Grown.mono {env : Env} (grown : env.Grown past m)
    (later : ∀ {frame outer}, Grew past m frame outer → Grew past' n frame outer) :
    env.Grown past' n :=
  fun inner frame outer chain => (grown inner frame outer chain).imp_right later

theorem Env.Grown.branch {env : Env} (grown : env.Grown past m) {frame : Nat}
    (grew : Grew past m frame env.chain) : (env.branch frame).Grown past m := by
  intro inner other outer chain
  cases inner with
  | nil =>
      obtain ⟨rfl, rfl⟩ := List.cons.inj chain
      exact .inr grew
  | cons first inner => exact grown inner other outer (List.cons.inj chain).2

theorem Grew.advance {frame : Nat} {outer : List Nat} (grew : Grew past m frame outer)
    (files : String → Except Failure String) :
    Grew (past.after files m) (m.advance files) frame outer := by
  obtain ⟨opener, opened, since⟩ := grew
  refine ⟨opener, ?_, since.advance files⟩
  obtain ⟨made, _⟩ := List.getElem?_eq_some_iff.mp opened
  rw [Past.after, List.getElem?_append_left made]
  exact opened

theorem Machine.Branches.grew (reached : Reached past m) {frame : Nat} {opener : Opener} {env : Env}
    (branches : m.Branches frame opener env) (files : String → Except Failure String) :
    Grew (past.after files m) (m.advance files) frame env.chain := by
  refine ⟨opener, ?_, .now reached ⟨env, branches, rfl⟩ files⟩
  obtain ⟨index, rfl, opened⟩ := branches.opens
  rw [Past.after, ← reached.length_opened, List.getElem?_append_right (Nat.le_add_right _ _),
    Nat.add_sub_cancel_left]
  exact opened

/-- Every environment that a machine sees has grown frame by frame. -/
theorem Reached.grown (reached : Reached past m) {env : Env} (sees : m.Sees env) :
    env.Grown past m := by
  revert env
  refine reached.kept (P := fun past m => ∀ {env}, m.Sees env → env.Grown past m) ?_ ?_ ?_
  · intro output now env sees
    cases sees with
    | current => exact Env.grown_globals
    | saved waits held => cases waits
    | captured carries captures =>
        have isPlain := Machine.isPlain_of_fresh carries
        cases captures <;> cases isPlain
  · intro past m reached ih files env sees
    have enters := Machine.enters_of_sees sees
    clear sees
    -- By induction on the frames that the step put in front of what was seen before.
    induction enters with
    | seen before => exact (ih before).mono fun grew => grew.advance files
    | globals => exact Env.grown_globals
    | branch branches _ grown => exact grown.branch (branches.grew reached files)
  · intro past m past' n _ ih rests env sees
    refine (ih (rests.sees sees)).mono ?_
    rintro frame outer ⟨opener, opened, since⟩
    exact ⟨opener, rests.opened ▸ opened, since.sequel rests.sequel⟩

/-- Instances are objects that have been made. -/
theorem Reached.object_lt (reached : Reached past m) {inst : Instance}
    (carries : m.Carries (.inst inst)) : inst.object < m.state.store.objects.size := by
  revert inst
  refine reached.kept (P := fun _ m => ∀ {inst : Instance}, m.Carries (.inst inst) →
    inst.object < m.state.store.objects.size) ?_ ?_ ?_
  · intro output now inst carries
    cases Machine.isPlain_of_fresh carries
  · intro past m _ ih files inst carries
    rcases Machine.offers_of_carries carries with before | makes
    · exact Nat.lt_of_lt_of_le (ih before) (m.changes_advance files).objectCount
    · obtain ⟨isNext, added⟩ := Machine.objects_of_makes makes files
      omega
  · intro past m past' n _ ih rests inst carries
    rw [rests.store]
    exact ih ((rests.carries carries).resolve_left (by simp [Value.isPlain]))

/-- A class that is carried was declared. -/
theorem Reached.declared_of_carries (reached : Reached past m) {cls : Class}
    (carries : m.Carries (.cls cls)) : Since past m fun m₀ => ∃ name, m₀.DeclaresClass name cls := by
  rcases reached.origin carries with isPlain | ⟨past₀, m₀, files, before, sequel, makes⟩
  · cases isPlain
  · cases makes with
    | plain isPlain => cases isPlain
    | cls declares => exact ⟨past₀, m₀, files, before, sequel, _, declares⟩

/-- Methods are found under their names. -/
theorem Reached.name_of_findMethod? {cls : Class} {name : String} {method : Method}
    (found : cls.findMethod? name = some method) (reached : Reached past m)
    (carries : m.Carries (.cls cls)) : method.name = name := by
  fun_induction Class.findMethod? name cls generalizing past m with
  | case1 identity className methods =>
      obtain ⟨_, _, _, _, _, _, declares⟩ := reached.declared_of_carries carries
      obtain ⟨⟨_, _, table⟩, _⟩ := declares.parts
      have table : methods = _ := table
      rw [table] at found
      exact (State.mem_of_methodTable found).2.2
  | case2 identity className superclass methods own held =>
      obtain ⟨_, _, _, _, _, _, declares⟩ := reached.declared_of_carries carries
      obtain ⟨⟨_, _, table⟩, _⟩ := declares.parts
      have table : methods = _ := table
      rw [table] at held
      exact Option.some.inj found ▸ (State.mem_of_methodTable held).2.2
  | case3 identity className superclass methods none ih =>
      obtain ⟨_, _, _, before, _, _, declares⟩ := reached.declared_of_carries carries
      exact ih found before (declares.parts.2 superclass rfl)

/-- The class of an instance was at hand when the instance was made. -/
theorem Reached.class_of_carries (reached : Reached past m) {inst : Instance}
    (carries : m.Carries (.inst inst)) : Since past m (·.Carries (.cls inst.cls)) := by
  rcases reached.origin carries with isPlain | ⟨past₀, m₀, files, before, sequel, makes⟩
  · cases isPlain
  · cases makes with
    | plain isPlain => cases isPlain
    | inst calls isClass =>
        exact ⟨past₀, m₀, files, before, sequel, isClass ▸ (Machine.Calling.offers calls).1⟩

/-- All code of a machine that a session gets to is within the programs that were loaded. -/
theorem Reached.within {K : List Act → Prop} (reached : Reached past m) (divides : Divides K)
    (loaded : ∀ loaded ∈ past.loaded, K (actsBody loaded.program.stmts)) {acts : List Act}
    (held : m.Phrase acts) : K acts := by
  revert acts
  refine reached.kept (P := fun past m =>
    (∀ loaded ∈ past.loaded, K (actsBody loaded.program.stmts)) →
      ∀ {acts}, m.Phrase acts → K acts) ?_ ?_ ?_ loaded
  · intro output now _ acts phrase
    cases phrase with
    | code executes =>
        cases executes with
        | eval now => cases now
        | exec now => cases now
        | waiting waits held => cases waits
        | callable carries runs =>
            have isPlain := Machine.isPlain_of_fresh carries
            cases runs <;> cases isPlain
    | define waits => cases waits
  · intro past m _ ih files loaded acts phrase
    obtain ⟨earlier, latest⟩ := List.forall_mem_append.mp loaded
    exact (Machine.parts_of_phrase phrase).within divides (ih earlier) fun next loads =>
      latest next (Option.mem_toList.mpr loads)
  · intro past m past' n _ ih rests loaded acts phrase
    rcases rests.phrases phrase with before | ⟨next, among, rfl⟩
    · exact ih (fun earlier among => loaded earlier (rests.sequel.loaded.subset among)) before
    · exact loaded next among

end Origins

end Lox
