import Lox.Proofs.Activations
import Lox.Proofs.Shifts

/-!
# Levels

A call of a function and an inclusion are active from when they are entered until their end is
carried out, which waits on the stack.  The depth that a context tells is the number of these ends;
it is checked before a level is entered, so it never passes the limit.
-/

namespace Lox

/-- Whether a task is the end of a call or of an inclusion. -/
def Task.endsLevel : Task → Bool
  | .finishCall .. => true
  | .finishInclusion _ => true
  | _ => false

/-- How many calls and inclusions were entered whose end is still waited for. -/
def levels (tasks : List Task) : Nat := tasks.countP Task.endsLevel

theorem levels_cons (task : Task) (tasks : List Task) :
    levels (task :: tasks) = levels tasks + if task.endsLevel then 1 else 0 :=
  List.countP_cons

theorem levels_append (above below : List Task) :
    levels (above ++ below) = levels above + levels below := List.countP_append

theorem Task.endsLevel_of_isInner {task : Task} (inner : task.isInner = true) :
    task.endsLevel = false := by
  cases task with
  | finishCall context line answer => cases inner
  | finishInclusion context => cases inner
  | _ => rfl

/-- Wherever a context comes back, its depth is the number of the levels that are left. -/
def Counted : List Task → Context → Prop
  | [], context => context.depth = 0
  | task :: tasks, context =>
    context.depth = (task.restores context).depth + (if task.endsLevel then 1 else 0) ∧
      Counted tasks (task.restores context)

theorem Counted.depth_eq {tasks : List Task} {context : Context} (counted : Counted tasks context) :
    context.depth = levels tasks := by
  induction tasks generalizing context with
  | nil => exact counted
  | cons task tasks ih =>
      obtain ⟨here, below⟩ := counted
      rw [here, ih below, levels_cons]

theorem counted_append {top rest : List Task} (inner : ∀ task ∈ top, task.isInner = true)
    (context : Context) : Counted (top ++ rest) context ↔ Counted rest context := by
  induction top with
  | nil => rfl
  | cons task top ih =>
      obtain ⟨first, others⟩ := List.forall_mem_cons.mp inner
      rw [List.cons_append, Counted, Task.restores_of_isInner first,
        Task.endsLevel_of_isInner first, ih others]
      simp

/-- A machine that knows how deep it is, and is no deeper than it may be. -/
structure Machine.Leveled (m : Machine) : Prop where
  counted : Counted m.tasks m.state.context
  bounded : m.state.context.depth ≤ maxDepth

namespace Machine

variable {files : String → Except Failure String} {m n : Machine}

theorem Leveled.shift (leveled : m.Leveled) (shift : Shift files m n) : n.Leveled := by
  obtain ⟨counted, bounded⟩ := leveled
  cases shift with
  | within before after inner inner' same code =>
      rw [before, counted_append inner] at counted
      refine ⟨?_, same ▸ bounded⟩
      rwa [after, counted_append inner', same]
  | next before after =>
      subst after
      rw [before] at counted
      exact ⟨counted, bounded⟩
  | @close task rest gave before after restored gives =>
      rw [before] at counted
      obtain ⟨here, below⟩ := counted
      refine ⟨?_, ?_⟩
      · rwa [after, restored]
      · rw [restored]
        omega
  | block executes after inside gives =>
      refine ⟨?_, ?_⟩
      · rw [after, inside]
        exact ⟨rfl, rfl, counted⟩
      · rwa [inside]
  | enter before inner shallow after inside gives =>
      rw [before, counted_append inner] at counted
      refine ⟨?_, ?_⟩
      · rw [after, inside]
        exact ⟨rfl, rfl, counted⟩
      · rw [inside]
        exact shallow
  | inclusion asks read compiled shallow after =>
      subst after
      exact ⟨⟨rfl, rfl, counted⟩, shallow⟩

end Machine

section Levels

variable {past : Past} {m : Machine}

theorem Reached.leveled (reached : Reached past m) : m.Leveled := by
  induction reached with
  | fresh output now => exact ⟨rfl, Nat.zero_le _⟩
  | begin before compiled ih => exact ⟨⟨rfl, ih.counted⟩, ih.bounded⟩
  | advance files before ih => exact ih.shift (Machine.shift_advance files _)
  | pass now output before ih => exact ⟨ih.counted, ih.bounded⟩
  | setBase base before ih => exact ⟨ih.counted, ih.bounded⟩

/-- The depth is the number of the levels that are active. -/
theorem Reached.depth_eq (reached : Reached past m) :
    m.state.context.depth = levels m.tasks := reached.leveled.counted.depth_eq

theorem Reached.levels_le (reached : Reached past m) : levels m.tasks ≤ maxDepth :=
  reached.depth_eq ▸ reached.leveled.bounded

end Levels

/-! ## Calls -/

namespace Machine

variable {m : Machine} {calling : Calling} {files : String → Except Failure String}

/-- The callee can be called, with as many arguments as there are. -/
def Calling.Acceptable (calling : Calling) : Prop :=
  ∃ arity, calling.callee.arity? = some arity ∧ arity.accepts calling.args.length = true

/-- The only reason to refuse an acceptable call is its depth. -/
theorem Calling.Acceptable.refusal? (acceptable : calling.Acceptable) (depth : Nat) :
    refusal? calling.callee.arity? calling.args.length depth =
      if maxDepth ≤ depth then some .stackOverflow else none := by
  obtain ⟨arity, isArity, accepts⟩ := acceptable
  rw [isArity]
  cases arity with
  | variadic => rfl
  | fixed wanted =>
      have same : wanted = calling.args.length := by simpa [Arity.accepts] using accepts
      simp [Machine.refusal?, same]

/-- Below the limit it is accepted. -/
theorem Calling.Acceptable.accepted (acceptable : calling.Acceptable) {depth : Nat}
    (shallow : depth < maxDepth) :
    Machine.refusal? calling.callee.arity? calling.args.length depth = none := by
  rw [acceptable.refusal?, if_neg (Nat.not_le.mpr shallow)]

/-- At the limit it fails, and nothing else happens. -/
theorem Calling.Acceptable.refused (acceptable : calling.Acceptable)
    (calls : m.calling? = some calling) (deep : maxDepth ≤ m.state.context.depth)
    (files : String → Except Failure String) :
    m.advance files = .giving (.failAt calling.paren .stackOverflow) calling.rest m.state := by
  rw [advance_calling calls, call_eq, acceptable.refusal?, if_pos deep]

/-- An outcome of another kind than the error of a call or an inclusion that is too deep. -/
theorem failAt_ne_stackOverflow {token other : Token} {fault : RuntimeFault}
    (different : fault ≠ .stackOverflow) :
    Control.give (.failAt other fault) ≠ .give (.failAt token .stackOverflow) := by
  intro same
  simp only [Outcome.failAt, Error.runtimeAt, Control.give.injEq, Outcome.failed.injEq,
    Error.runtime.injEq] at same
  exact different same.2

/-- A call that is entered does not itself fail for its depth. -/
theorem invoke_ne_stackOverflow (callee : Value) (args : List Value) (paren token : Token)
    (tasks : List Task) (s : State) :
    (invoke callee args paren tasks s).control ≠ .give (.failAt token .stackOverflow) := by
  unfold invoke
  split
  · next native =>
    have calls := callNative_calls native args paren.line tasks s
    generalize callNative native args paren.line tasks s = m at calls ⊢
    cases calls with
    | exits code => exact nofun
    | answers isPlain output => exact nofun
    | fails isFault output => cases isFault <;> simp [giving, Outcome.failAt, Error.runtimeAt]
  · exact nofun
  · unfold instantiate
    dsimp only
    split <;> exact nofun
  · exact failAt_ne_stackOverflow nofun

/-- An acceptable call fails for its depth exactly at the limit, and then nothing else happens. -/
theorem call_overflows_iff (leveled : m.Leveled) (calls : m.calling? = some calling)
    (acceptable : calling.Acceptable) :
    ((m.advance files).control = .give (.failAt calling.paren .stackOverflow) ↔
      levels m.tasks = maxDepth) ∧
    (levels m.tasks = maxDepth → m.advance files =
      .giving (.failAt calling.paren .stackOverflow) calling.rest m.state) := by
  have depth := leveled.counted.depth_eq
  have bounded := leveled.bounded
  have refused (deep : levels m.tasks = maxDepth) := acceptable.refused calls (by omega) files
  refine ⟨⟨fun overflows => ?_, fun deep => congrArg Machine.control (refused deep)⟩, refused⟩
  by_contra shallow
  rw [advance_calling calls, call_eq, acceptable.refusal?, if_neg (by omega)] at overflows
  exact invoke_ne_stackOverflow _ _ _ _ _ _ overflows

/-- An activation is one level, also that of an initializer that the call of a class runs. -/
theorem levels_activation {a : Activation} (begins : m.activation? = some a) :
    levels a.machine.tasks = levels m.tasks + 1 := by
  have above {calling : Calling} (calls : m.calling? = some calling) :
      levels m.tasks = levels calling.rest := by
    unfold calling? at calls
    split at calls
    · cases calls
      rfl
    · cases calls
      rfl
    · cases calls
  rw [Activation.machine_eq, Activation.waiting, levels_cons, levels_cons]
  cases activates_of_activation begins with
  | closure calls => exact above calls ▸ rfl
  | init calls => exact above calls ▸ rfl

/-! ## Inclusions -/

/-- An inclusion whose file can be read and compiled is entered, unless it is too deep. -/
theorem advance_inclusion {path : Token} {place text : String} {program : Program}
    (asks : m.control = .awaitFile path place) (read : files place = .ok text)
    (compiled : Program.compile m.state.nextReference text = .ok program) :
    m.advance files =
      if maxDepth ≤ m.state.context.depth then
        .giving (.failAt path .stackOverflow) m.tasks (m.state.load program)
      else ⟨.give .nil, .program program.stmts :: .finishInclusion m.state.context :: m.tasks,
        (m.state.load program).setContext ⟨State.globals, (Path.parent? place).getD "",
          m.state.context.depth + 1⟩⟩ := by
  obtain ⟨control, tasks, s⟩ := m
  obtain rfl : control = .awaitFile path place := asks
  have compiled : Program.compile s.nextReference text = .ok program := compiled
  show provide (files place) path place tasks s = _
  unfold provide
  rw [read]
  dsimp only
  rw [compiled]

/-- It fails for its depth exactly at the limit, and then it is not entered. -/
theorem inclusion_overflows_iff (leveled : m.Leveled) {path : Token} {place text : String}
    {program : Program} (asks : m.control = .awaitFile path place) (read : files place = .ok text)
    (compiled : Program.compile m.state.nextReference text = .ok program) :
    ((m.advance files).control = .give (.failAt path .stackOverflow) ↔
      levels m.tasks = maxDepth) ∧
    (levels m.tasks = maxDepth → m.advance files =
      .giving (.failAt path .stackOverflow) m.tasks (m.state.load program)) ∧
    (levels m.tasks < maxDepth → levels (m.advance files).tasks = levels m.tasks + 1) := by
  have depth := leveled.counted.depth_eq
  have bounded := leveled.bounded
  have stepped := advance_inclusion asks read compiled
  have refused : levels m.tasks = maxDepth → m.advance files =
      .giving (.failAt path .stackOverflow) m.tasks (m.state.load program) := by
    intro deep
    rw [stepped, if_pos (by omega)]
  refine ⟨⟨fun overflows => ?_, fun deep => congrArg Machine.control (refused deep)⟩, refused,
    fun shallow => ?_⟩
  · by_contra shallow
    rw [stepped, if_neg (by omega)] at overflows
    cases overflows
  · rw [stepped, if_neg (by omega), levels_cons, levels_cons]
    rfl

end Machine

end Lox
