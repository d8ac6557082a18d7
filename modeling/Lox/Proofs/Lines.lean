import Lox.Proofs.Leads
import Lox.Proofs.Lines.Written

/-!
# The lines of errors

An error that is raised at a token tells the line of this token, and a native function the line of
the closing parenthesis of its call.  Only a `print` statement whose expression is a literal has no
line to tell; then the innermost call that is active supplies its own, and without one the line
stays 0.  On its way out an error passes through the ends of calls, of blocks and of inclusions, and
none of them changes a line that is told.
-/

namespace Lox

/-! ## The main token of an expression -/

namespace Expr

/-- The expression inside of the groupings around it. -/
def ungrouped : Expr → Expr
  | .grouping inner => inner.ungrouped
  | expr => expr

/-- The main token of an expression, looking through groupings; a literal keeps none. -/
def mainToken? : Expr → Option Token
  | .assign target _ => some target.name
  | .binary _ operator _ => some operator
  | .call _ paren _ => some paren
  | .get _ name => some name
  | .grouping inner => inner.mainToken?
  | .literal _ => none
  | .logical _ operator _ => some operator
  | .set _ name _ => some name
  | .super keyword _ => some keyword.name
  | .this keyword => some keyword.name
  | .unary operator _ => some operator
  | .var name => some name.name

/-- An expression without a main token is a literal, under any number of groupings. -/
theorem mainToken?_eq_none_iff (expr : Expr) :
    expr.mainToken? = none ↔ ∃ literal, expr.ungrouped = .literal literal := by
  fun_induction mainToken? expr with
  | case5 inner ih => exact ih
  | case6 literal => exact ⟨fun _ => ⟨literal, rfl⟩, fun _ => rfl⟩
  | _ => exact ⟨nofun, fun ⟨_, same⟩ => nomatch same⟩

/-- The main line is that of the main token. -/
theorem mainLine_eq (expr : Expr) : expr.mainLine = (expr.mainToken?.map Token.line).getD 0 := by
  fun_induction mainToken? expr with
  | case5 inner ih => exact ih
  | _ => rfl

theorem mem_tokens_of_mainToken? {expr : Expr} {token : Token}
    (isMain : expr.mainToken? = some token) : token ∈ expr.tokens := by
  fun_induction mainToken? expr with
  | case5 inner ih => exact ih isMain
  | case6 literal => cases isMain
  | _ =>
      cases isMain
      simp [tokens]

end Expr

/-! ## Handing errors on -/

namespace Error

/-- A line that is told is not changed. -/
theorem withLineIfMissing_of_told {error : Error} (told : error.line? ≠ some 0) (line : Nat) :
    error.withLineIfMissing line = error := by
  cases error with
  | runtime known fault => exact withLineIfMissing_of_line fun none => told (congrArg some none)
  | _ => rfl

end Error

/-- What becomes of an error that passes through some tasks, the first of them first. -/
def fillAll (tasks : List Task) (error : Error) : Error :=
  tasks.foldl (fun error task => task.fills error) error

theorem Task.fills_of_told {error : Error} (told : error.line? ≠ some 0) (task : Task) :
    task.fills error = error := by
  cases task with
  | finishCall context line answer => exact Error.withLineIfMissing_of_told told line
  | _ => rfl

theorem Task.fills_of_inside {task : Task} (inside : task.endsCall = false) (error : Error) :
    task.fills error = error := by
  cases task with
  | finishCall context line answer => cases inside
  | _ => rfl

theorem fillAll_of_told {error : Error} (told : error.line? ≠ some 0) (tasks : List Task) :
    fillAll tasks error = error := by
  induction tasks with
  | nil => rfl
  | cons task tasks ih =>
      refine Eq.trans ?_ ih
      exact congrArg (fillAll tasks) (task.fills_of_told told)

/-- An error passes unchanged through what is inside of a call. -/
theorem fillAll_append {above : List Task} (inside : ∀ task ∈ above, task.endsCall = false)
    (below : List Task) (error : Error) : fillAll (above ++ below) error = fillAll below error := by
  induction above with
  | nil => rfl
  | cons task above ih =>
      obtain ⟨first, others⟩ := List.forall_mem_cons.mp inside
      refine Eq.trans ?_ (ih others)
      exact congrArg (fillAll (above ++ below)) (Task.fills_of_inside first error)

/-- The innermost call supplies the line that is missing. -/
theorem fillAll_finishCall {line : Nat} (told : line ≠ 0) (fault : RuntimeFault) (context : Context)
    (answer : Answer) (rest : List Task) :
    fillAll (.finishCall context line answer :: rest) (.runtime 0 fault) = .runtime line fault := by
  refine fillAll_of_told ?_ rest
  exact fun none => told (Option.some.inj none)

namespace Machine

section Runs

variable {files : String → Except Failure String} {start m n : Machine}

theorem advance_failed {error : Error} {task : Task} {rest : List Task}
    (failing : m.control = .give (.failed error)) (waits : m.tasks = task :: rest)
    (files : String → Except Failure String) :
    (m.advance files).control = .give (.failed (task.fills error)) ∧
      (m.advance files).tasks = rest := by
  obtain ⟨control, tasks, s⟩ := m
  cases failing
  cases waits
  cases task with
  | _ => exact ⟨rfl, rfl⟩

/-- On its way out an error passes through the tasks that are gone, one after another. -/
theorem RunsAbove.passes (runs : RunsAbove [] m n) {error : Error}
    (failing : m.control = .give (.failed error)) :
    ∃ passed, m.tasks = passed ++ n.tasks ∧
      n.control = .give (.failed (fillAll passed error)) := by
  induction runs with
  | start => exact ⟨[], rfl, failing⟩
  | @advance n files runs busy ih =>
      obtain ⟨passed, tasks, isFailing⟩ := ih
      cases waits : n.tasks with
      | nil => exact absurd ⟨_, isFailing, waits⟩ busy
      | cons task rest =>
          obtain ⟨control, left⟩ := advance_failed isFailing waits files
          refine ⟨passed ++ [task], ?_, ?_⟩
          · rw [tasks, waits, left, List.append_assoc, List.singleton_append]
          · rw [control, fillAll, fillAll, List.foldl_append, List.foldl_cons, List.foldl_nil]
  | pass now output runs ih => exact ih

/-- An error that tells a line is handed on as it is. -/
theorem RunsAbove.told (runs : RunsAbove [] m n) {error : Error}
    (failing : m.control = .give (.failed error)) (told : error.line? ≠ some 0) :
    n.control = .give (.failed error) := by
  obtain ⟨passed, _, isFailing⟩ := runs.passes failing
  rwa [fillAll_of_told told] at isFailing

end Runs

/-! ## Calls that are active -/

/--
A call whose body was entered on the way from one machine to another, and whose end still waits
there.
-/
def Active (start m : Machine) (calling : Calling) (a : Activation) : Prop :=
  ∃ n, RunsAbove [] start n ∧ n.calling? = some calling ∧ n.activation? = some a ∧
    RunsAbove a.waiting a.machine m

/-- The call that is active inside of all other ones. -/
def Innermost (start m : Machine) (calling : Calling) : Prop :=
  ∃ a, Active start m calling a ∧
    ∀ other b, Active start m other b → b.waiting <:+ a.waiting

/-- The causes for which the next step raises an error, in a run from some machine. -/
inductive Raises (files : String → Except Failure String) (m start : Machine) : Cause → Prop where
  | breaks {cause : Cause} (breaks : m.Breaks files cause) : Raises files m start cause
  /-- The value of a `print` statement has been evaluated, and the output does not take it. -/
  | print {value : Expr} {printed : Value} {detail : String} {rest : List Task} {s : State}
      (began : RunsAbove [] start ⟨.exec (.print value), rest, s⟩)
      (evaluated : RunsAbove (.print value.mainLine :: rest)
        ⟨.eval value, .print value.mainLine :: rest, s⟩ m)
      (given : m.control = .give (.value printed))
      (waits : m.tasks = .print value.mainLine :: rest)
      (untaken : (m.state.writeLine printed.text).1 = some detail) :
      Raises files m start (.print value detail)

/-- What belongs below some tasks of another kind is below all of them. -/
theorem suffix_of_append {p : Task → Bool} {task : Task} (isKind : p task = true)
    {rest above below : List Task} (others : ∀ other ∈ above, p other = false)
    (held : task :: rest <:+ above ++ below) : task :: rest <:+ below := by
  induction above with
  | nil => exact held
  | cons other above ih =>
      obtain ⟨first, others⟩ := List.forall_mem_cons.mp others
      rcases List.suffix_cons_iff.mp held with same | later
      · obtain ⟨rfl, _⟩ := List.cons.inj same
        rw [isKind] at first
        cases first
      · exact ih others later

section Tracing

variable {files : String → Except Failure String} {start m n : Machine}

/-- A task that keeps a line is put there for a `print` statement, or for a call. -/
theorem Turns.keepsLine (turns : Turns files m n) {task : Task} (keeps : task.keepsLine = true)
    {rest : List Task} (held : task :: rest <:+ n.tasks) :
    task :: rest <:+ m.tasks ∨
      (∃ value, m.control = .exec (.print value) ∧ task = .print value.mainLine ∧ rest = m.tasks ∧
        n = ⟨.eval value, .print value.mainLine :: m.tasks, m.state⟩) ∨
      ∃ a, m.activation? = some a ∧ a.waiting = task :: rest ∧ n = a.machine := by
  cases turns with
  | goes sound left lineless read =>
      exact .inl ((suffix_of_append keeps lineless held).trans left)
  | prints now =>
      rcases List.suffix_cons_iff.mp held with same | below
      · obtain ⟨rfl, rfl⟩ := List.cons.inj same
        exact .inr (.inl ⟨_, now, rfl, rfl, rfl⟩)
      · exact .inl below
  | @enters a begins =>
      rw [Activation.machine_eq] at held
      rcases List.suffix_cons_iff.mp held with same | inside
      · obtain ⟨rfl, _⟩ := List.cons.inj same
        cases keeps
      rcases List.suffix_cons_iff.mp inside with same | below
      · exact .inr (.inr ⟨a, begins, same.symm, rfl⟩)
      · exact .inl (below.trans (rest_suffix_of_activation begins))
  | includes loads =>
      rcases List.suffix_cons_iff.mp held with same | inside
      · obtain ⟨rfl, _⟩ := List.cons.inj same
        cases keeps
      rcases List.suffix_cons_iff.mp inside with same | below
      · obtain ⟨rfl, _⟩ := List.cons.inj same
        cases keeps
      · exact .inl below
  | breaks _ left => exact .inl (held.trans left)
  | refuses _ waits _ =>
      rw [waits]
      exact .inl (held.trans (List.suffix_cons _ _))
  | passes _ waits =>
      rw [waits]
      exact .inl (held.trans (List.suffix_cons _ _))

/-- Once it is given something, such a task is gone. -/
theorem tasks_of_keepsLine {task : Task} (keeps : task.keepsLine = true) {rest : List Task}
    (gives : m.Gives (task :: rest)) (files : String → Except Failure String) :
    (m.advance files).tasks = rest := by
  obtain ⟨control, tasks, s⟩ := m
  obtain ⟨outcome, isGive, waits⟩ := gives
  cases isGive
  cases waits
  cases task with
  | print line => cases outcome <;> rfl
  | finishCall context line answer => cases outcome <;> rfl
  | _ => cases keeps

theorem not_gives_of_stays {task : Task} (keeps : task.keepsLine = true) {rest : List Task}
    (stays : task :: rest <:+ (m.advance files).tasks) : ¬ m.Gives (task :: rest) := by
  intro gives
  rw [tasks_of_keepsLine keeps gives] at stays
  exact Nat.not_succ_le_self _ stays.length_le

/-- The origins of the tasks that keep a line. -/
structure Traced (start m : Machine) : Prop where
  printing : ∀ {line rest}, .print line :: rest <:+ m.tasks → ∃ value s,
    line = value.mainLine ∧ RunsAbove [] start ⟨.exec (.print value), rest, s⟩ ∧
      RunsAbove (.print line :: rest) ⟨.eval value, .print line :: rest, s⟩ m
  calling : ∀ {task rest}, task.endsCall = true → task :: rest <:+ m.tasks → ∃ calling a,
    a.waiting = task :: rest ∧ Active start m calling a

theorem keepsLine_of_endsCall {task : Task} (ends : task.endsCall = true) :
    task.keepsLine = true := by
  cases task with
  | finishCall context line answer => rfl
  | _ => cases ends

theorem Traced.advance (traced : Traced start m) (runs : RunsAbove [] start m)
    (busy : ¬ m.Gives []) (files : String → Except Failure String) :
    Traced start (m.advance files) := by
  have turns := turns_advance busy files
  refine ⟨fun {line rest} held => ?_, fun {task rest} ends held => ?_⟩
  · have goesOn := not_gives_of_stays rfl held
    rcases turns.keepsLine rfl held with
      before | ⟨value, now, isPrint, isRest, next⟩ | ⟨a, _, waits, _⟩
    · obtain ⟨value, s, isLine, began, evaluated⟩ := traced.printing before
      exact ⟨value, s, isLine, began, evaluated.advance files goesOn⟩
    · cases isPrint
      obtain ⟨control, tasks, s⟩ := m
      cases now
      cases isRest
      refine ⟨value, s, rfl, runs, ?_⟩
      rw [next]
      exact .start
    · cases waits
  · have keeps := keepsLine_of_endsCall ends
    have goesOn := not_gives_of_stays keeps held
    rcases turns.keepsLine keeps held with
      before | ⟨value, _, isPrint, _⟩ | ⟨a, begins, waits, next⟩
    · obtain ⟨calling, a, waits, n, entered, calls, begins, inside⟩ := traced.calling ends before
      refine ⟨calling, a, waits, n, entered, calls, begins, inside.advance files ?_⟩
      rwa [waits]
    · rw [isPrint] at ends
      cases ends
    · obtain ⟨calling, calls, _⟩ := Option.bind_eq_some_iff.mp begins
      refine ⟨calling, a, waits, m, runs, calls, begins, ?_⟩
      rw [next]
      exact .start

/-- In a run that begins without such tasks all of them are traced. -/
theorem RunsAbove.traced (lineless : ∀ task ∈ start.tasks, task.keepsLine = false)
    (runs : RunsAbove [] start m) : Traced start m := by
  induction runs with
  | start =>
      refine ⟨fun held => ?_, fun ends held => ?_⟩
      · have isLineless := lineless _ (held.subset List.mem_cons_self)
        cases isLineless
      · have keeps := keepsLine_of_endsCall ends
        rw [lineless _ (held.subset List.mem_cons_self)] at keeps
        cases keeps
  | advance files runs busy ih => exact ih.advance runs busy files
  | pass now output runs ih =>
      refine ⟨fun held => ?_, fun ends held => ?_⟩
      · obtain ⟨value, s, isLine, began, evaluated⟩ := ih.printing held
        exact ⟨value, s, isLine, began, evaluated.pass now output⟩
      · obtain ⟨calling, a, waits, n, entered, calls, begins, inside⟩ := ih.calling ends held
        exact ⟨calling, a, waits, n, entered, calls, begins, inside.pass now output⟩

/-! ## Every error was raised -/

theorem Raises.fails {cause : Cause} (raises : m.Raises files start cause) :
    m.Fails files cause.error := by
  cases raises with
  | breaks breaks => exact breaks.fails
  | @print value printed detail rest s began evaluated given waits untaken =>
      obtain ⟨control, tasks, t⟩ := m
      cases given
      cases waits
      have untaken : (t.writeLine printed.text).1 = some detail := untaken
      refine .at_task rfl rfl (s := (t.writeLine printed.text).2) ?_
      simp only [advance, step, resume_print]
      rw [untaken]
      rfl

/-- An error that a run hands on was raised in the run, for one of the causes. -/
theorem RunsAbove.exists_raises (runs : RunsAbove [] start n)
    (lineless : ∀ task ∈ start.tasks, task.keepsLine = false)
    (sound : start.control.isFailing = false) {error : Error}
    (failing : n.control = .give (.failed error)) :
    ∃ m files cause, RunsAbove [] start m ∧ m.Raises files start cause ∧
      RunsAbove [] (m.advance files) n := by
  induction runs generalizing error with
  | start =>
      rw [failing] at sound
      cases sound
  | @advance n files runs busy ih =>
      have turns := turns_advance busy files
      have traced := runs.traced lineless
      generalize next : n.advance files = later at turns failing
      cases turns with
      | goes isSound =>
          cases failing
          cases isSound
      | prints => cases failing
      | enters begins =>
          rw [Activation.machine_eq] at failing
          cases failing
      | includes => cases failing
      | breaks breaks =>
          refine ⟨n, files, _, runs, .breaks breaks, ?_⟩
          rw [next]
          exact .start
      | @refuses printed line detail rest _ given waits untaken =>
          have held : .print line :: rest <:+ n.tasks := waits ▸ List.suffix_rfl
          obtain ⟨value, s, rfl, began, evaluated⟩ := traced.printing held
          refine ⟨n, files, .print value detail, runs, .print began evaluated given waits untaken, ?_⟩
          rw [next]
          exact .start
      | passes isFailing _ =>
          obtain ⟨m, before, cause, reached, raises, after⟩ := ih isFailing
          rw [← next]
          exact ⟨m, before, cause, reached, raises, after.advance files busy⟩
  | pass now output runs ih =>
      obtain ⟨m, before, cause, reached, raises, after⟩ := ih failing
      exact ⟨m, before, cause, reached, raises, after.pass now output⟩

/-! ## The innermost call -/

theorem Active.waiting_suffix {calling : Calling} {a : Activation}
    (active : Active start m calling a) : a.waiting <:+ m.tasks := by
  obtain ⟨n, entered, calls, begins, inside⟩ := active
  have isAbove : a.machine.IsAbove a.waiting a.machine.state.context := by
    rw [Activation.machine_eq]
    exact ⟨[_], rfl, rfl⟩
  obtain ⟨above, tasks, _⟩ := inside.isAbove isAbove
  rw [tasks]
  exact List.suffix_append _ _

/-- The end of a call keeps the line of its closing parenthesis. -/
theorem line_of_activation {calling : Calling} (calls : m.calling? = some calling) {a : Activation}
    (begins : m.activation? = some a) : a.line = calling.paren.line := by
  cases activates_of_activation begins with
  | closure called =>
      cases calls.symm.trans called
      rfl
  | init called =>
      cases calls.symm.trans called
      rfl

/-- The first of some tasks that ends a call. -/
theorem exists_first_end {tasks : List Task} {task : Task} (waits : task ∈ tasks)
    (ends : task.endsCall = true) :
    ∃ inner first rest, tasks = inner ++ first :: rest ∧ first.endsCall = true ∧
      ∀ other ∈ inner, other.endsCall = false := by
  obtain ⟨first, found⟩ := Option.isSome_iff_exists.mp
    (List.find?_isSome.mpr ⟨task, waits, ends⟩)
  obtain ⟨isEnd, inner, rest, rfl, others⟩ := List.find?_eq_some_iff_append.mp found
  exact ⟨inner, first, rest, rfl, isEnd, fun other held => by simpa using others other held⟩

/-- The innermost call is the one whose end comes first. -/
theorem Traced.exists_innermost (traced : Traced start m) {inner : List Task} {first : Task}
    {rest : List Task} (waits : m.tasks = inner ++ first :: rest) (ends : first.endsCall = true)
    (inside : ∀ other ∈ inner, other.endsCall = false) :
    ∃ calling a, a.waiting = first :: rest ∧ Active start m calling a ∧
      ∀ other b, Active start m other b → b.waiting <:+ a.waiting := by
  have held : first :: rest <:+ m.tasks := by
    rw [waits]
    exact List.suffix_append _ _
  obtain ⟨calling, a, isWaiting, active⟩ := traced.calling ends held
  refine ⟨calling, a, isWaiting, active, fun other b around => ?_⟩
  have below := around.waiting_suffix
  rw [waits] at below
  rw [isWaiting]
  exact suffix_of_append (p := Task.endsCall) rfl inside below

/-- If calls are active, one of them is the innermost. -/
theorem Traced.innermost (traced : Traced start m) {calling : Calling} {a : Activation}
    (active : Active start m calling a) : ∃ calling, Innermost start m calling := by
  have waits := active.waiting_suffix.subset List.mem_cons_self
  obtain ⟨inner, first, rest, tasks, ends, inside⟩ := exists_first_end waits rfl
  obtain ⟨calling, a, _, active, others⟩ := traced.exists_innermost tasks ends inside
  exact ⟨calling, a, active, others⟩

/-- Above the end of the innermost call no other one ends. -/
theorem Innermost.exists_tasks {calling : Calling} (innermost : Innermost start m calling)
    (traced : Traced start m) :
    ∃ inner context answer rest,
      m.tasks = inner ++ .finishCall context calling.paren.line answer :: rest ∧
        ∀ other ∈ inner, other.endsCall = false := by
  obtain ⟨a, active, others⟩ := innermost
  have waits := active.waiting_suffix.subset List.mem_cons_self
  obtain ⟨inner, first, rest, tasks, ends, inside⟩ := exists_first_end waits rfl
  obtain ⟨calling', b, isFirst, around, outer⟩ := traced.exists_innermost tasks ends inside
  have same : a.waiting = b.waiting :=
    (outer calling a active).eq_of_length_le (others calling' b around).length_le
  obtain ⟨n, _, calls, begins, _⟩ := active
  have line := line_of_activation calls begins
  refine ⟨inner, a.state.context, a.answer, a.rest, ?_, inside⟩
  rw [tasks, ← isFirst, ← same, ← line]
  rfl

/-- No task ends a call if none is active. -/
theorem Traced.endsCall_of_idle (traced : Traced start m)
    (idle : ∀ calling a, ¬ Active start m calling a) : ∀ task ∈ m.tasks, task.endsCall = false := by
  intro task waits
  by_contra ends
  have ends : task.endsCall = true := Bool.eq_true_of_not_eq_false ends
  obtain ⟨above, rest, tasks⟩ := List.append_of_mem waits
  have held : task :: rest <:+ m.tasks := by
    rw [tasks]
    exact List.suffix_append _ _
  obtain ⟨calling, a, _, active⟩ := traced.calling ends held
  exact idle calling a active

/-! ## The line that is told in the end -/

/-- The line that an error tells in the end, for each cause for which it may have been raised. -/
structure RightLine (start m : Machine) (cause : Cause) (line : Nat) : Prop where
  rule : ∀ {token fault}, cause = .rule token fault → line = token.line
  inclusion : ∀ {path errors}, cause = .inclusion path errors → line = path.line
  native : ∀ {paren fault}, cause = .native paren fault → line = paren.line
  printed : ∀ {value detail token}, cause = .print value detail → value.mainToken? = some token →
    line = token.line
  literal : ∀ {value detail shown calling}, cause = .print value detail →
    value.ungrouped = .literal shown → Innermost start m calling → line = calling.paren.line
  /-- Only a literal that is printed outside of all calls has no line. -/
  zero : line = 0 ↔
    (∃ value detail shown, cause = .print value detail ∧ value.ungrouped = .literal shown) ∧
      ∀ calling a, ¬ Active start m calling a
  innermost : ∀ {calling a}, Active start m calling a → ∃ calling, Innermost start m calling

theorem mainLine_of_literal {value : Expr} {shown : Literal}
    (isLiteral : value.ungrouped = .literal shown) : value.mainLine = 0 := by
  rw [value.mainLine_eq, value.mainToken?_eq_none_iff.mpr ⟨shown, isLiteral⟩]
  rfl

/-- An error that tells a line as it is raised tells that of its cause. -/
theorem rightLine_of_told (traced : Traced start m) {cause : Cause} (told : cause.line ≠ 0) :
    RightLine start m cause cause.line := by
  have noLiteral {value : Expr} {detail : String} {shown : Literal}
      (isPrint : cause = .print value detail) (isLiteral : value.ungrouped = .literal shown) : False := by
    subst isPrint
    exact told (mainLine_of_literal isLiteral)
  constructor
  · rintro token fault rfl
    rfl
  · rintro path errors rfl
    rfl
  · rintro paren fault rfl
    rfl
  · rintro value detail token rfl isMain
    rw [Cause.line, value.mainLine_eq, isMain]
    rfl
  · intro value detail shown calling isPrint isLiteral
    exact (noLiteral isPrint isLiteral).elim
  · constructor
    · exact fun none => absurd none told
    · rintro ⟨⟨value, detail, shown, isPrint, isLiteral⟩, _⟩
      exact (noLiteral isPrint isLiteral).elim
  · exact traced.innermost

/-- The closing parenthesis of a call that is active is written on some line. -/
theorem Innermost.told {calling : Calling} (innermost : Innermost start m calling) {past : Past}
    (reached : Reached past start) : calling.paren.line ≠ 0 := by
  obtain ⟨a, ⟨n, entered, calls, _⟩, _⟩ := innermost
  obtain ⟨_, before⟩ := reached.runsAbove entered
  exact before.line_ne_zero (paren_mem_tokens calls)

/-- What the innermost call makes of an error without a line. -/
theorem Innermost.fillAll_eq {calling : Calling} (innermost : Innermost start m calling)
    (traced : Traced start m) {past : Past} (reached : Reached past start) (fault : RuntimeFault) :
    fillAll m.tasks (.runtime 0 fault) = .runtime calling.paren.line fault := by
  obtain ⟨inner, context, answer, rest, tasks, inside⟩ := innermost.exists_tasks traced
  rw [tasks, fillAll_append inside, fillAll_finishCall (innermost.told reached)]

/-- Outside of all calls an error without a line stays without one. -/
theorem Traced.fillAll_of_idle (traced : Traced start m)
    (idle : ∀ calling a, ¬ Active start m calling a) (error : Error) :
    fillAll m.tasks error = error := by
  have passed := fillAll_append (traced.endsCall_of_idle idle) [] error
  rwa [List.append_nil] at passed

section Literals

variable {value : Expr} {detail : String} {shown : Literal}

theorem error_of_literal (isLiteral : value.ungrouped = .literal shown) :
    (Cause.print value detail).error = .runtime 0 (.unwritableOutput detail) := by
  rw [Cause.error_eq, Cause.line, mainLine_of_literal isLiteral]
  rfl

theorem ne_of_literal (isLiteral : value.ungrouped = .literal shown) {other : Expr} {token : Token}
    (isMain : other.mainToken? = some token) (reason : String) :
    Cause.print value detail ≠ .print other reason := by
  intro same
  obtain ⟨rfl, _⟩ := Cause.print.inj same
  cases (value.mainToken?_eq_none_iff.mpr ⟨shown, isLiteral⟩).symm.trans isMain

/-- A literal that is printed outside of all calls has no line. -/
theorem rightLine_of_idle (idle : ∀ calling a, ¬ Active start m calling a)
    (isLiteral : value.ungrouped = .literal shown) : RightLine start m (.print value detail) 0 := by
  constructor
  · exact nofun
  · exact nofun
  · exact nofun
  · intro other reason token same isMain
    exact absurd same (ne_of_literal isLiteral isMain reason)
  · rintro _ _ _ calling _ _ ⟨a, active, _⟩
    exact absurd active (idle calling a)
  · exact ⟨fun _ => ⟨⟨value, detail, shown, rfl, isLiteral⟩, idle⟩, fun _ => rfl⟩
  · intro calling a active
    exact absurd active (idle calling a)

/-- A literal that is printed in calls has the line of the innermost one. -/
theorem rightLine_of_innermost (traced : Traced start m) {past : Past}
    (reached : Reached past start) {calling : Calling} (innermost : Innermost start m calling)
    (isLiteral : value.ungrouped = .literal shown) :
    RightLine start m (.print value detail) calling.paren.line := by
  constructor
  · exact nofun
  · exact nofun
  · exact nofun
  · intro other reason token same isMain
    exact absurd same (ne_of_literal isLiteral isMain reason)
  · intro _ _ _ other _ _ isInnermost
    have filled := innermost.fillAll_eq traced reached (.unwritableOutput detail)
    rw [isInnermost.fillAll_eq traced reached] at filled
    injection filled with same
    exact same.symm
  · constructor
    · exact fun none => absurd none (innermost.told reached)
    · rintro ⟨_, idle⟩
      obtain ⟨a, active, _⟩ := innermost
      exact absurd active (idle calling a)
  · exact traced.innermost

/-- A literal is printed in vain: the error gets the line of the innermost call, if there is one. -/
theorem exists_rightLine_of_literal (traced : Traced start m) {past : Past}
    (reached : Reached past start) (isLiteral : value.ungrouped = .literal shown) :
    ∃ line, fillAll m.tasks (Cause.print value detail).error =
        (Cause.print value detail).errorAt line ∧
      RightLine start m (.print value detail) line := by
  rw [error_of_literal isLiteral]
  by_cases active : ∃ calling a, Active start m calling a
  · obtain ⟨calling, a, active⟩ := active
    obtain ⟨calling, innermost⟩ := traced.innermost active
    exact ⟨calling.paren.line, innermost.fillAll_eq traced reached _,
      rightLine_of_innermost traced reached innermost isLiteral⟩
  · have idle (calling : Calling) (a : Activation) : ¬ Active start m calling a :=
      fun here => active ⟨calling, a, here⟩
    exact ⟨0, traced.fillAll_of_idle idle _, rightLine_of_idle idle isLiteral⟩

end Literals

/-- Whatever an error is raised for, the tasks that it passes through leave it the right line. -/
theorem Raises.exists_rightLine {cause : Cause} (raises : m.Raises files start cause)
    (traced : Traced start m) (runs : RunsAbove [] start m) {past : Past}
    (reached : Reached past start) :
    ∃ line, fillAll m.tasks cause.error = cause.errorAt line ∧ RightLine start m cause line := by
  have told (isTold : cause.line ≠ 0) :
      ∃ line, fillAll m.tasks cause.error = cause.errorAt line ∧ RightLine start m cause line := by
    rw [cause.error_eq]
    refine ⟨cause.line, fillAll_of_told ?_ _, rightLine_of_told traced isTold⟩
    cases cause <;> exact fun none => isTold (Option.some.inj none)
  cases raises with
  | breaks breaks =>
      obtain ⟨token, held, isLine⟩ := breaks.exists_token
      obtain ⟨_, later⟩ := reached.runsAbove runs
      exact told (isLine ▸ later.line_ne_zero held)
  | @print value printed detail rest s began evaluated given waits untaken =>
      cases isMain : value.mainToken? with
      | none =>
          obtain ⟨shown, isLiteral⟩ := value.mainToken?_eq_none_iff.mp isMain
          exact exists_rightLine_of_literal traced reached isLiteral
      | some token =>
          obtain ⟨_, before⟩ := reached.runsAbove began
          have held : token ∈ value.tokens := Expr.mem_tokens_of_mainToken? isMain
          refine told ?_
          rw [Cause.line, value.mainLine_eq, isMain]
          exact before.line_ne_zero (mem_tokens_of_phrase rfl held)

/-- Once an error is raised, the run fails with it if it ends. -/
theorem Raises.outcome_eq {cause : Cause} (raises : m.Raises files start cause) {outcome : Outcome}
    {s : State} (ends : RunsAbove [] (m.advance files) ⟨.give outcome, [], s⟩) :
    outcome = .failed (fillAll m.tasks cause.error) := by
  obtain ⟨above, rest, t, tasks, inside, next⟩ := raises.fails
  rw [next] at ends
  obtain ⟨passed, whole, isFailing⟩ := ends.passes rfl
  obtain rfl := Control.give.inj isFailing
  have whole : rest = passed := whole.trans (List.append_nil passed)
  rw [tasks, fillAll_append inside, whole]

end Tracing

/-- A native function tells no line, and the call that it runs in fills in its own. -/
theorem native_fails {m : Machine} {calling : Calling} {native : Native} {error : Error} {s : State}
    (calls : m.calling? = some calling) (isNative : calling.callee = .native native)
    (accepted : refusal? calling.callee.arity? calling.args.length m.state.context.depth = none)
    (failed : runNative native calling.args m.state = (.give (.failed error), s)) :
    ∃ fault, NativeFault native calling.args m.state fault ∧ error.line? = some 0 ∧
      error.message = fault.message ∧
      ∀ files, m.advance files =
        ⟨.give (.failed (.runtime calling.paren.line fault)), calling.rest, s⟩ := by
  have ends := runNative_ends native calling.args m.state
  rw [failed] at ends
  cases ends with
  | @fails fault isFault output =>
      refine ⟨fault, isFault, rfl, rfl, fun files => ?_⟩
      rw [advance_accepted calls accepted files, isNative]
      simp only [invoke, callNative, failed]
      rfl

end Machine

/-- The errors of a run that is over are those that its machine ends with. -/
theorem Session.runsAbove_of_finished {session after : Session} {source : String}
    {program : Program}
    (compiled : Program.compile session.state.nextReference source = .ok program) {host : Host}
    {errors : List Error}
    (ran : session.run host source = (.finished errors, after)) :
    ∀ error ∈ errors, Machine.RunsAbove [] (session.begin host.now program)
      ⟨.give (.failed error), [], after.state⟩ := by
  rw [run_accepted compiled, runProgram] at ran
  intro error held
  cases ended : ((session.begin host.now program).run host.files host.patience).1 with
  | outcome outcome =>
      rw [ended] at ran
      cases outcome with
      | failed raised =>
          cases ran
          rw [List.mem_singleton.mp held]
          exact Machine.runsAbove_run ended
      | _ =>
          cases ran
          cases held
  | exited code =>
      rw [ended] at ran
      cases ran
  | unfinished =>
      rw [ended] at ran
      cases ran

open Machine in
/--
Every error tells the right line.  Let a program be run by a session that is at rest, as every
reachable one is, and also one that is about to run a script.  Whatever the files of the run are and
whatever its output takes, an error that it ends with was raised in the run for one of the causes:
a rule was broken, an inclusion or a native function failed, or the value of a `print` statement was
not written.  Then the run comes to no other end, and the line is that of the token that the rule
names, of the path, of the closing parenthesis of the call of the native function, or of the main
token of what was printed.  Only a literal has none; then it is the closing parenthesis of the
innermost call that is active, and without a call the line is 0.  It is 0 in no other case.  A line
that is told is changed nowhere on the way out.  A native function itself fails for one of its faults
and tells no line; the call that it runs in fills in its own.
-/
theorem errors_tell_right_lines {session : Session} (atRest : session.AtRest)
    {source : String} {program : Program}
    (compiled : Program.compile session.state.nextReference source = .ok program) :
    (∀ (host : Host) (errors : List Error) (after : Session),
      session.run host source = (.finished errors, after) → ∀ error ∈ errors,
        RunsAbove [] (session.begin host.now program)
          ⟨.give (.failed error), [], after.state⟩) ∧
    (∀ (now : Float) (error : Error) (s : State),
      RunsAbove [] (session.begin now program) ⟨.give (.failed error), [], s⟩ →
        ∃ m files cause, RunsAbove [] (session.begin now program) m ∧
          m.Raises files (session.begin now program) cause ∧
          RunsAbove [] (m.advance files) ⟨.give (.failed error), [], s⟩) ∧
    (∀ (now : Float) (m : Machine) (files : String → Except Failure String) (cause : Cause)
      (outcome : Outcome) (s : State),
      RunsAbove [] (session.begin now program) m →
        m.Raises files (session.begin now program) cause →
        RunsAbove [] (m.advance files) ⟨.give outcome, [], s⟩ →
          ∃ line, outcome = .failed (cause.errorAt line) ∧
            RightLine (session.begin now program) m cause line) ∧
    (∀ (m n : Machine) (error : Error), m.control = .give (.failed error) →
      error.line? ≠ some 0 → RunsAbove [] m n → n.control = .give (.failed error)) ∧
    ∀ (m : Machine) (calling : Calling) (native : Native) (error : Error) (s : State),
      m.calling? = some calling → calling.callee = .native native →
        refusal? calling.callee.arity? calling.args.length m.state.context.depth = none →
          runNative native calling.args m.state = (.give (.failed error), s) →
            ∃ fault, NativeFault native calling.args m.state fault ∧ error.line? = some 0 ∧
              error.message = fault.message ∧
              ∀ files, m.advance files = ⟨.give (.failed (.runtime calling.paren.line fault)),
                calling.rest, s⟩ := by
  have lineless (now : Float) :
      ∀ task ∈ (session.begin now program).tasks, task.keepsLine = false :=
    List.forall_mem_singleton.mpr rfl
  refine ⟨fun host errors after ran => Session.runsAbove_of_finished compiled ran, ?_, ?_,
    fun m n error failing told runs => runs.told failing told,
    fun m calling native error s => native_fails⟩
  · intro now error s runs
    exact runs.exists_raises (lineless now) rfl rfl
  · intro now m files cause outcome s runs raises ends
    obtain ⟨past, reached, _⟩ := atRest.begin now compiled
    have traced := runs.traced (lineless now)
    obtain ⟨line, filled, right⟩ := raises.exists_rightLine traced runs reached
    refine ⟨line, ?_, right⟩
    rw [raises.outcome_eq ends, filled]

/-- A program that prints a literal after a call. -/
def literalAfterCall : String := "fun f() \x7b \x7d f(); print nil;"

/-- A session whose output takes no line. -/
def mute : Session := .fresh (.limited 0) .unlimited false

/-- Whether the program fails on line 0 if the output takes no line. -/
def failsOnNoLine : Bool :=
  match Program.compile 0 literalAfterCall,
    (mute.run ⟨fun _ => .error .missing, 0, 64⟩ literalAfterCall).1 with
  | .ok _, .finished [.runtime 0 (.unwritableOutput "sink full")] => true
  | _, _ => false

/-- The error has line 0, so it was a literal that was not written, and no call was active. -/
theorem errors_tell_right_lines_of_literal :
    ∃ program after, Program.compile 0 literalAfterCall = .ok program ∧
      mute.run ⟨fun _ => .error .missing, 0, 64⟩ literalAfterCall =
        (.finished [.runtime 0 (.unwritableOutput "sink full")], after) ∧
      ∃ m files value shown, Machine.RunsAbove [] (mute.begin 0 program) m ∧
        m.Raises files (mute.begin 0 program) (.print value "sink full") ∧
        value.ungrouped = .literal shown ∧
        ∀ calling a, ¬ Machine.Active (mute.begin 0 program) m calling a := by
  have computed : failsOnNoLine = true := by decide +kernel
  unfold failsOnNoLine at computed
  split at computed
  · next program compiled ran =>
      have reachable : mute.Reachable := .fresh (.limited 0) .unlimited false
      have right := errors_tell_right_lines reachable.atRest compiled
      refine ⟨program, _, compiled, Prod.ext ran rfl, ?_⟩
      have ends := right.1 _ _ _ (Prod.ext ran rfl) _ List.mem_cons_self
      obtain ⟨m, files, cause, runs, raises, after⟩ := right.2.1 _ _ _ ends
      obtain ⟨line, told, isRight⟩ := right.2.2.1 _ m files cause _ _ runs raises after
      have isZero : line = 0 := by
        cases cause <;> cases told <;> rfl
      obtain ⟨⟨value, detail, shown, rfl, isLiteral⟩, idle⟩ := isRight.zero.mp isZero
      cases told
      exact ⟨m, files, value, shown, runs, raises, isLiteral, idle⟩
  · cases computed

end Lox
