import Lox.Proofs.History

/-!
# A return ends its call, and nothing else

Analysis only lets a `return` stand inside of functions, so one that is executed always finds a
call to end.  It takes away the tasks above the end of the innermost call, one after another and
without doing anything else, and then this call has its value.
-/

namespace Lox

/-- Whether a task belongs to the inside of a call, so that a `return` takes it away. -/
def Task.isWithinCall : Task → Bool
  | .program _ => false
  | .finishCall .. => false
  | .finishInclusion _ => false
  | _ => true

def Task.endsCall : Task → Bool
  | .finishCall .. => true
  | _ => false

/-- Where a `return` is passed on there is a call to be finished, and only its inside is above. -/
theorem StackRel.awaits_call {r : Respelling} {w : World} {store : Store} {p : Spot}
    {tasks tasks' : List Task} (left : StackRel r w store p tasks tasks')
    (within : p.around.inFunction = true) :
    ∃ inner saved line answer rest, tasks = inner ++ .finishCall saved line answer :: rest ∧
      ∀ task ∈ inner, task.isWithinCall = true := by
  induction left with
  | nil _ outside =>
      rw [outside] at within
      cases within
  | @task p task task' tasks tasks' first _ ih =>
      obtain ⟨inner, saved, line, answer, rest, rfl, inside⟩ :=
        ih (by rw [Task.spotAfter_around]; exact within)
      refine ⟨task :: inner, saved, line, answer, rest, rfl, List.forall_mem_cons.mpr ⟨?_, inside⟩⟩
      cases first with
      | program settled outside known =>
          rw [outside] at within
          cases within
      | _ => rfl
  | @leave p q saved' tasks tasks' same _ _ ih =>
      obtain ⟨inner, saved, line, answer, rest, rfl, inside⟩ := ih (same.trans within)
      exact ⟨.leave saved' :: inner, saved, line, answer, rest, rfl,
        List.forall_mem_cons.mpr ⟨rfl, inside⟩⟩
  | finishCall _ _ _ _ =>
      exact ⟨[], _, _, _, _, rfl, fun _ none => (List.not_mem_nil none).elim⟩
  | finishInclusion outside _ _ _ =>
      rw [outside] at within
      cases within

/-- A `return` that is passed on always finds the end of a call. -/
theorem Reached.awaits_call {past : Past} {m : Machine} (reached : Reached past m) {value : Value}
    (returning : m.control = .give (.returned value)) :
    ∃ inner saved line answer rest, m.tasks = inner ++ .finishCall saved line answer :: rest ∧
      ∀ task ∈ inner, task.isWithinCall = true := by
  obtain ⟨w, _, _, related⟩ := reached.related fun _ => Past.first_ne_unused
  obtain @⟨p, q, control, control', tasks, tasks', s, s', opens, doing, left, states⟩ := related
  cases returning
  cases doing with
  | returned within related => exact left.awaits_call within

/-! ## Unwinding -/

namespace Machine

theorem advance_returned (files : String → Except Failure String) (value : Value) {task : Task}
    (within : task.isWithinCall = true) (tasks : List Task) (s : State) :
    advance files ⟨.give (.returned value), task :: tasks, s⟩ =
      ⟨.give (.returned value), tasks, s.setContext (task.restores s.context)⟩ := by
  cases task with
  | program stmts => cases within
  | finishCall saved line answer => cases within
  | finishInclusion saved => cases within
  | _ => rfl

/-- Step by step the tasks inside of a call are taken away, and only the context changes. -/
theorem unwinds (files : String → Except Failure String) (value : Value) {inner : List Task}
    (inside : ∀ task ∈ inner, task.isWithinCall = true) (waiting : List Task) (s : State)
    {steps : Nat} (few : steps ≤ inner.length) :
    (advance files)^[steps] ⟨.give (.returned value), inner ++ waiting, s⟩ =
      ⟨.give (.returned value), inner.drop steps ++ waiting,
        s.setContext (contextAfter (inner.take steps) s.context)⟩ := by
  induction inner generalizing steps s with
  | nil =>
      obtain rfl := Nat.le_zero.mp few
      rfl
  | cons task inner ih =>
      obtain ⟨first, inside⟩ := List.forall_mem_cons.mp inside
      cases steps with
      | zero => rfl
      | succ steps =>
          rw [Function.iterate_succ_apply, List.cons_append, advance_returned files value first,
            ih inside _ (Nat.le_of_succ_le_succ few)]
          rfl

/-- The machine is about to execute a `return` with the given value, above some tasks. -/
inductive Returns (value : Value) (tasks : List Task) : Machine → Prop where
  | bare {keyword : Token} {s : State} (isNil : value = .nil) :
      Returns value tasks ⟨.exec (.ret keyword none), tasks, s⟩
  | operand {s : State} : Returns value tasks ⟨.give (.value value), .ret :: tasks, s⟩

theorem Returns.advance {value : Value} {tasks : List Task} {m : Machine}
    (returns : m.Returns value tasks) (files : String → Except Failure String) :
    m.advance files = ⟨.give (.returned value), tasks, m.state⟩ := by
  cases returns with
  | bare isNil =>
      subst isNil
      rfl
  | operand => rfl

end Machine

/-- What a call with a result comes to: for an initializer that is its receiver. -/
inductive Answer.Gives (store : Store) (value : Value) : Answer → Value → Prop where
  | result : Gives store value .result value
  | receiver {env : Env} {inst : Instance}
      (bound : store.getAt? env 0 "this" = some (.inst inst)) :
      Gives store value (.receiver env) (.inst inst)
  | made (inst : Instance) : Gives store value (.made inst) (.inst inst)

/-! ## Activations -/

section Activations

variable {past : Past} {m n : Machine} {waiting : List Task}

/-- What runs above some tasks is reached. -/
theorem Reached.runsAbove (reached : Reached past m) (runs : Machine.RunsAbove waiting m n) :
    ∃ past, Reached past n := by
  induction runs with
  | start => exact ⟨past, reached⟩
  | advance files _ _ ih =>
      obtain ⟨past, reached⟩ := ih
      exact ⟨_, reached.advance files⟩
  | pass now output _ ih =>
      obtain ⟨past, reached⟩ := ih
      exact ⟨past, reached.pass now output⟩

/-- The machine after some steps is reached. -/
theorem Reached.stepped (reached : Reached past m) (steps : Nat) :
    ∃ past, Reached past (m.stepped steps) := by
  induction steps with
  | zero => exact ⟨past, reached⟩
  | succ steps ih =>
      obtain ⟨past, reached⟩ := ih
      rw [Machine.stepped, Function.iterate_succ_apply']
      exact ⟨_, reached.advance _⟩

/-- A receiver is never bound anew. -/
theorem Reached.receiver (reached : Reached past m) (runs : Machine.RunsAbove waiting m n)
    {frame : Nat} {value : Value} (bound : m.state.store.valueIn? frame "this" = some value) :
    n.state.store.valueIn? frame "this" = some value := by
  induction runs with
  | start => exact bound
  | @advance n files runs _ ih =>
      obtain ⟨later, reached⟩ := reached.runsAbove runs
      have apart : ∀ loaded ∈ (later.after files n).loaded,
          loaded.first ≠ (later.after files n).unused := fun _ => Past.first_ne_unused
      obtain ⟨w, _, _, related⟩ := reached.related fun loaded held =>
        apart loaded (List.mem_append_left _ held)
      obtain ⟨w', follows⟩ := related.advance (Respelling.apart_proper _)
        (Respelling.apart_inside _) files fun loaded isNext =>
          Respelling.apart_foreign (apart loaded (by simp [Past.after, isNext]))
      exact follows.grows.receiver frame value ih
  | pass now output _ ih => exact ih

/-- The answer of a call that was entered gives a value to whatever result the body has. -/
theorem Reached.gives {closure : Closure} {args : List Value} {line : Nat} {answer : Answer}
    {rest : List Task} {s : State} (reached : Reached past (.enter closure args line answer rest s))
    (runs : Machine.RunsAbove waiting (.enter closure args line answer rest s) n)
    (returned : Option Value) :
    answer.Gives (Machine.enter closure args line answer rest s).state.store
      (returned.getD .nil) (Machine.answerValue answer returned n.state) := by
  cases answer with
  | result => exact .result
  | made inst => exact .made inst
  | receiver env =>
      obtain ⟨w, _, _, related⟩ := reached.related fun _ => Past.first_ne_unused
      obtain @⟨_, _, _, _, _, _, _, _, _, _, left, _⟩ := related
      cases left with
      | task _ left =>
          cases left with
          | task first _ => cases first
          | finishCall answers _ _ =>
              cases answers with
              | @receiver _ inst _ _ bound =>
                  have kept := reached.receiver runs bound
                  have found : Machine.answerValue (.receiver env) returned n.state = .inst inst := by
                    simp only [Machine.answerValue, Store.getAt?, Env.ancestor?_zero,
                      Option.bind_some, kept, Option.getD_some]
                  rw [found]
                  exact .receiver bound

/-- The inside of the innermost call is determined. -/
theorem inner_unique {inner inner' rest rest' : List Task} {task task' : Task}
    (ends : task.endsCall = true) (ends' : task'.endsCall = true)
    (none : ∀ other ∈ inner, other.endsCall = false)
    (none' : ∀ other ∈ inner', other.endsCall = false)
    (same : inner ++ task :: rest = inner' ++ task' :: rest') : inner = inner' := by
  induction inner generalizing inner' with
  | nil =>
      cases inner' with
      | nil => rfl
      | cons other inner' =>
          obtain ⟨rfl, _⟩ := List.cons.inj same
          rw [none' task List.mem_cons_self] at ends
          cases ends
  | cons other inner ih =>
      cases inner' with
      | nil =>
          obtain ⟨rfl, _⟩ := List.cons.inj same
          rw [none other List.mem_cons_self] at ends'
          cases ends'
      | cons other' inner' =>
          obtain ⟨rfl, below⟩ := List.cons.inj same
          rw [ih (fun t held => none t (List.mem_cons_of_mem _ held))
            (fun t held => none' t (List.mem_cons_of_mem _ held)) below]

theorem Task.endsCall_of_isWithinCall {task : Task} (within : task.isWithinCall = true) :
    task.endsCall = false := by
  cases task with
  | finishCall saved line answer => cases within
  | _ => rfl

/-- What is above the end of the innermost call is inside of this call. -/
theorem Reached.isWithinCall (reached : Reached past m) {value : Value}
    (returning : m.control = .give (.returned value)) {inner : List Task} {saved : Context}
    {line : Nat} {answer : Answer} {rest : List Task}
    (tasks : m.tasks = inner ++ .finishCall saved line answer :: rest)
    (innermost : ∀ task ∈ inner, task.endsCall = false) :
    ∀ task ∈ inner, task.isWithinCall = true := by
  obtain ⟨inner', _, _, _, _, tasks', inside⟩ := reached.awaits_call returning
  have same := inner_unique rfl rfl innermost
    (fun task held => Task.endsCall_of_isWithinCall (inside task held)) (tasks.symm.trans tasks')
  rwa [same]

end Activations

open Machine in
/--
A `return` ends exactly its call.  No whole program and no inclusion is ever given a `return`:
wherever one is passed on, the end of a call waits below, and above it only the inside of that
call.  If a `return` is executed in an activation, nothing but its unwinding happens until the
call is over; then the call has the value of the operand, or for an initializer the receiver, and
all that waited for the call goes on in the context of the caller.  A body that ends without a
`return` answers as if it had returned `nil`.
-/
theorem return_ends_exactly_its_call :
    (∀ (past : Past) (m : Machine) (value : Value),
      Reached past m → m.control = .give (.returned value) →
        (m.tasks ≠ [] ∧ (∀ stmts rest, m.tasks ≠ .program stmts :: rest) ∧
          ∀ saved rest, m.tasks ≠ .finishInclusion saved :: rest) ∧
        ∃ inner saved line answer rest, m.tasks = inner ++ .finishCall saved line answer :: rest ∧
          ∀ task ∈ inner, task.isWithinCall = true) ∧
    (∀ (past : Past) (closure : Closure) (args : List Value) (line : Nat) (answer : Answer)
      (rest inner : List Task) (s : State) (n : Machine) (value : Value)
      (files : String → Except Failure String),
      Reached past (enter closure args line answer rest s) →
        RunsAbove (.finishCall s.context line answer :: rest)
          (enter closure args line answer rest s) n →
        n.Returns value (inner ++ .finishCall s.context line answer :: rest) →
        (∀ task ∈ inner, task.endsCall = false) →
          (∀ steps, steps ≤ inner.length →
            (advance files)^[steps + 1] n =
              ⟨.give (.returned value),
                inner.drop steps ++ .finishCall s.context line answer :: rest,
                n.state.setContext (contextAfter (inner.take steps) n.state.context)⟩) ∧
          ∃ result, answer.Gives (enter closure args line answer rest s).state.store value result ∧
            (advance files)^[inner.length + 2] n =
              ⟨.give (.value result), rest, n.state.setContext s.context⟩) ∧
    (∀ (past : Past) (closure : Closure) (args : List Value) (line : Nat) (answer : Answer)
      (rest : List Task) (s t : State) (value : Value) (files : String → Except Failure String),
      Reached past (enter closure args line answer rest s) →
        RunsAbove (.finishCall s.context line answer :: rest)
          (enter closure args line answer rest s)
          ⟨.give (.value value), .finishCall s.context line answer :: rest, t⟩ →
          ∃ result, answer.Gives (enter closure args line answer rest s).state.store .nil result ∧
            advance files ⟨.give (.value value), .finishCall s.context line answer :: rest, t⟩ =
              ⟨.give (.value result), rest, t.setContext s.context⟩) := by
  refine ⟨?_, ?_, ?_⟩
  · intro past m value reached returning
    obtain ⟨inner, saved, line, answer, rest, tasks, inside⟩ := reached.awaits_call returning
    refine ⟨⟨?_, ?_, ?_⟩, inner, saved, line, answer, rest, tasks, inside⟩
    · simp [tasks]
    · intro stmts others same
      rw [tasks] at same
      cases inner with
      | nil => cases same
      | cons task inner =>
          obtain ⟨rfl, _⟩ := List.cons.inj same
          cases inside _ List.mem_cons_self
    · intro context others same
      rw [tasks] at same
      cases inner with
      | nil => cases same
      | cons task inner =>
          obtain ⟨rfl, _⟩ := List.cons.inj same
          cases inside _ List.mem_cons_self
  · intro past closure args line answer rest inner s n value files reached runs returns innermost
    have first := returns.advance files
    obtain ⟨_, later⟩ := reached.runsAbove runs
    have returned := later.advance files
    rw [first] at returned
    have inside := returned.isWithinCall rfl rfl innermost
    have unwound : ∀ steps, steps ≤ inner.length →
        (advance files)^[steps + 1] n =
          ⟨.give (.returned value), inner.drop steps ++ .finishCall s.context line answer :: rest,
            n.state.setContext (contextAfter (inner.take steps) n.state.context)⟩ := by
      intro steps few
      rw [Function.iterate_succ_apply, first]
      exact unwinds files value inside _ n.state few
    refine ⟨unwound, _, reached.gives runs (some value), ?_⟩
    rw [Function.iterate_succ_apply', unwound inner.length (Nat.le_refl _), List.drop_length]
    rfl
  · intro past closure args line answer rest s t value files reached runs
    exact ⟨_, reached.gives runs none, rfl⟩

/-- A call of a function without parameters that is about to be entered. -/
structure Entry where
  closure : Closure
  line : Nat
  rest : List Task
  state : State

namespace Entry

def waiting (entry : Entry) : List Task :=
  .finishCall entry.state.context entry.line .result :: entry.rest

def machine (entry : Entry) : Machine :=
  .enter entry.closure [] entry.line .result entry.rest entry.state

end Entry

/-- The call that the next step enters. -/
def Machine.entered? : Machine → Option Entry
  | ⟨.give (.value (.closure closure)), .firstArgument paren [] :: rest, s⟩ =>
    if closure.arity = 0 ∧ s.context.depth < maxDepth ∧ closure.isInitializer = false then
      some ⟨closure, paren.line, rest, s⟩
    else none
  | _ => none

theorem Machine.advance_entered {m : Machine} {entry : Entry} (enters : m.entered? = some entry)
    (files : String → Except Failure String) : m.advance files = entry.machine := by
  unfold entered? at enters
  split at enters
  · next closure paren rest s =>
      split at enters
      · next allowed =>
          obtain ⟨noParameters, shallow, ordinary⟩ := allowed
          obtain rfl := Option.some.inj enters
          have accepted : Machine.call (.closure closure) [] paren rest s =
              .invoke (.closure closure) [] paren rest s := by
            simp [call, Value.arity?, noParameters, Nat.not_le.mpr shallow]
          refine Eq.trans accepted ?_
          simp [invoke, ordinary, Entry.machine]
      · cases enters
  · cases enters

theorem Reached.entry {past : Past} {m : Machine} {entry : Entry} (reached : Reached past m)
    (enters : m.entered? = some entry) : ∃ past, Reached past entry.machine := by
  rw [← Machine.advance_entered enters fun _ => .error .missing]
  exact ⟨_, reached.advance _⟩

/-- The tasks above a height, if the machine gives `nil` to them. -/
def Machine.nilAbove? (height : Nat) : Machine → Option (List Task)
  | ⟨.give (.value .nil), tasks, _⟩ => some (tasks.take (tasks.length - height))
  | _ => none

/-- A machine that gives `nil` inside of a call. -/
theorem Entry.gives_nil {entry : Entry} {n : Machine} {above : List Task}
    (runs : Machine.RunsAbove entry.waiting entry.machine n)
    (gives : n.nilAbove? entry.waiting.length = some above) :
    n = ⟨.give (.value .nil), above ++ entry.waiting, n.state⟩ := by
  have entered : entry.machine.IsAbove entry.waiting entry.machine.state.context :=
    ⟨[.body entry.closure.decl.body], rfl, rfl⟩
  obtain ⟨others, tasks, _⟩ := runs.isAbove entered
  obtain ⟨control, _, s⟩ := n
  obtain rfl := tasks
  unfold Machine.nilAbove? at gives
  split at gives
  · next others' s' same =>
      obtain ⟨rfl, rfl, rfl⟩ := Machine.mk.inj same
      obtain rfl := Option.some.inj gives
      simp
  · cases gives

/-- Two functions, one of which ends without a `return` in the `return` of the other. -/
def nestedCalls : String :=
  "fun g() \x7b \x7d fun f() \x7b while (true) \x7b return g(); \x7d \x7d f();"

/--
Whether the inner call of the two answers `nil` after one step, and the outer one after twelve, in
a `return` with four tasks above those that wait for the call, none of which ends a call.
-/
def returnsThroughLoop : Bool :=
  match Program.compile 0 nestedCalls with
  | .ok program =>
    let start := (Session.fresh .unlimited .unlimited false).begin 0 program
    match (start.stepped 8).entered?, (start.stepped 18).entered? with
    | some outer, some inner =>
      match (inner.machine.stepped 1).nilAbove? inner.waiting.length,
        (outer.machine.stepped 12).nilAbove? outer.waiting.length with
      | some [], some (.ret :: above) =>
        decide (above.length = 4) && above.all (fun task => !task.endsCall) &&
          (List.range 1).all (fun n =>
            inner.waiting.length < (inner.machine.stepped n).tasks.length) &&
          (List.range 12).all fun n =>
            outer.waiting.length < (outer.machine.stepped n).tasks.length
      | _, _ => false
    | _, _ => false
  | .error _ => false

/--
The call of the inner function answers `nil`.  With this the outer one returns, through a block
and a loop, and the program that called it goes on.
-/
theorem return_ends_call_in_loop :
    ∃ (outer inner : Entry) (m : Machine) (s : State),
      Machine.RunsAbove inner.waiting inner.machine ⟨.give (.value .nil), inner.waiting, s⟩ ∧
      Machine.stepped 1 ⟨.give (.value .nil), inner.waiting, s⟩ =
        ⟨.give (.value .nil), inner.rest, s.setContext inner.state.context⟩ ∧
      Machine.RunsAbove outer.waiting outer.machine m ∧
      m.stepped 6 = ⟨.give (.value .nil), outer.rest, m.state.setContext outer.state.context⟩ ∧
      (m.stepped 1).control = .give (.returned .nil) ∧ (m.stepped 1).tasks ≠ [] := by
  have computed : returnsThroughLoop = true := by decide +kernel
  unfold returnsThroughLoop at computed
  split at computed
  · next program compiled =>
      dsimp only at computed
      split at computed
      · next outer inner outerNext innerNext =>
          split at computed
          · next above innerGives outerGives =>
              simp only [Bool.and_eq_true, decide_eq_true_eq, List.all_eq_true, List.mem_range]
                at computed
              obtain ⟨⟨⟨depth, innermost⟩, innerHigher⟩, outerHigher⟩ := computed
              have fresh : (Session.fresh .unlimited .unlimited false).Reachable := .fresh _ _ _
              obtain ⟨_, started, _⟩ := fresh.atRest.begin 0 compiled
              obtain ⟨_, atOuter⟩ := started.stepped 8
              obtain ⟨_, outerReached⟩ := atOuter.entry outerNext
              obtain ⟨_, atInner⟩ := started.stepped 18
              obtain ⟨_, innerReached⟩ := atInner.entry innerNext
              have innerRuns := Machine.runsAbove_stepped innerHigher
              have outerRuns := Machine.runsAbove_stepped outerHigher
              rw [Entry.gives_nil innerRuns innerGives] at innerRuns
              have returns : (outer.machine.stepped 12).Returns .nil (above ++ outer.waiting) := by
                rw [Entry.gives_nil outerRuns outerGives]
                exact .operand
              obtain ⟨result, gives, answered⟩ := return_ends_exactly_its_call.2.2 _ _ _ _ _ _ _ _ _
                (fun _ => .error .missing) innerReached innerRuns
              cases gives
              obtain ⟨unwound, result, gives, answered'⟩ := return_ends_exactly_its_call.2.1
                _ _ _ _ _ _ _ _ _ _ (fun _ => .error .missing) outerReached outerRuns returns
                fun task held => by simpa using innermost task held
              cases gives
              rw [depth] at answered'
              obtain ⟨_, later⟩ := outerReached.runsAbove outerRuns
              obtain ⟨_, returned⟩ := later.stepped 1
              have returning : ((outer.machine.stepped 12).stepped 1).control =
                  .give (.returned .nil) := congrArg Machine.control (unwound 0 (Nat.zero_le _))
              exact ⟨outer, inner, _, _, innerRuns, answered, outerRuns, answered', returning,
                (return_ends_exactly_its_call.1 _ _ _ returned returning).1.1⟩
          · cases computed
      · cases computed
  · cases computed

end Lox
