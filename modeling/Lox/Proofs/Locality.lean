import Lox.Proofs.Activations
import Lox.Proofs.Locality.Reach
import Lox.Proofs.Matching.Itself

/-!
# What a run can change

An expression or a statement changes what is reached from the current environment and from the
globals, and nothing else; a call changes what is reached from its closure, its arguments and the
globals.  Every scope that is entered has a frame of its own.
-/

namespace Lox

namespace Machine

variable {σ : Leeway} {w : Pairing} {waiting : List Task} {m n : Machine}

/-- Whatever runs above some tasks goes on to match itself. -/
theorem RunsAbove.matches_itself (runs : RunsAbove waiting m n)
    (related : MachineMatch .plain w waiting waiting m m) :
    ∃ w', StoreGrows w m.state.store m.state.store w' n.state.store n.state.store ∧
      MachineMatch .plain w' waiting waiting n n := by
  induction runs with
  | start => exact ⟨w, .refl, related⟩
  | advance files _ unfinished ih =>
      obtain ⟨w', grows, related⟩ := ih
      rcases related.advance unfinished (related.agree rfl files) with ⟨w'', later, next⟩ | ⟨deep, _⟩
      · exact ⟨w'', grows.trans later.stores, next⟩
      · exact absurd deep (Nat.lt_irrefl 0)
  | pass now output _ ih =>
      obtain ⟨w', grows, related⟩ := ih
      exact ⟨w', grows, related.pass now output⟩

/-- Above some tasks only what is reached from the current environment may change. -/
theorem RunsAbove.kept {cells : Cell → Prop} (runs : RunsAbove waiting m n)
    (related : MachineMatch .plain (w.within cells) waiting waiting m m) :
    Store.Kept (fun frame => cells (.frame frame)) (fun object => cells (.object object))
      m.state.store n.state.store := by
  obtain ⟨w', grows, _⟩ := runs.matches_itself related
  refine ⟨grows.left.frameCount, grows.left.objectCount, fun frame made outside => ?_,
    fun object made outside => ?_⟩
  · exact grows.left.bindings frame made fun ⟨_, _, inside⟩ => outside inside
  · exact grows.left.fields object made fun ⟨_, _, inside⟩ => outside inside

/-- A run above some tasks is above one more, or it has given that one an outcome before. -/
theorem RunsAbove.above_or_through {task : Task} (runs : RunsAbove waiting m n) :
    RunsAbove (task :: waiting) m n ∨
      ∃ k files, RunsAbove (task :: waiting) m k ∧ k.Gives (task :: waiting) ∧
        RunsAbove waiting (k.advance files) n := by
  induction runs with
  | start => exact .inl .start
  | @advance n files _ unfinished ih =>
      rcases ih with above | ⟨k, files', first, gives, rest⟩
      · by_cases gives : n.Gives (task :: waiting)
        · exact .inr ⟨n, files, above, gives, .start⟩
        · exact .inl (.advance files above gives)
      · exact .inr ⟨k, files', first, gives, .advance files rest unfinished⟩
  | pass now output _ ih =>
      rcases ih with above | ⟨k, files', first, gives, rest⟩
      · exact .inl (.pass now output above)
      · exact .inr ⟨k, files', first, gives, .pass now output rest⟩

/-- Once it has given its outcome a run changes nothing in the store. -/
theorem RunsAbove.store_of_gives (runs : RunsAbove waiting m n) (gives : m.Gives waiting) :
    n.Gives waiting ∧ n.state.store = m.state.store := by
  induction runs with
  | start => exact ⟨gives, rfl⟩
  | advance files _ unfinished ih => exact absurd ih.1 unfinished
  | pass now output _ ih => exact ih

/-- The end of a call changes the context alone. -/
theorem Gives.finishCall {saved : Context} {line : Nat} {answer : Answer}
    (gives : m.Gives (.finishCall saved line answer :: waiting))
    (files : String → Except Failure String) :
    (m.advance files).Gives waiting ∧ (m.advance files).state.store = m.state.store := by
  obtain ⟨control, tasks, s⟩ := m
  obtain ⟨outcome, rfl, rfl⟩ := gives
  cases outcome <;> exact ⟨⟨_, rfl, rfl⟩, rfl⟩

end Machine

/-! ## Phrases -/

section Phrases

variable {σ : Leeway} {w : Pairing} {cells : Cell → Prop} {below below' tasks tasks' : List Task}
  {s s' : State}

/-- An expression that is evaluated does not depend on what is below it. -/
theorem MachineMatch.expr_within {expr expr' : Expr}
    (related : MachineMatch σ w below below' ⟨.eval expr, tasks, s⟩ ⟨.eval expr', tasks', s'⟩)
    (states : StateMatch σ (w.within cells) s s') :
    MachineMatch σ (w.within cells) tasks tasks' ⟨.eval expr, tasks, s⟩
      ⟨.eval expr', tasks', s'⟩ := by
  obtain ⟨doing, _, _⟩ := related
  cases doing with
  | eval t expr covers => exact .intro (.eval t expr covers) .bottom states

theorem MachineMatch.stmt_within {stmt stmt' : Stmt}
    (related : MachineMatch σ w below below' ⟨.exec stmt, tasks, s⟩ ⟨.exec stmt', tasks', s'⟩)
    (states : StateMatch σ (w.within cells) s s') :
    MachineMatch σ (w.within cells) tasks tasks' ⟨.exec stmt, tasks, s⟩
      ⟨.exec stmt', tasks', s'⟩ := by
  obtain ⟨doing, _, _⟩ := related
  cases doing with
  | exec t stmt covers => exact .intro (.exec t stmt covers) .bottom states

/-- A body that was entered does not depend on what is below it, the end of its call included. -/
theorem MachineMatch.body_within {stmts stmts' : List Stmt}
    (related : MachineMatch σ w [] [] ⟨.give .nil, .body stmts :: tasks, s⟩
      ⟨.give .nil, .body stmts' :: tasks', s'⟩)
    (states : StateMatch σ (w.within cells) s s') :
    MachineMatch σ (w.within cells) tasks tasks' ⟨.give .nil, .body stmts :: tasks, s⟩
      ⟨.give .nil, .body stmts' :: tasks', s'⟩ := by
  obtain ⟨_, left, _⟩ := related
  cases left with
  | task first _ =>
      cases first with
      | body t stmts covers =>
          exact .intro (.give .nil) (.task (.body t stmts covers) .bottom) states

end Phrases

section Kept

variable {past : Past} {waiting : List Task} {s : State} {n : Machine}

/-- What an environment and the globals reach in a store. -/
def Store.Seen (store : Store) (env : Env) : Cell → Prop := store.Reaches env.Roots

theorem StateMatch.seen {w : Pairing} (states : StateMatch .plain w s s) :
    StateMatch .plain (w.within (s.store.Seen s.context.env)) s s :=
  states.within (Store.closed_reaches (.inr rfl)) fun _ held => .root (.inl held)

theorem Reached.kept_by_expr {expr : Expr} (reached : Reached past ⟨.eval expr, waiting, s⟩)
    (runs : Machine.RunsAbove waiting ⟨.eval expr, waiting, s⟩ n) :
    s.store.Keeps (s.store.Seen s.context.env) n.state.store := by
  obtain ⟨w, related⟩ := reached.matches_itself
  have states := related.states.seen
  exact runs.kept (related.expr_within states)

theorem Reached.kept_by_stmt {stmt : Stmt} (reached : Reached past ⟨.exec stmt, waiting, s⟩)
    (runs : Machine.RunsAbove waiting ⟨.exec stmt, waiting, s⟩ n) :
    s.store.Keeps (s.store.Seen s.context.env) n.state.store := by
  obtain ⟨w, related⟩ := reached.matches_itself
  have states := related.states.seen
  exact runs.kept (related.stmt_within states)

end Kept

/-! ## Calls -/

namespace Activation

/-- What a call refers to: what its closure captured, its arguments, and the globals. -/
def Roots (a : Activation) (cell : Cell) : Prop :=
  a.closure.env.Roots cell ∨ ∃ arg ∈ a.args, arg.RefersTo cell

/-- What the body sees at first is its own frame and what the call refers to. -/
theorem seen_machine (a : Activation) {cell : Cell}
    (seen : a.machine.state.store.Seen a.machine.state.context.env cell) :
    cell = .frame a.frame ∨ a.state.store.Reaches a.Roots cell := by
  rw [a.store_machine, a.env_machine] at seen
  induction seen with
  | @root cell isRoot =>
      cases cell with
      | object object => exact isRoot.elim
      | frame frame =>
          rcases isRoot with held | globals
          · rcases List.mem_cons.mp held with rfl | outer
            · exact .inl rfl
            · exact .inr (.root (.inl (.inl outer)))
          · exact .inr (.root (.inl (.inr globals)))
  | @binding frame name value cell _ bound refers ih =>
      unfold Store.valueIn? at bound
      by_cases own : frame = a.frame
      · rw [own, Activation.frame, Store.bindings_newFrame_size] at bound
        exact .inr (.root (.inr ⟨value, (mem_of_bindParameters bound).2, refers⟩))
      · rw [Store.bindings_newFrame_of_ne _ _ own] at bound
        rcases ih with isOwn | before
        · exact absurd (Cell.frame.inj isOwn) own
        · exact .inr (.binding before bound refers)
  | @field object name value cell _ held refers ih =>
      rcases ih with isOwn | before
      · cases isOwn
      · exact .inr (.field before held refers)

/-- The body, and then the end of the call, change nothing but what the call refers to. -/
theorem kept {past : Past} {a : Activation} {n : Machine} (reached : Reached past a.machine)
    (runs : Machine.RunsAbove a.rest a.machine n) :
    a.state.store.Keeps (a.state.store.Reaches a.Roots) n.state.store := by
  -- The body runs above the end of the call, which runs above what waits for the call.
  have byBody : ∀ {k : Machine}, Machine.RunsAbove a.waiting a.machine k →
      a.state.store.Keeps (a.state.store.Reaches a.Roots) k.state.store := by
    intro k runs
    obtain ⟨w, related⟩ := reached.matches_itself
    have states := related.states.seen
    have again : MachineMatch .plain (w.within (a.machine.state.store.Seen
        a.machine.state.context.env)) a.waiting a.waiting a.machine a.machine := by
      rw [a.machine_eq] at related states ⊢
      exact related.body_within states
    have first : a.state.store.Keeps (a.state.store.Reaches a.Roots) a.machine.state.store := by
      rw [a.store_machine]
      exact Store.kept_newFrame _
    refine Store.Kept.trans first (runs.kept again) (fun frame made seen => ?_)
      fun object _ seen => ?_
    · rcases a.seen_machine seen with own | reaches
      · rw [Cell.frame.inj own] at made
        exact absurd made (Nat.lt_irrefl _)
      · exact reaches
    · rcases a.seen_machine seen with own | reaches
      · cases own
      · exact reaches
  rcases runs.above_or_through with above | ⟨k, files, first, gives, rest⟩
  · exact byBody above
  · obtain ⟨ended, same⟩ := gives.finishCall files
    rw [(rest.store_of_gives ended).2, same]
    exact byBody first

end Activation

/-! ## Frames of their own -/

namespace Machine

/-- The frame of the scope that the next step enters: of a block, or of the body of a function. -/
def enters? (m : Machine) : Option Nat :=
  match m.control with
  | .exec (.block _) => some m.state.store.frames.size
  | _ => m.activation?.map Activation.frame

/-- A scope is entered in a frame that was not made before. -/
theorem frame_of_enters {m : Machine} {frame : Nat} (enters : m.enters? = some frame)
    (files : String → Except Failure String) :
    m.state.store.frames.size ≤ frame ∧ frame < (m.advance files).state.store.frames.size ∧
      (m.advance files).state.context.env.frame = frame := by
  unfold enters? at enters
  split at enters
  · next body isBlock =>
      obtain ⟨control, tasks, s⟩ := m
      obtain rfl := isBlock
      cases enters
      refine ⟨Nat.le_refl _, ?_, ?_⟩
      · show s.store.frames.size < (s.extend s.context.env []).2.store.frames.size
        rw [State.extend_eq]
        exact (Store.frames_newFrame _ _).symm ▸ Nat.lt_succ_self _
      · show (s.extend s.context.env []).1.frame = _
        rw [State.extend_eq]
        rfl
  · obtain ⟨a, begins, rfl⟩ := Option.map_eq_some_iff.mp enters
    rw [advance_activation begins]
    refine ⟨frames_activation begins, ?_, ?_⟩
    · rw [a.store_machine, Store.frames_newFrame]
      exact Nat.lt_succ_self _
    · rw [a.env_machine]
      rfl

end Machine

/-- Nothing refers to a frame before it is made. -/
theorem Reached.lt_of_sees {past : Past} {m : Machine} (reached : Reached past m) {env : Env}
    (seen : m.Sees env) : ∀ frame ∈ env.chain, frame < m.state.store.frames.size := by
  obtain ⟨w, _, _, related⟩ := reached.related fun _ => Past.first_ne_unused
  obtain ⟨sites, opens⟩ := related.opens seen
  obtain @⟨_, _, _, _, _, _, _, _, _, _, _, states⟩ := related
  rw [states.store.made]
  exact opens.lt states.store.globals

theorem Machine.enters_activation {m : Machine} {a : Activation} (begins : m.activation? = some a) :
    m.enters? = some a.frame := by
  obtain ⟨control, tasks, s⟩ := m
  unfold enters?
  split
  · next isBlock =>
      obtain rfl := isBlock
      cases begins
  · rw [begins]
    rfl

/-- To begin an activation an instance may be made, and bound, and nothing else changes. -/
theorem Machine.keeps_activation {m : Machine} {a : Activation} (begins : m.activation? = some a) :
    m.state.store.Keeps (fun _ => False) a.state.store := by
  cases Machine.activates_of_activation begins with
  | closure => exact .refl
  | init =>
      have made : m.state.store.Keeps (fun _ => False) m.state.store.newObject.2 :=
        Store.kept_newObject
      exact .trans (.trans made (Store.kept_newFrame _) (fun _ _ => id) fun _ _ => id)
        Store.kept_newIdentity (fun _ _ => id) fun _ _ => id

open Machine in
/--
What is not reached is not changed.  While an expression or a statement is evaluated, and when it
has ended or failed, only frames and objects that the environment or the globals reached at its
start have changed, or that were made since.  Every block and every body of a function is entered
in a frame to which nothing has referred before, and which no later one gets.  The frame of a
call binds its parameters, and during the call only what its closure, its arguments and the
globals reach may change.
-/
theorem changes_are_local :
    (∀ (past : Past) (expr : Expr) (waiting : List Task) (s : State) (n : Machine),
      Reached past ⟨.eval expr, waiting, s⟩ → RunsAbove waiting ⟨.eval expr, waiting, s⟩ n →
        s.store.Keeps (s.store.Reaches s.context.env.Roots) n.state.store) ∧
    (∀ (past : Past) (stmt : Stmt) (waiting : List Task) (s : State) (n : Machine),
      Reached past ⟨.exec stmt, waiting, s⟩ → RunsAbove waiting ⟨.exec stmt, waiting, s⟩ n →
        s.store.Keeps (s.store.Reaches s.context.env.Roots) n.state.store) ∧
    (∀ (past : Past) (m : Machine) (frame : Nat) (files : String → Except Failure String),
      Reached past m → m.enters? = some frame →
        (m.advance files).state.context.env.frame = frame ∧
        (∀ env, m.Sees env → frame ∉ env.chain) ∧
        ∀ (past' : Past) (n : Machine) (other : Nat),
          Sequel (past.after files m) (m.advance files) past' n → n.enters? = some other →
            other ≠ frame) ∧
    (∀ (past : Past) (m : Machine) (a : Activation), Reached past m → m.activation? = some a →
      (∀ files, m.advance files = a.machine) ∧ m.enters? = some a.frame ∧
      a.machine.state.store.bindings a.frame = bindParameters a.closure.decl.params a.args ∧
      m.state.store.Keeps (fun _ => False) a.state.store ∧
      ∀ n, RunsAbove a.rest a.machine n →
        a.state.store.Keeps (a.state.store.Reaches a.Roots) n.state.store) := by
  refine ⟨fun past expr waiting s n reached runs => reached.kept_by_expr runs,
    fun past stmt waiting s n reached runs => reached.kept_by_stmt runs, ?_, ?_⟩
  · intro past m frame files reached enters
    obtain ⟨new, made, here⟩ := frame_of_enters enters files
    refine ⟨here, fun env seen held => ?_, fun past' n other sequel later => ?_⟩
    · exact Nat.not_lt.mpr new (reached.lt_of_sees seen frame held)
    · have grown := sequel.frames_le (reached.advance files)
      have newer := (frame_of_enters later files).1
      omega
  · intro past m a reached begins
    refine ⟨advance_activation begins, enters_activation begins, ?_, keeps_activation begins,
      fun n runs => Activation.kept (Sequel.of_activation begins |>.reached reached) runs⟩
    rw [a.store_machine]
    exact Store.bindings_newFrame_size _ _

/-! ## A block that is left -/

/-- Whether a value refers to nothing but the globals. -/
def Value.isGlobal : Value → Bool
  | .closure f => decide (f.env = State.globals)
  | .cls _ => false
  | .inst _ => false
  | _ => true

/-- Globals that refer to nothing else reach nothing else. -/
theorem Store.reaches_globals {store : Store} {roots : Cell → Prop}
    (only : ∀ cell, roots cell → cell = .frame 0)
    (plain : (store.bindings 0).all (fun entry => entry.2.isGlobal) = true) {cell : Cell}
    (reaches : store.Reaches roots cell) : cell = .frame 0 := by
  induction reaches with
  | root isRoot => exact only _ isRoot
  | @binding frame name value cell _ bound refers ih =>
      obtain rfl := Cell.frame.inj ih
      have isGlobal := List.all_eq_true.mp plain _ (Bindings.mem_of_find? bound)
      cases refers with
      | captured captures inside =>
          cases captures with
          | closure f =>
              rw [of_decide_eq_true (p := f.env = State.globals) isGlobal] at inside
              exact congrArg _ (List.mem_singleton.mp inside)
          | cls => cases isGlobal
          | inst => cases isGlobal
      | object isInstance =>
          subst isInstance
          cases isGlobal
  | field _ _ _ ih => cases ih

/-- A block that has been left, and then a call. -/
def leftBlock : String := "\x7b var a = 1; \x7d fun f(x) \x7b return x; \x7d f(2);"

/--
Whether a call is evaluated at the globals, with the frame of the block made and nothing but
functions and natives global, and whether it is entered four steps later.
-/
def callsAfterBlock : Bool :=
  match Program.compile 0 leftBlock with
  | .ok program =>
    let start := (Session.fresh .unlimited .unlimited false).begin 0 program
    match start.stepped 11, start.stepped 12, (start.stepped 16).activation? with
    | ⟨.exec _, [_], s⟩, ⟨.eval _, [_], t⟩, some a =>
      [s, t].all (fun state => decide (state.context.env = State.globals) &&
        decide (state.store.frames.size = 2) &&
        (state.store.bindings 0).all fun entry => entry.2.isGlobal) &&
        decide (a.frame = 2) && decide (a.rest.length = 1) &&
        (List.range 12).all (fun n => ((start.stepped 11).stepped n).isBusyAbove 1) &&
        (List.range 11).all (fun n => ((start.stepped 12).stepped n).isBusyAbove 1) &&
        (List.range 6).all (fun n => (a.machine.stepped n).isBusyAbove 1)
    | _, _, _ => false
  | .error _ => false

/-- At the globals, of which none refers to anything else, no other frame is reached. -/
theorem not_reaches_of_plain {s : State} (env : s.context.env = State.globals)
    (plain : (s.store.bindings 0).all (fun entry => entry.2.isGlobal) = true) :
    ¬ s.store.Reaches s.context.env.Roots (.frame 1) := by
  intro reaches
  have only : ∀ cell, s.context.env.Roots cell → cell = .frame 0 := by
    intro cell isRoot
    rw [env] at isRoot
    cases cell with
    | object object => exact isRoot.elim
    | frame frame =>
        rcases isRoot with held | globals
        · exact congrArg _ (List.mem_singleton.mp held)
        · exact congrArg _ globals
  cases Store.reaches_globals only plain reaches

/-- The frame of a block that has been left keeps its variable while a function is called. -/
theorem left_block_is_kept :
    ∃ (past past' past'' : Past) (stmt : Stmt) (expr : Expr) (waiting waiting' : List Task)
      (s t : State) (m : Machine) (a : Activation),
      Reached past ⟨.exec stmt, waiting, s⟩ ∧ ¬ s.store.Reaches s.context.env.Roots (.frame 1) ∧
      (Machine.stepped 12 ⟨.exec stmt, waiting, s⟩).state.store.bindings 1 =
        s.store.bindings 1 ∧
      Reached past' ⟨.eval expr, waiting', t⟩ ∧
      (Machine.stepped 11 ⟨.eval expr, waiting', t⟩).state.store.bindings 1 =
        t.store.bindings 1 ∧
      Reached past'' m ∧ m.activation? = some a ∧ a.machine.state.context.env.frame = 2 ∧
      a.state.store.frames.size ≤ (a.machine.stepped 6).state.store.frames.size := by
  have computed : callsAfterBlock = true := by decide +kernel
  unfold callsAfterBlock at computed
  split at computed
  · next program compiled =>
      dsimp only at computed
      split at computed
      · next stmt task s expr task' t a isExec isEval begins =>
          simp only [Bool.and_eq_true, decide_eq_true_eq, List.all_eq_true, List.mem_range,
            List.forall_mem_cons] at computed
          obtain ⟨⟨⟨⟨⟨⟨⟨⟨env, two⟩, plain⟩, ⟨⟨env', two'⟩, plain'⟩, _⟩, frame⟩, rest⟩, busy⟩,
            busy'⟩, busy''⟩ := computed
          have fresh : (Session.fresh .unlimited .unlimited false).Reachable := .fresh _ _ _
          obtain ⟨_, started, _⟩ := fresh.atRest.begin 0 compiled
          obtain ⟨past, before⟩ := Sequel.of_stepped 11
          obtain ⟨past', later⟩ := Sequel.of_stepped 12
          obtain ⟨past'', latest⟩ := Sequel.of_stepped 16
          have executing := before.reached started
          have evaluating := later.reached started
          have calling := latest.reached started
          rw [isExec] at executing busy
          rw [isEval] at evaluating busy'
          have apart := not_reaches_of_plain env (List.all_eq_true.mpr plain)
          have apart' := not_reaches_of_plain env' (List.all_eq_true.mpr plain')
          have kept := changes_are_local.2.1 past stmt [task] s _ executing
            (Machine.runsAbove_advanced busy)
          have kept' := changes_are_local.1 past' expr [task'] t _ evaluating
            (Machine.runsAbove_advanced busy')
          obtain ⟨advances, enters, _, _, during⟩ :=
            changes_are_local.2.2.2 past'' _ a calling begins
          obtain ⟨here, _⟩ := changes_are_local.2.2.1 past'' _ a.frame (fun _ => .error .missing)
            calling enters
          rw [← rest] at busy''
          exact ⟨past, past', past'', stmt, expr, [task], [task'], s, t, _, a, executing, apart,
            kept.bindings 1 (by rw [two]; exact Nat.one_lt_two) apart, evaluating,
            kept'.bindings 1 (by rw [two']; exact Nat.one_lt_two) apart', calling, begins,
            by rw [← advances fun _ => .error .missing, here, frame],
            (during _ (Machine.runsAbove_advanced busy'')).frameCount⟩
      · cases computed
  · cases computed

end Lox
