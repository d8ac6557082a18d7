import Lox.Proofs.Inclusion
import Lox.Proofs.Limit.Recursion
import Lox.Proofs.Limit.SelfInclusion

/-!
# The limit of nesting

Calls and inclusions may be nested twenty thousand levels deep, and not a level deeper.
-/

namespace Lox

/--
The nesting limit is exact.  The depth is the number of calls and inclusions that are active, at
most twenty thousand; the call of a class is one level together with its initializer.  A call that
is acceptable, or an inclusion whose file can be read and compiled, fails for its depth itself
exactly if that many levels are active, and then nothing else happens.  Counting down by recursion
succeeds exactly from the numbers below the limit, and a file that includes itself comes to it.
-/
theorem nesting_limit_is_exact :
    (∀ (past : Past) (m : Machine), Reached past m →
      m.state.context.depth = levels m.tasks ∧ levels m.tasks ≤ 20000 ∧
      (∀ a, m.activation? = some a → levels a.machine.tasks = levels m.tasks + 1) ∧
      (∀ (files : String → Except Failure String) (calling : Machine.Calling),
        m.calling? = some calling → calling.Acceptable →
        ((m.advance files).control = .give (.failAt calling.paren .stackOverflow) ↔
          levels m.tasks = 20000) ∧
        (levels m.tasks = 20000 → m.advance files =
          .giving (.failAt calling.paren .stackOverflow) calling.rest m.state)) ∧
      (∀ (files : String → Except Failure String) (path : Token) (place text : String)
          (program : Program), m.control = .awaitFile path place → files place = .ok text →
        Program.compile m.state.nextReference text = .ok program →
        ((m.advance files).control = .give (.failAt path .stackOverflow) ↔
          levels m.tasks = 20000) ∧
        (levels m.tasks = 20000 → ∃ t, m.advance files =
          .giving (.failAt path .stackOverflow) m.tasks t ∧ t.store = m.state.store ∧
            t.output = m.state.output ∧ t.context = m.state.context) ∧
        (levels m.tasks < 20000 → levels (m.advance files).tasks = levels m.tasks + 1))) ∧
    (∀ (session : Session) (n : Nat) (files : String → Except Failure String) (now : Float),
      session.Ready → ∃ bound, ∀ patience, bound ≤ patience →
        (session.run ⟨files, now, patience⟩ (countingDown ++ "\n" ++ callDown n)).1 =
          .finished (if n ≤ 19999 then [] else [.runtime 1 .stackOverflow])) ∧
    (∀ (session : Session) (files : String → Except Failure String) (text : String)
        (places : String → Prop) (place directory : String) (now : Float), session.Reachable →
      IncludesItself files text places → places place → Path.parent? place = some directory →
      ∃ line bound, ∀ patience, bound ≤ patience → ∃ after,
        session.runFile ⟨files, now, patience⟩ place =
          .ok (.finished [.runtime line .stackOverflow], after)) := by
  refine ⟨fun past m reached => ⟨reached.depth_eq, reached.levels_le,
    fun a begins => Machine.levels_activation begins,
    fun files calling calls acceptable => Machine.call_overflows_iff reached.leveled calls acceptable,
    fun files path place text program asks read compiled => ?_⟩, ?_, ?_⟩
  · obtain ⟨exactly, refused, entered⟩ :=
      Machine.inclusion_overflows_iff reached.leveled asks read compiled
    exact ⟨exactly, fun deep => ⟨_, refused deep, rfl, rfl, rfl⟩, entered⟩
  · intro session n files now ready
    obtain ⟨bound, ran⟩ := ready.run_countingDown n files now
    refine ⟨bound, fun patience enough => ?_⟩
    rw [ran patience enough]
    exact congrArg RunResult.finished (if_congr Nat.lt_succ_iff rfl rfl)
  · intro session files text places place directory now reachable itself isPlace inside
    exact reachable.run_itself itself isPlace inside now

/-! ## At the limit -/

/-- Whether the next step after some calls something that takes so many arguments. -/
def callsAfter (steps : Nat) (program : Program) : Bool :=
  match (((Session.fresh .unlimited .unlimited false).begin 0 program).advanced
      (fun _ => .error .missing) steps).calling? with
  | some calling => calling.callee.arity? == some (.fixed calling.args.length)
  | none => false

/-- Whether a program starts with an inclusion of a file. -/
def startsWithInclusion (place : String) (program : Program) : Bool :=
  match program.stmts with
  | .inclusion path :: _ => path.pathText == place
  | _ => false

/-- Whether a program asks for a file after some steps, on no level. -/
def asksAfter (steps : Nat) (place : String) (program : Program) : Bool :=
  let m := ((Session.fresh .unlimited .unlimited false).begin 0 program).advanced
    (fun _ => .error .missing) steps
  match m.control with
  | .awaitFile _ other => other == place && levels m.tasks == 0
  | _ => false

/-- A file whose only statement includes it includes itself. -/
theorem includesItself_f :
    IncludesItself (fun _ => .ok "include \"f\";") "include \"f\";" fun place => place = "f" := by
  obtain ⟨program, compiled, includes⟩ := exists_of_compilesTo
    (show compilesTo (startsWithInclusion "f") "include \"f\";" = true by decide +kernel)
  unfold startsWithInclusion at includes
  split at includes
  · next path after stmts =>
      refine .of_first_statement (fun _ _ => rfl) compiled stmts ?_
      rintro _ rfl
      rw [eq_of_beq includes]
      decide +kernel
  · cases includes

theorem nesting_limit_is_exact_at_the_limit :
    (∃ past m calling, Reached past m ∧ m.calling? = some calling ∧ calling.Acceptable ∧
      levels m.tasks ≤ 20000 ∧
      ((m.advance fun _ => .error .missing).control =
        .give (.failAt calling.paren .stackOverflow) ↔ levels m.tasks = 20000)) ∧
    (∃ past m path, Reached past m ∧ m.control = .awaitFile path "f" ∧
      levels (m.advance fun _ => .ok "include \"f\";").tasks = levels m.tasks + 1) ∧
    (∃ bound, ∀ patience, bound ≤ patience →
      ((Session.fresh .unlimited .unlimited false).run ⟨fun _ => .error .missing, 0, patience⟩
        (countingDown ++ "\n" ++ callDown 19999)).1 = .finished []) ∧
    (∃ bound, ∀ patience, bound ≤ patience →
      ((Session.fresh .unlimited .unlimited false).run ⟨fun _ => .error .missing, 0, patience⟩
        (countingDown ++ "\n" ++ callDown 20000)).1 = .finished [.runtime 1 .stackOverflow]) ∧
    ∃ line bound, ∀ patience, bound ≤ patience → ∃ after,
      (Session.fresh .unlimited .unlimited false).runFile
        ⟨fun _ => .ok "include \"f\";", 0, patience⟩ "f" =
          .ok (.finished [.runtime line .stackOverflow], after) := by
  have fresh : (Session.fresh .unlimited .unlimited false).Reachable := .fresh _ _ _
  refine ⟨?_, ?_, nesting_limit_is_exact.2.1 _ 19999 _ 0 fresh.ready,
    nesting_limit_is_exact.2.1 _ 20000 _ 0 fresh.ready,
    nesting_limit_is_exact.2.2 _ _ _ _ "f" "" 0 fresh includesItself_f rfl (by decide +kernel)⟩
  · obtain ⟨program, compiled, calls⟩ :=
      exists_of_compilesTo (show compilesTo (callsAfter 4) "clock();" = true by decide +kernel)
    obtain ⟨past, started, _⟩ := fresh.atRest.begin 0 compiled
    obtain ⟨past', reached⟩ := started.advanced (fun _ => .error .missing) 4
    unfold callsAfter at calls
    split at calls
    · next calling isCalling =>
        have acceptable : calling.Acceptable := ⟨_, eq_of_beq calls, by simp [Arity.accepts]⟩
        obtain ⟨_, within, _, exactly, _⟩ := nesting_limit_is_exact.1 past' _ reached
        exact ⟨past', _, calling, reached, isCalling, acceptable, within,
          (exactly _ calling isCalling acceptable).1⟩
    · cases calls
  · obtain ⟨program, compiled, asks⟩ := exists_of_compilesTo
      (show compilesTo (asksAfter 2 "f") "include \"f\";" = true by decide +kernel)
    obtain ⟨past, started, _⟩ := fresh.atRest.begin 0 compiled
    obtain ⟨past', reached⟩ := started.advanced (fun _ => .error .missing) 2
    unfold asksAfter at asks
    dsimp only at asks
    split at asks
    · next path place awaits =>
        obtain ⟨isPlace, none⟩ := Bool.and_eq_true_iff.mp asks
        rw [eq_of_beq isPlace] at awaits
        obtain ⟨file, compiledFile⟩ := includesItself_f.compile_ok (Machine.state _).nextReference
        have including := (nesting_limit_is_exact.1 past' _ reached).2.2.2.2
          (fun _ => .ok "include \"f\";") path "f" _ file awaits rfl compiledFile
        refine ⟨past', _, path, reached, awaits, including.2.2 ?_⟩
        rw [eq_of_beq none]
        decide
    · cases asks

end Lox
