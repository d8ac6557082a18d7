import Lox.Proofs.Context
import Lox.Proofs.Matching.Itself

/-!
# Sessions that run matching machines

What a session makes of a run depends on what its machine comes to, so sessions whose machines match
answer the same.  A machine may be some steps behind another one and come to the same all the same.
-/

namespace Lox

/-! ## More lines may stand for each other -/

section Widen

variable {σ σ' : Leeway} {w : Pairing}

theorem Leeway.Within.lines {line line' : Nat} (wider : σ.Within σ')
    (lines : σ.lines line line') : σ'.lines line line' := by
  obtain ⟨left, right, original, moves, same, same'⟩ := lines
  exact ⟨left, right, original, wider _ _ moves, same, same'⟩

theorem ErrorMatch.widen {error error' : Error} (related : ErrorMatch σ error error')
    (wider : σ.Within σ') : ErrorMatch σ' error error' := by
  cases related with
  | runtime lines fault => exact .runtime (wider.lines lines) fault
  | inclusion lines path causes => exact .inclusion (wider.lines lines) path causes

theorem OutcomeMatch.widen {outcome outcome' : Outcome}
    (related : OutcomeMatch σ w outcome outcome') (wider : σ.Within σ') :
    OutcomeMatch σ' w outcome outcome' := by
  cases related with
  | value related => exact .value (related.weaken wider (.refl w))
  | returned related => exact .returned (related.weaken wider (.refl w))
  | failed related => exact .failed (related.widen wider)

theorem ResultMatch.widen {result result' : Machine.Ending × State}
    (related : ResultMatch σ w result result') (wider : σ.Within σ') :
    ResultMatch σ' w result result' := by
  obtain ⟨ending, state⟩ := related
  refine ⟨?_, state.widen wider⟩
  revert ending
  generalize result.1 = ended
  generalize result'.1 = ended'
  intro ending
  cases ending with
  | outcome related => exact .outcome (related.widen wider)
  | exited code => exact .exited code
  | unfinished => exact .unfinished

end Widen

/-! ## What sessions make of runs -/

inductive RunResultMatch (σ : Leeway) : RunResult → RunResult → Prop where
  | finished {errors errors' : List Error} (each : List.Forall₂ (ErrorMatch σ) errors errors') :
      RunResultMatch σ (.finished errors) (.finished errors')
  | exited (code : UInt8) : RunResultMatch σ (.exited code) (.exited code)
  | unfinished : RunResultMatch σ .unfinished .unfinished

/-- Two sessions ran a text: errors, output and all that is reached from the globals match. -/
structure RanMatch (σ : Leeway) (w : Pairing) (ran ran' : RunResult × Session) : Prop where
  result : RunResultMatch σ ran.1 ran'.1
  state : CoreMatch σ w ran.2.state ran'.2.state

/-- Runs that differ in nothing but numbers have the same result. -/
theorem RunResultMatch.eq {result result' : RunResult} (related : RunResultMatch .plain result result') :
    result' = result := by
  cases related with
  | @finished errors errors' each =>
      congr 1
      induction each with
      | nil => rfl
      | cons first _ ih => rw [first.eq, ih]
  | exited code => rfl
  | unfinished => rfl

namespace Session

/-- A session that may run a text next: it is between runs, in whatever directory. -/
def Ready (session : Session) : Prop :=
  ∃ (before : Session) (base : String), before.Reachable ∧ session = before.setBase base

theorem Reachable.ready {session : Session} (reachable : session.Reachable) : session.Ready :=
  ⟨session, session.state.context.base, reachable, rfl⟩

/-- A script is run by a session that may run a text, in the directory of the script. -/
theorem Reachable.ready_setBaseOf {session : Session} (reachable : session.Reachable)
    (path : String) : (session.setBaseOf path).Ready := by
  unfold setBaseOf
  split
  · exact ⟨session, _, reachable, rfl⟩
  · exact reachable.ready

theorem Ready.at_globals {session : Session} (ready : session.Ready) :
    session.state.context.env = State.globals ∧ session.state.context.depth = 0 := by
  obtain ⟨before, base, reachable, rfl⟩ := ready
  exact reachable.at_globals

/-- What a session holds when it starts to run a text matches itself. -/
theorem Ready.matches_itself {session : Session} (ready : session.Ready) (now : Float) :
    ∃ w, StateMatch .plain w (session.setClock now).state (session.setClock now).state := by
  have top := ready.at_globals
  obtain ⟨before, base, reachable, rfl⟩ := ready
  obtain ⟨w, cores⟩ := reachable.matches_itself
  exact ⟨w, .atGlobals ⟨cores.store, cores.references, cores.unused, cores.unused', rfl, rfl⟩
    top.1 top.1 rfl rfl⟩

theorem conclude_matches {σ : Leeway} {w : Pairing} {result result' : Machine.Ending × State}
    (related : ResultMatch σ w result result') (journal journal' : Journal) :
    RanMatch σ w (conclude journal result.1 result.2) (conclude journal' result'.1 result'.2) := by
  obtain ⟨ending, state⟩ := related
  obtain ⟨ending₁, s⟩ := result
  obtain ⟨ending₂, s'⟩ := result'
  cases ending with
  | outcome related =>
      cases related with
      | value related => exact ⟨.finished .nil, state⟩
      | returned related => exact ⟨.finished .nil, state⟩
      | failed related => exact ⟨.finished (.cons related .nil), state⟩
  | exited code => exact ⟨.exited code, state⟩
  | unfinished => exact ⟨.unfinished, state⟩

/-- Run a program that was compiled before. -/
def runProgram (host : Host) (program : Program) (session : Session) : RunResult × Session :=
  let result := (session.begin host.now program).run host.files host.patience
  conclude (session.journal.dump program.stmts) result.1 result.2

/-- A text that is accepted is run as its program. -/
theorem run_accepted {session : Session} {source : String} {program : Program}
    (compiled : Program.compile session.state.nextReference source = .ok program) (host : Host) :
    session.run host source = session.runProgram host program := by
  obtain ⟨state, journal⟩ := session
  have compiled : Program.compile state.nextReference source = .ok program := compiled
  rw [run_eq_start]
  simp only [runProgram, start, setClock, begin, compiled]

/-- Programs whose machines come to the same are run with the same result. -/
theorem runProgram_matches {σ : Leeway} {w : Pairing} {session session' : Session}
    {host host' : Host} {program program' : Program}
    (related : ResultMatch σ w
      ((session.begin host.now program).advanced host.files host.patience).result
      ((session'.begin host'.now program').advanced host'.files host'.patience).result) :
    RanMatch σ w (session.runProgram host program) (session'.runProgram host' program') := by
  unfold runProgram
  rw [Machine.run_eq_advanced, Machine.run_eq_advanced]
  exact conclude_matches related _ _

end Session

/-! ## Machines that lag behind -/

/-- Whatever the second machine comes to the first one comes to as well, some steps later at most. -/
def KeepsUp (files : String → Except Failure String) (lag : Nat) (m m' : Machine) : Prop :=
  ∀ n, ∃ k, n ≤ k ∧ k ≤ n + lag ∧
    ∃ w, ResultMatch .plain w (m.advanced files k).result (m'.advanced files n).result

namespace KeepsUp

variable {files : String → Except Failure String} {lag : Nat} {m m' : Machine}

theorem mono {more : Nat} (keepsUp : KeepsUp files lag m m') (atMost : lag ≤ more) :
    KeepsUp files more m m' := by
  intro n
  obtain ⟨k, least, most, related⟩ := keepsUp n
  exact ⟨k, least, by omega, related⟩

/-- A machine that has some more steps to take is behind by as many. -/
theorem of_advanced (more : Nat) (keepsUp : KeepsUp files lag (m.advanced files more) m') :
    KeepsUp files (lag + more) m m' := by
  intro n
  obtain ⟨k, least, most, related⟩ := keepsUp n
  rw [← Machine.advanced_add] at related
  exact ⟨more + k, by omega, by omega, related⟩

end KeepsUp

/-- Machines that share statements keep up, if they do so once these are done or one has failed. -/
theorem Phase.Runs.keepsUp {σ : Leeway} {P : Phase σ} {w : Pairing} {m m' : Machine}
    {files : String → Except Failure String} {lag : Nat} (runs : P.Runs w m m')
    (narrow : σ.Within .plain)
    (agree : ∀ n w', P.Runs w' (m.advanced files n) (m'.advanced files n) →
      Agree σ files (m.advanced files n) (m'.advanced files n))
    (calm : ∀ n, ¬ (m.advanced files n).Overflows)
    (whenDone : ∀ n w', StateGrows w m.state m'.state w' (m.advanced files n).state
        (m'.advanced files n).state → P.Done w' (m.advanced files n) (m'.advanced files n) →
      KeepsUp files lag (m.advanced files n) (m'.advanced files n))
    (whenFailed : ∀ n w', P.Failed w' (m.advanced files n) (m'.advanced files n) →
      KeepsUp files lag (m.advanced files n) (m'.advanced files n)) :
    KeepsUp files lag m m' := by
  intro n
  have later : ∀ {k}, k ≤ n → KeepsUp files lag (m.advanced files k) (m'.advanced files k) →
      ∃ l, n ≤ l ∧ l ≤ n + lag ∧
        ∃ w, ResultMatch .plain w (m.advanced files l).result (m'.advanced files n).result := by
    intro k early keepsUp
    obtain ⟨more, rfl⟩ := Nat.exists_eq_add_of_le early
    obtain ⟨l, least, most, related⟩ := keepsUp more
    rw [← Machine.advanced_add, ← Machine.advanced_add] at related
    exact ⟨k + l, by omega, by omega, related⟩
  rcases runs.advanced agree n with lasts | ⟨k, early, isOver⟩
  · obtain ⟨w', _, still⟩ := lasts n (Nat.le_refl n)
    exact ⟨n, Nat.le_refl n, Nat.le_add_right n lag, w', still.result.widen narrow⟩
  · cases isOver with
    | @done w' grows done => exact later early (whenDone k w' grows done)
    | @failed w' _ failed => exact later early (whenFailed k w' failed)
    | overflows _ overflows => exact absurd overflows (calm k)

/-- Programs that end with the same statements keep up with each other. -/
theorem Phase.Runs.keepsUp_final {t : Twin .plain} {context context' : Context} {w : Pairing}
    {m m' : Machine} (runs : (Phase.final t context context').Runs w m m')
    (files : String → Except Failure String) : KeepsUp files 0 m m' := by
  intro n
  obtain ⟨w', _, results⟩ := runs.final_result rfl rfl files n
  exact ⟨n, Nat.le_refl n, Nat.le_refl n, w', results⟩

theorem Phase.Failed.keepsUp {P : Phase .plain} {w : Pairing} {m m' : Machine}
    (failed : P.Failed w m m') (bottom : P.below = []) (bottom' : P.below' = [])
    (files : String → Except Failure String) : KeepsUp files 0 m m' := by
  intro n
  obtain ⟨_, results⟩ := failed.final_result bottom bottom' files n
  exact ⟨n, Nat.le_refl n, Nat.le_refl n, w, results⟩

end Lox
