import Lox.Proofs.Faults
import Lox.Proofs.Matching.Sessions

/-!
# Running in pieces

A session that runs a text to its end and then another one does what it does if it runs both as one
text, the second below the first.  As one text they are loaded together, so the references of the
second are numbered and looked up before the first has run, and its tokens are on other lines; all
else is the same.  Empty lines above the second text put its tokens on those lines, and then nothing
else is left to tell the two apart.
-/

namespace Lox

open Token (endsInComment newlines lowered)

/-- What a text that stands below so many lines may differ in from itself alone. -/
def Leeway.lowered (lines : Nat) : Leeway where
  moves left right := left = id ∧ (right = id ∨ right = (Move.under lines 0).line)
  same := ⟨rfl, .inl rfl⟩
  zero := by
    rintro left right ⟨rfl, rfl | rfl⟩ line
    · exact Iff.rfl
    · by_cases none : line = 0
      · simp [Move.under, none]
      · simp [Move.under, none]
  bases := Eq
  deeper := 0

theorem Leeway.plain_within_lowered (lines : Nat) : plain.Within (lowered lines) :=
  fun _ _ stay => ⟨stay.1, .inl stay.2⟩

/-- States that match without leeway match below any number of lines. -/
theorem StateMatch.belowLines {w : Pairing} {s s' : State} (states : StateMatch .plain w s s')
    (lines : Nat) : StateMatch (.lowered lines) w s s' :=
  ⟨states.core.widen (Leeway.plain_within_lowered lines), states.context.env, states.context.base,
    states.context.depth⟩

/-! ## Texts that were run without errors -/

/-- A text that was run without errors has been accepted, and its machine has ended well. -/
theorem Session.run_without_errors {session after : Session} {host : Host} {source : String}
    (ran : session.run host source = (.finished [], after)) :
    ∃ program outcome, Program.compile session.state.nextReference source = .ok program ∧
      (session.begin host.now program).advanced host.files host.patience =
        ⟨.give outcome, [], after.state⟩ ∧ ∀ error, outcome ≠ .failed error := by
  rcases run_finished ran with ⟨rejected, _⟩ | ⟨program, outcome, compiled, ended, final⟩
  · exact absurd rfl (Program.compile_static rejected).1
  · have concluded := (run_accepted compiled host).symm.trans ran
    unfold runProgram at concluded
    dsimp only at concluded
    rw [ended] at concluded
    rw [Machine.run_eq_advanced] at ended final
    refine ⟨program, outcome, compiled, ?_, ?_⟩
    · generalize (session.begin host.now program).advanced host.files host.patience = m at *
      cases ending : m.ending? with
      | none =>
          rw [ending] at ended
          cases ended
      | some reached =>
          rw [ending] at ended
          obtain rfl : reached = .outcome outcome := ended
          rw [← final]
          exact Machine.ending?_eq_outcome.mp ending
    · rintro error rfl
      cases concluded

/-! ## The first text, with and without the second one below it -/

section Pieces

variable {σ : Leeway} {w : Pairing} {s t t' : State}

/-- The statements of a text, with nothing or with another text after them. -/
def Phase.upper (σ : Leeway) (number : Nat) (next : List Stmt) (context : Context) : Phase σ :=
  ⟨.renumber σ number number, [], next, [], [], context, context⟩

/-- A text by itself, and below others, with other numbers and on other lines. -/
def Twin.lowering (lines number offset : Nat) : Twin (.lowered lines) :=
  ⟨.renumber number, .under lines offset, rfl, .inr rfl⟩

/-- From one state a text is begun alone, and with another one below it. -/
theorem StateMatch.begin_upper (states : StateMatch σ w s s) {base other : Program}
    {number : Nat} (numbered : (base.move (.renumber s.nextReference)).Numbered s.nextReference)
    (numberedOther : other.Numbered number)
    (joined : ((base.move (.renumber s.nextReference)).followedBy other).Numbered s.nextReference) :
    ∃ w', (Phase.upper σ s.nextReference other.stmts s.context).Runs w'
      (.ofProgram (base.move (.renumber s.nextReference)).stmts
        (s.load (base.move (.renumber s.nextReference))))
      (.ofProgram ((base.move (.renumber s.nextReference)).followedBy other).stmts
        (s.load ((base.move (.renumber s.nextReference)).followedBy other))) := by
  obtain ⟨w', grows, cores, covers⟩ := states.core.loadShared numbered joined
    (.renumber _ s.nextReference s.nextReference) base.stmts fun id held => by
      have held : id + s.nextReference ∈ (base.move (.renumber s.nextReference)).numbers := by
        rw [base.numbers_move]
        exact List.mem_map_of_mem held
      refine ⟨held, ?_, (joined.hop?_first numberedOther held).symm⟩
      rw [Program.numbers_followedBy]
      exact List.mem_append_left _ held
  refine ⟨w', ?_⟩
  have runs := Phase.Runs.start (.upper σ s.nextReference other.stmts s.context) .nil .nil covers
    ⟨cores, states.context.mono grows.within⟩ rfl rfl
  unfold Phase.upper at runs
  rwa [List.append_nil] at runs

/-- Below the first text, the second one goes on as it does if it is begun by itself. -/
theorem StateMatch.begin_lower (states : StateMatch σ w t t') (twin : Twin σ) {base : Program}
    (numbered : (base.move twin.left).Numbered t.nextReference)
    (known : ∀ id ∈ base.numbers,
      id + twin.right.offset < t'.nextReference ∧
        t'.hops[id + twin.right.offset]? = base.hop? id) (value : Value) :
    ∃ w', (Phase.final twin t.context t'.context).Runs w'
      (.ofProgram (base.move twin.left).stmts (t.load (base.move twin.left)))
      ⟨.give (.value value), [.program (base.move twin.right).stmts], t'⟩ := by
  obtain ⟨w', grows, cores, covers⟩ := states.core.loadLeft numbered twin base.stmts fun id held => by
    obtain ⟨early, same⟩ := known id held
    refine ⟨?_, early, (base.hop?_move twin.left id).trans same.symm⟩
    rw [base.numbers_move]
    exact List.mem_map_of_mem held
  exact ⟨w', .start_final twin .nil value covers ⟨cores, states.context.mono grows.within⟩⟩

/-- Once two texts were loaded as one, the references of the second stay known. -/
theorem State.known_of_extends {upper base : Program} {m : Move}
    (unused : ∀ id, s.nextReference ≤ id → s.hops[id]? = none)
    (numbered : upper.Numbered s.nextReference)
    (joined : (upper.followedBy (base.move m)).Numbered s.nextReference)
    (later : (s.load (upper.followedBy (base.move m))).Extends t') :
    ∀ id ∈ base.numbers,
      id + m.offset < t'.nextReference ∧ t'.hops[id + m.offset]? = base.hop? id := by
  intro id held
  have below : id + m.offset ∈ (base.move m).numbers := by
    rw [base.numbers_move]
    exact List.mem_map_of_mem held
  have inside : id + m.offset ∈ (upper.followedBy (base.move m)).numbers := by
    rw [Program.numbers_followedBy]
    exact List.mem_append_right _ below
  obtain ⟨late, early⟩ := joined.numbers.range _ inside
  refine ⟨Nat.lt_of_lt_of_le early later.nextReference, ?_⟩
  rw [later.hops _ early, State.hops_load unused late, joined.hop?_second numbered below]
  exact base.hop?_move m id

end Pieces

/-- If the first program of a phase ends well after its shared statements, these were done. -/
theorem Phase.Runs.done_of_ended {σ : Leeway} {P : Phase σ} {w : Pairing} {m m' : Machine}
    {files : String → Except Failure String} {steps : Nat} {outcome : Outcome} {s : State}
    (runs : P.Runs w m m') (sameBases : σ.bases = Eq) (level : σ.deeper = 0)
    (last : P.next = []) (bottom : P.below = [])
    (ended : m.advanced files steps = ⟨.give outcome, [], s⟩)
    (unfailed : ∀ error, outcome ≠ .failed error) :
    ∃ n < steps, ∃ w' t' value, StateGrows w m.state m'.state w' s t' ∧
      StateMatch σ w' s t' ∧ s.context = P.context ∧ t'.context = P.context' ∧
      m'.advanced files n = ⟨.give (.value value), .program P.next' :: P.below', t'⟩ := by
  rcases runs.advanced (fun _ _ runs => runs.agree sameBases files) steps with lasts | ⟨n, early, isOver⟩
  · obtain ⟨w', _, still⟩ := lasts steps (Nat.le_refl _)
    rw [ended] at still
    exact absurd ⟨outcome, rfl, bottom.symm⟩ still.not_gives
  · obtain ⟨more, rfl⟩ := Nat.exists_eq_add_of_le early
    rw [Machine.advanced_add] at ended
    have notYet : ∀ {given task tasks t}, m.advanced files n = ⟨.give given, task :: tasks, t⟩ →
        more ≠ 0 := by
      rintro given task tasks t here rfl
      rw [here] at ended
      cases ended
    cases isOver with
    | overflows deep => exact absurd level (Nat.ne_of_gt deep)
    | failed grows failed =>
        generalize here : m.advanced files n = k at *
        generalize m'.advanced files n = k' at *
        obtain ⟨related, states, _, _⟩ := failed
        obtain ⟨more, rfl⟩ := Nat.exists_eq_succ_of_ne_zero (notYet rfl)
        rw [bottom, advanced_of_last rfl more] at ended
        cases ended
        exact absurd rfl (unfailed _)
    | @done w' grows done =>
        generalize here : m.advanced files n = k at *
        generalize here' : m'.advanced files n = k' at *
        obtain ⟨states, same, same'⟩ := done
        obtain ⟨more, rfl⟩ := Nat.exists_eq_succ_of_ne_zero (notYet rfl)
        rw [bottom, last, advanced_of_last rfl more] at ended
        cases ended
        exact ⟨n, Nat.lt_add_of_pos_right (Nat.succ_pos more), w', _, _, grows, states, same, same', here'⟩

/-- A program that is put below some lines and then numbered anew has been moved once. -/
theorem Program.move_under {source : String} {base : Program}
    (compiled : compile 0 source = .ok base) (lines first : Nat) :
    base.move (.under lines first) = (base.move (.under lines 0)).move (.renumber first) := by
  have once := compile_lowered first lines source
  have twice := compile_renumber 0 first (lowered lines source)
  rw [Nat.zero_add, once, compile_lowered, compiled] at twice
  exact Except.ok.inj twice

/--
Once the first text is done, a run of both comes to what a run of the second one comes to, if that
is compiled to the same statements but for a move.
-/
theorem Session.run_lower {σ : Leeway} {w : Pairing} {session middle : Session} {host : Host}
    {both source : String} {joined base : Program} {taken : Nat} {value : Value} {t' : State}
    (sameBases : σ.bases = Eq) (level : σ.deeper = 0) (twin : Twin σ)
    (states : StateMatch σ w middle.state t') (sameTime : middle.state.now = host.now)
    (compiled : Program.compile middle.state.nextReference source = .ok (base.move twin.left))
    (joins : Program.compile session.state.nextReference both = .ok joined)
    (awaits : (session.begin host.now joined).advanced host.files taken =
      ⟨.give (.value value), [.program (base.move twin.right).stmts], t'⟩)
    (known : ∀ id ∈ base.numbers,
      id + twin.right.offset < t'.nextReference ∧
        t'.hops[id + twin.right.offset]? = base.hop? id) (patience : Nat) :
    ∃ w', RanMatch σ w' (middle.run { host with patience := patience } source)
      (session.run { host with patience := taken + patience } both) := by
  have again : (middle.setClock host.now).state = middle.state := by
    rw [setClock, ← sameTime]
  have numbered := (Program.compile_checked compiled).numbered
  obtain ⟨w₁, runs⟩ := states.begin_lower twin numbered known value
  obtain ⟨w₂, _, results⟩ := runs.final_result sameBases level host.files patience
  refine ⟨w₂, ?_⟩
  rw [run_accepted compiled, run_accepted joins]
  refine runProgram_matches ?_
  rw [Machine.advanced_add, awaits, begin, again]
  exact results

/--
Running in pieces equals running at once.  If a text was run without errors, then it can stand
above any text that is accepted: both are accepted as one, and after the steps that the first one
took, the run of both goes on as a run of the second one does.  That comes to the same result, with
the same output and with globals that hold the same, if the second text stands below as many empty
lines.  Without these lines it comes to that but for the lines of its own tokens.
-/
theorem Session.pieces_run_as_one {session middle : Session} (ready : session.Ready)
    {host : Host} {first second : String} (closed : endsInComment 1 first.toList = false)
    (accepted : ∃ program, Program.compile 0 second = .ok program)
    (ran : session.run host first = (.finished [], middle)) :
    (∃ program, Program.compile session.state.nextReference (first ++ "\n" ++ second) = .ok program) ∧
    ∃ taken < host.patience, ∀ patience,
      (∃ w, RanMatch .plain w
        (middle.run { host with patience := patience }
          (lowered (newlines first.toList + 1) second))
        (session.run { host with patience := taken + patience } (first ++ "\n" ++ second))) ∧
      ∃ w, RanMatch (.lowered (newlines first.toList + 1)) w
        (middle.run { host with patience := patience } second)
        (session.run { host with patience := taken + patience } (first ++ "\n" ++ second)) := by
  obtain ⟨program, outcome, compiled, ended, unfailed⟩ := run_without_errors ran
  obtain ⟨lower, compiledLower⟩ := accepted
  generalize below : newlines first.toList + 1 = lines
  have joins := Program.compile_joined closed compiled compiledLower
  rw [below] at joins
  rcases Program.compile_twice session.state.nextReference session.state.nextReference first with
    ⟨errors, rejected, _⟩ | ⟨upper, _, same, _⟩
  · rw [compiled] at rejected
    cases rejected
  obtain rfl : program = upper.move (.renumber session.state.nextReference) :=
    Except.ok.inj (compiled.symm.trans same)
  generalize session.state.nextReference +
    ((upper.move (.renumber session.state.nextReference)).width - 1) = offset at joins
  refine ⟨⟨_, joins⟩, ?_⟩
  have placed := Program.move_under compiledLower lines
  have isLowered : ∀ first', Program.compile first' (lowered lines second) =
      .ok (lower.move (.under lines first')) := fun first' => by
    rw [Program.compile_lowered, compiledLower, Program.moveCompiled]
  -- First the same statements run, once with nothing and once with the second text behind them.
  obtain ⟨w, states⟩ := ready.matches_itself host.now
  have numbered := (Program.compile_checked compiled).numbered
  have numberedBoth := (Program.compile_checked joins).numbered
  obtain ⟨w₁, runs⟩ := states.begin_upper numbered
    (Program.compile_checked (isLowered offset)).numbered numberedBoth
  obtain ⟨taken, early, w₂, t', value, grows, statesAfter, here, here', awaits⟩ :=
    runs.done_of_ended rfl rfl rfl rfl ended unfailed
  have sameTime : middle.state.now = host.now := grows.left.now
  replace awaits : (session.begin host.now
      ((upper.move (.renumber session.state.nextReference)).followedBy
        (lower.move (.under lines offset)))).advanced host.files taken = _ := awaits
  refine ⟨taken, early, fun patience => ⟨?_, ?_⟩⟩
  -- Then both run the second text: on the same lines with other numbers, or on other lines, too.
  · rw [placed offset] at joins awaits numberedBoth grows
    have compiledAfter := isLowered middle.state.nextReference
    rw [placed middle.state.nextReference] at compiledAfter
    exact run_lower rfl rfl (.renumber .plain middle.state.nextReference offset) statesAfter sameTime
      compiledAfter joins awaits
      (State.known_of_extends states.core.unused numbered numberedBoth grows.right) patience
  · have compiledAfter := Program.compile_renumber 0 middle.state.nextReference second
    rw [Nat.zero_add, compiledLower, Program.moveCompiled] at compiledAfter
    exact run_lower rfl rfl (.lowering lines middle.state.nextReference offset)
      (statesAfter.belowLines lines) sameTime compiledAfter joins awaits
      (State.known_of_extends states.core.unused numbered numberedBoth grows.right) patience

/-- The lines of the errors that a finished run came to. -/
def RunResult.lines? : RunResult → Option (List (Option Nat))
  | .finished errors => some (errors.map Error.line?)
  | _ => none

/-- A declaration, and a text that uses it before it fails in its second line. -/
theorem lower_piece_fails_lower :
    let session := Session.fresh .unlimited .unlimited false
    let declared := session.run bareHost "var a = 1;"
    declared.1.lines? = some [] ∧
      (declared.2.run bareHost "print a;\nprint b;").1.lines? = some [some 2] ∧
      (session.run { bareHost with patience := 40 } "var a = 1;\nprint a;\nprint b;").1.lines? =
        some [some 3] ∧
      ∃ taken < 20, ∀ patience,
        (∃ w, RanMatch .plain w
          (declared.2.run { bareHost with patience := patience } (lowered 1 "print a;\nprint b;"))
          (session.run { bareHost with patience := taken + patience }
            ("var a = 1;" ++ "\n" ++ "print a;\nprint b;"))) ∧
        ∃ w, RanMatch (.lowered 1) w
          (declared.2.run { bareHost with patience := patience } "print a;\nprint b;")
          (session.run { bareHost with patience := taken + patience }
            ("var a = 1;" ++ "\n" ++ "print a;\nprint b;")) := by
  intro session declared
  have clean : declared.1.lines? = some [] := by decide +kernel
  have accepted : ∃ program, Program.compile 0 "print a;\nprint b;" = .ok program := by
    have isOk : (Program.compile 0 "print a;\nprint b;").isOk = true := by decide +kernel
    cases compiled : Program.compile 0 "print a;\nprint b;" with
    | ok program => exact ⟨program, rfl⟩
    | error errors =>
        rw [compiled] at isOk
        cases isOk
  refine ⟨clean, by decide +kernel, by decide +kernel, ?_⟩
  have finished : declared = (.finished [], declared.2) := by
    generalize declared = ran at clean
    obtain ⟨result, after⟩ := ran
    cases result with
    | finished errors =>
        cases errors with
        | nil => rfl
        | cons error errors => cases clean
    | exited code => cases clean
    | unfinished => cases clean
  exact (Session.pieces_run_as_one (Session.Reachable.fresh _ _ _).ready (by decide +kernel)
    accepted finished).2

end Lox
