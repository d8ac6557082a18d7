import Lox.Proofs.Inclusion
import Lox.Proofs.Super.Frames
import Lox.Proofs.Waiting

/-!
# What `print` means

`print` is a word that no program can declare, so it is bound among the globals alone, from the
start.  There it is the native function for as long as nothing is assigned to it; and as long as it
is, calling it with an expression and printing the expression come to the same.
-/

namespace Lox

theorem not_isIdentifier_print : ¬ IsIdentifier "print" := not_isIdentifier (by decide)

/-- Somewhere in the program a value is assigned to the name. -/
def Loaded.Assigns (name : String) (loaded : Loaded) : Prop :=
  ∃ target, .assign target ∈ actsBody loaded.program.stmts ∧ target.name.lexeme = name

section Bindings

variable {past : Past} {m : Machine}

/-- What happens in a tree that can be executed happens in a program that was loaded. -/
theorem Reached.exists_event (reached : Reached past m) {code : Code} (executes : m.Executes code)
    {act : Act} (among : act ∈ code.acts) :
    ∃ loaded ∈ past.loaded, ∃ event ∈ loaded.events, event.act = act := by
  obtain ⟨loaded, held, part⟩ := reached.part_of_loaded executes
  have inside := part.subset among
  rw [← map_act_walkBody [loaded.first] .root 0] at inside
  obtain ⟨event, walked, same⟩ := List.mem_map.mp inside
  exact ⟨loaded, held, event, walked, same⟩

/-- References that are named `print` are left to the globals. -/
theorem Reached.hops_print (reached : Reached past m) {code : Code} (executes : m.Executes code)
    {act : Act} (among : act ∈ code.acts) {reference : Reference}
    (sought : act.sought? = some (reference, "print")) : m.state.hops[reference.id]? = none := by
  obtain ⟨loaded, held, event, walked, rfl⟩ := reached.exists_event executes among
  have looks : event.act.id? = some reference.id := by rw [Act.id?, sought]; rfl
  have none : event.spot.NoneDeclares "print" :=
    (Spot.NoneDeclares.passesInward not_isIdentifier_print).everywhere
      (fun _ none => (List.not_mem_nil none).elim) (reached.checked loaded held) event walked
  rw [reached.located.found event ⟨loaded, held, walked⟩ _ looks, Event.distance?, sought]
  refine none.hops?_eq.trans (List.findIdx?_eq_none_iff.mpr fun site _ => ?_)
  cases site.opener <;> rfl

/-- Only an assignment binds `print`, and only among the globals. -/
theorem Reached.binds_print (reached : Reached past m) {frame : Nat} {value : Value}
    (binds : m.Binds frame "print" value) :
    frame = 0 ∧ ∃ target rest, m.control = .give (.value value) ∧
      m.tasks = .assign target :: rest ∧ target.name.lexeme = "print" := by
  rcases reached.binds_cases binds with
    isName | ⟨target, rest, given, waits, there, same, _⟩ | ⟨_, is, _⟩ | ⟨_, is, _⟩
  · exact absurd isName not_isIdentifier_print
  · have executes : m.Executes (.target target) :=
      .waiting (waits ▸ List.mem_cons_self) (.assign target)
    have global := reached.hops_print executes List.mem_cons_self (by rw [Act.sought?, ← same])
    rw [State.place?, global] at there
    exact ⟨(Option.some.inj there).symm, target, rest, given, waits, same.symm⟩
  · exact absurd is (by decide)
  · exact absurd is (by decide)

/-- No frame but that of the globals binds `print`. -/
theorem Reached.print_not_local (reached : Reached past m) {frame : Nat} (isLocal : frame ≠ 0) :
    m.state.store.valueIn? frame "print" = none := by
  induction reached with
  | fresh output now =>
      refine (congrArg (Bindings.find? "print") (Store.bindings_of_size_le _ ?_)).trans rfl
      exact Nat.one_le_iff_ne_zero.mpr isLocal
  | begin before compiled ih => exact ih
  | @advance past m files before ih =>
      rcases (m.changes_advance files).bindings frame "print" with same | ⟨value, binds, _⟩
      · exact same.trans ih
      · exact absurd (before.binds_print binds).1 isLocal
  | pass now output before ih => exact ih
  | setBase base before ih => exact ih

/-- If no program assigns to `print`, it is the native function. -/
theorem Reached.print_native (reached : Reached past m)
    (spared : ∀ loaded ∈ past.loaded, ¬ loaded.Assigns "print") :
    m.state.store.valueIn? 0 "print" = some (.native .print) := by
  induction reached with
  | fresh output now => rfl
  | begin before compiled ih => exact ih (List.forall_mem_append.mp spared).1
  | @advance past m files before ih =>
      have earlier := (List.forall_mem_append.mp spared).1
      rcases (m.changes_advance files).bindings 0 "print" with same | ⟨value, binds, _⟩
      · exact same.trans (ih earlier)
      · obtain ⟨_, target, rest, _, waits, isPrint⟩ := before.binds_print binds
        have executes : m.Executes (.target target) :=
          .waiting (waits ▸ List.mem_cons_self) (.assign target)
        obtain ⟨loaded, held, part⟩ := before.part_of_loaded executes
        exact absurd ⟨target, part.subset List.mem_cons_self, isPrint⟩ (earlier loaded held)
  | pass now output before ih => exact ih spared
  | setBase base before ih => exact ih spared

/-- A call of `print` by its name is one of the native function. -/
theorem Reached.read_print (reached : Reached past m) {code : Code} (executes : m.Executes code)
    {keyword : Reference} (among : .read keyword ∈ code.acts) (isPrint : keyword.name.lexeme = "print")
    {value : Value} (bound : m.state.store.valueIn? 0 "print" = some value) :
    m.state.read keyword = .value value := by
  have global := reached.hops_print executes among (by rw [Act.sought?, isPrint])
  have has : (m.state.store.bindings 0).has "print" = true := Bindings.has_of_find? bound
  have found : m.state.valueOf? keyword = some value := by
    unfold State.valueOf?
    rw [global, isPrint]
    simp [Store.lookup?, Store.holder?, State.globals, Env.chain, has, bound]
  rw [State.read, found]

end Bindings

/-! ## Printing an expression -/

/-- What an expression that is evaluated in a state comes to after some steps, and not before. -/
structure Expr.Comes (files : String → Except Failure String) (expr : Expr) (s : State)
    (steps : Nat) (outcome : Outcome) (after : State) : Prop where
  ends : (Machine.ofExpr expr s).advanced files steps = ⟨.give outcome, [], after⟩
  busy : ∀ n < steps, ¬ ((Machine.ofExpr expr s).advanced files n).Gives []

section Printing

variable {files : String → Except Failure String} {expr : Expr} {s after : State} {steps : Nat}
  {outcome : Outcome} {m : Machine} {keyword : Reference} {paren : Token}

/-- Evaluating an expression leaves the context as it was. -/
theorem Expr.Comes.context_eq (comes : expr.Comes files s steps outcome after) :
    after.context = s.context := by
  have stays (n : Nat) (early : n ≤ steps) :
      ((Machine.ofExpr expr s).advanced files n).IsAbove [] s.context := by
    induction n with
    | zero => exact ⟨[], rfl, rfl⟩
    | succ n ih =>
        rw [Machine.advanced_succ]
        exact (ih (Nat.le_of_succ_le early)).advance (comes.busy n early) files
  have ended := stays steps (Nat.le_refl _)
  rw [comes.ends] at ended
  exact ended.context_eq rfl

/-- Evaluated for a task, the expression comes to the same, which is then given to the task. -/
theorem Expr.Comes.above (comes : expr.Comes files s steps outcome after) (task : Task)
    (tasks : List Task) :
    Machine.advanced files (steps + 1) ⟨.eval expr, task :: tasks, s⟩ =
      Machine.advance files ⟨.give outcome, task :: tasks, after⟩ := by
  have evaluated := Machine.advanced_above comes.busy (task :: tasks)
  rw [comes.ends] at evaluated
  rw [Machine.advanced_succ]
  exact congrArg (Machine.advance files) evaluated

/-- The function is looked up before the argument is evaluated. -/
theorem advanced_call (files : String → Except Failure String) (expr : Expr) (args : List Expr)
    (paren : Token) (tasks : List Task) {callee : Value} (read : s.read keyword = .value callee) :
    Machine.advanced files 4
        ⟨.exec (.expression (.call (.var keyword) paren (expr :: args))), tasks, s⟩ =
      ⟨.eval expr, .nextArgument callee [] paren args :: tasks, s⟩ := by
  show Machine.advance files ⟨.give (s.read keyword), _, s⟩ = _
  rw [read]
  rfl

/-- A native call with one argument writes what printing the argument writes. -/
theorem call_print (shallow : s.context.depth < maxDepth) (value : Value) (tasks : List Task) :
    Machine.call (.native .print) [value] paren tasks s =
      .giving (.writtenAt paren.line (s.writeLine value.text).1) tasks
        (s.writeLine value.text).2 := by
  unfold Machine.call
  dsimp only [Value.arity?, Native.arity]
  rw [if_neg (Nat.not_le.mpr shallow)]
  exact Machine.callNative_print [value] paren.line tasks s

end Printing

open Parse Grammar

/-- An expression in parentheses behind the word, and a semicolon, are a call of a variable. -/
theorem program_printCall {first : Nat} {tokens : List Token} {eof : Token}
    {keyword opening closing semicolon : Reference} {text : Text} {expr : Expr}
    (written : numberedFrom first tokens = keyword :: opening :: (text ++ [closing, semicolon]))
    (isPrint : keyword.kind = .printWord) (opens : opening.kind = .leftParen)
    (isExpr : IsExpr text expr) (closes : closing.kind = .rightParen)
    (ends : semicolon.kind = .semicolon) (isEof : eof.kind = .eof)
    (only : ∀ token ∈ tokens, token.kind ≠ .eof) :
    Parse.program first (tokens ++ [eof]) =
      ⟨[.expression (.call (.var keyword) closing.name [expr])], []⟩ := by
  have args : Listed IsExpr text [expr] := .some (.one isExpr) (by simp)
  have called : IsPrint keyword (opening :: (text ++ [closing, semicolon]))
      (.expression (.call (.var keyword) closing.name [expr])) :=
    .call opens args closes ends
  refine program_of_derivable isEof only ?_
  rw [written, ← List.append_nil (keyword :: _)]
  exact .cons (.stmt (.print isPrint called)) .nil

/--
`print` means the native function unless a program assigns to it.  Wherever a session has come to,
no frame but that of the globals binds the name, and there it is bound anew by assignments only, to
what they assign; so it is the native function if no program that was loaded assigns to it.  The
word, an expression in parentheses and a semicolon are read as a call of a variable.  Where the
variable is the native function and there is a level left, this call and the statement that prints
the expression do the same: both evaluate the expression in the same state, fail as it fails, and
write the same line of its value, or fail with the same fault if it cannot be written.
-/
theorem print_means_native {past : Past} {m : Machine} (reached : Reached past m)
    (files : String → Except Failure String) :
    (∀ frame, frame ≠ 0 → m.state.store.valueIn? frame "print" = none) ∧
    ((m.advance files).state.store.valueIn? 0 "print" = m.state.store.valueIn? 0 "print" ∨
      ∃ target value rest, m.control = .give (.value value) ∧ m.tasks = .assign target :: rest ∧
        target.name.lexeme = "print" ∧
        (m.advance files).state.store.valueIn? 0 "print" = some value) ∧
    ((∀ loaded ∈ past.loaded, ¬ loaded.Assigns "print") →
      m.state.store.valueIn? 0 "print" = some (.native .print)) ∧
    (∀ (first : Nat) (tokens : List Token) (eof : Token)
        (keyword opening closing semicolon : Reference) (text : Text) (expr : Expr),
      numberedFrom first tokens = keyword :: opening :: (text ++ [closing, semicolon]) →
      keyword.kind = .printWord → opening.kind = .leftParen → IsExpr text expr →
      closing.kind = .rightParen → semicolon.kind = .semicolon → eof.kind = .eof →
      (∀ token ∈ tokens, token.kind ≠ .eof) →
      Parse.program first (tokens ++ [eof]) =
        ⟨[.expression (.call (.var keyword) closing.name [expr])], []⟩) ∧
    (∀ (tasks : List Task) (s : State) (keyword : Reference) (paren : Token) (expr : Expr),
      m = ⟨.exec (.expression (.call (.var keyword) paren [expr])), tasks, s⟩ →
      keyword.name.lexeme = "print" → s.store.valueIn? 0 "print" = some (.native .print) →
      s.context.depth < 20000 →
      (∀ steps, (∀ n < steps, ¬ ((Machine.ofExpr expr s).advanced files n).Gives []) →
        m.advanced files (4 + steps) = ((Machine.ofExpr expr s).advanced files steps).above
          (.nextArgument (.native .print) [] paren [] :: tasks) ∧
        Machine.advanced files (1 + steps) ⟨.exec (.print expr), tasks, s⟩ =
          ((Machine.ofExpr expr s).advanced files steps).above (.print expr.mainLine :: tasks)) ∧
      (∀ steps value after, expr.Comes files s steps (.value value) after →
        ∃ refusal written, after.writeLine value.text = (refusal, written) ∧
        m.advanced files (4 + (steps + 1)) =
          .giving (.writtenAt paren.line refusal) tasks written ∧
        Machine.advanced files (1 + (steps + 1)) ⟨.exec (.print expr), tasks, s⟩ =
          .giving (.writtenAt expr.mainLine refusal) tasks written) ∧
      (∀ steps outcome after, expr.Comes files s steps outcome after →
        (∀ value, outcome ≠ .value value) →
        m.advanced files (4 + (steps + 1)) = .giving outcome tasks after ∧
        Machine.advanced files (1 + (steps + 1)) ⟨.exec (.print expr), tasks, s⟩ =
          .giving outcome tasks after)) := by
  refine ⟨fun frame => reached.print_not_local, ?_, reached.print_native,
    fun first tokens eof keyword opening closing semicolon text expr => program_printCall, ?_⟩
  · rcases (m.changes_advance files).bindings 0 "print" with same | ⟨value, binds, bound⟩
    · exact .inl same
    · obtain ⟨_, target, rest, given, waits, isPrint⟩ := reached.binds_print binds
      exact .inr ⟨target, value, rest, given, waits, isPrint, bound⟩
  · rintro tasks s keyword paren expr rfl isPrint native shallow
    have read : s.read keyword = .value (.native .print) :=
      reached.read_print (.exec rfl) List.mem_cons_self isPrint native
    have called := advanced_call files expr [] paren tasks read
    refine ⟨fun steps busy => ⟨?_, ?_⟩, fun steps value after comes => ?_,
      fun steps outcome after comes other => ⟨?_, ?_⟩⟩
    · rw [Machine.advanced_add, called]
      exact Machine.advanced_above busy (_ :: tasks)
    · rw [Machine.advanced_add]
      exact Machine.advanced_above busy (_ :: tasks)
    · refine ⟨_, _, rfl, ?_, ?_⟩
      · have left : after.context.depth < maxDepth := comes.context_eq ▸ shallow
        rw [Machine.advanced_add, called, comes.above]
        exact call_print left value tasks
      · rw [Machine.advanced_add]
        refine (comes.above (.print expr.mainLine) tasks).trans ?_
        exact Machine.resume_print value expr.mainLine tasks after
    · rw [Machine.advanced_add, called, comes.above]
      cases outcome with
      | value value => exact absurd rfl (other value)
      | returned value => rfl
      | failed error => rfl
    · rw [Machine.advanced_add]
      refine (comes.above (.print expr.mainLine) tasks).trans ?_
      cases outcome with
      | value value => exact absurd rfl (other value)
      | returned value => rfl
      | failed error => rfl

/-- The tokens of `print(nil);`, but for the end token. -/
def printedNil : List Token :=
  [⟨.printWord, "print", none, 1⟩, ⟨.leftParen, "(", none, 1⟩, ⟨.nilWord, "nil", some .nil, 1⟩,
    ⟨.rightParen, ")", none, 1⟩, ⟨.semicolon, ";", none, 1⟩]

/-- Whether a program is a call of `print` with a literal, and nothing else. -/
def callsPrint (program : Program) : Bool :=
  match program.stmts with
  | [.expression (.call (.var keyword) _ [.literal _])] => keyword.name.lexeme == "print"
  | _ => false

/-- Called with a literal, it writes what the statement writes. -/
theorem print_means_native_in_call :
    Parse.program 0 (printedNil ++ [.endOn 1]) =
      ⟨[.expression (.call (.var ⟨0, ⟨.printWord, "print", none, 1⟩⟩) ⟨.rightParen, ")", none, 1⟩
        [.literal .nil])], []⟩ ∧
    ∃ past tasks s keyword paren literal refusal written,
      Reached past ⟨.exec (.expression (.call (.var keyword) paren [.literal literal])), tasks, s⟩ ∧
      s.store.valueIn? 0 "print" = some (.native .print) ∧
      s.writeLine (Value.ofLiteral literal).text = (refusal, written) ∧
      Machine.advanced (fun _ => .error .missing) 6
          ⟨.exec (.expression (.call (.var keyword) paren [.literal literal])), tasks, s⟩ =
        .giving (.writtenAt paren.line refusal) tasks written ∧
      Machine.advanced (fun _ => .error .missing) 3
          ⟨.exec (.print (.literal literal)), tasks, s⟩ =
        .giving (.writtenAt (Expr.literal literal).mainLine refusal) tasks written := by
  have isExpr : IsExpr [⟨2, ⟨.nilWord, "nil", some .nil, 1⟩⟩] (.literal .nil) := by
    have primary : IsPrimary [⟨2, ⟨.nilWord, "nil", some .nil, 1⟩⟩] (.literal .nil) :=
      @IsPrimary.literal ⟨2, ⟨.nilWord, "nil", some .nil, 1⟩⟩ (by decide)
    refine .operation (.tighter (.tighter (.tighter (.tighter (.tighter (.tighter (.operand ?_)))))))
    exact .chain (.first primary)
  refine ⟨(print_means_native (.fresh .unlimited 0) fun _ => .error .missing).2.2.2.1 0 printedNil
    (.endOn 1) ⟨0, ⟨.printWord, "print", none, 1⟩⟩ ⟨1, ⟨.leftParen, "(", none, 1⟩⟩
    ⟨3, ⟨.rightParen, ")", none, 1⟩⟩ ⟨4, ⟨.semicolon, ";", none, 1⟩⟩
    _ _ rfl rfl rfl isExpr rfl rfl rfl (by decide), ?_⟩
  obtain ⟨program, compiled, calls⟩ :=
    exists_of_compilesTo (show compilesTo callsPrint "print(nil);" = true by decide +kernel)
  unfold callsPrint at calls
  split at calls
  · next keyword paren literal stmts =>
      have reached := ((Reached.fresh .unlimited 0).begin compiled).advance fun _ => .error .missing
      have spared : ∀ loaded ∈ (Past.mk ([] ++ [⟨0, program⟩]) [.globals]).loaded,
          ¬ loaded.Assigns "print" := by
        refine List.forall_mem_singleton.mpr ?_
        rintro ⟨target, among, _⟩
        rw [stmts] at among
        simp [actsBody, Stmt.acts, Expr.acts, actsAll] at among
      obtain ⟨_, _, means, _, alike⟩ := print_means_native reached fun _ => .error .missing
      have native := means spared
      rw [stmts] at native alike
      obtain ⟨_, prints, _⟩ := alike _ _ keyword paren (.literal literal) rfl (eq_of_beq calls) native
        (show 0 < 20000 by decide)
      obtain ⟨refusal, written, isLine, called, printed⟩ :=
        prints 1 (.ofLiteral literal) _ ⟨rfl, fun n first => by
          obtain rfl : n = 0 := by omega
          rintro ⟨_, gives, _⟩
          cases gives⟩
      rw [stmts] at reached
      exact ⟨_, _, _, keyword, paren, literal, refusal, written, reached, native, isLine, called,
        printed⟩
  · cases calls

/-- Whether after some steps of a program the globals bind `print` to `nil`. -/
def unbindsPrint (steps : Nat) (program : Program) : Bool :=
  match (((Session.fresh .unlimited .unlimited false).begin 0 program).advanced
      (fun _ => .error .missing) steps).state.store.valueIn? 0 "print" with
  | some .nil => true
  | _ => false

/-- A program can assign to `print`, in parentheses, and then it is no function any more. -/
theorem print_is_assigned_to :
    ∃ past program m, Program.compile 0 "(print = nil);" = .ok program ∧ Reached past m ∧
      m = ((Session.fresh .unlimited .unlimited false).begin 0 program).advanced
        (fun _ => .error .missing) 7 ∧
      m.state.store.valueIn? 0 "print" = some .nil := by
  obtain ⟨program, compiled, unbinds⟩ := exists_of_compilesTo
    (show compilesTo (unbindsPrint 7) "(print = nil);" = true by decide +kernel)
  have fresh : (Session.fresh .unlimited .unlimited false).Reachable := .fresh _ _ _
  obtain ⟨past, started, _⟩ := fresh.atRest.begin 0 compiled
  obtain ⟨past', reached⟩ := started.advanced (fun _ => .error .missing) 7
  unfold unbindsPrint at unbinds
  split at unbinds
  · next bound => exact ⟨past', program, _, compiled, reached, rfl, bound⟩
  · cases unbinds

end Lox
