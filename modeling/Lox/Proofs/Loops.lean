import Lox.Proofs.Loops.Sharing
import Lox.Proofs.Parse.Contracts
import Lox.Proofs.Scope.Loops

/-!
# A `for` statement is a loop

The parser makes a `while` statement in blocks of a `for` statement.  Wherever this is executed, it
comes to what the loop comes to; and the variable of the first clause is one for all iterations,
while what the body declares in a block is new in each of them and is seen nowhere else.
-/

namespace Lox

open Grammar

theorem Grammar.IsLoop.declares_eq_nil {init : Option Stmt} {condition increment : Option Expr}
    {body loop : Stmt} (isLoop : IsLoop init condition increment body loop)
    (alone : body.declares = []) : loop.declares = [] := by
  induction isLoop with
  | endless => exact alone
  | conditional => exact alone
  | incremented _ ih => exact ih rfl
  | initialized => rfl

/-- No statement that stands by itself declares a name in the scope around it. -/
theorem Grammar.IsStmt.declares_eq_nil {closed : Bool} {text : Text} {stmt : Stmt} :
    IsStmt closed text stmt → stmt.declares = []
  | .forLoop _ _ _ _ _ _ _ isBody isLoop => isLoop.declares_eq_nil isBody.declares_eq_nil
  | .ifThen _ _ _ _ isThen => isThen.declares_eq_nil
  | .ifElse _ _ _ _ isThen _ isOther => by
      rw [Stmt.declares, isThen.declares_eq_nil, isOther.declares_eq_nil]
      rfl
  | .inclusion _ _ _ => rfl
  | .print _ isRest => by cases isRest <;> rfl
  | .ret _ _ _ => rfl
  | .whileLoop _ _ _ _ isBody => isBody.declares_eq_nil
  | .block _ _ _ => rfl
  | .expression _ isStatement => by
      cases isStatement
      rfl

namespace ForClauses

/-- The clauses that stand behind the word `for`, and the statement that is repeated. -/
inductive IsRead (closed : Bool) : Text → ForClauses → Prop where
  | clauses {opening semicolon closing : Reference} {first second third text : Text}
      {init : Option Stmt} {condition increment : Option Expr} {body : Stmt}
      (opens : opening.kind = .leftParen) (isInit : IsInitializer first init)
      (isCondition : Optional IsExpr second condition) (ends : semicolon.kind = .semicolon)
      (isIncrement : Optional IsExpr third increment) (closes : closing.kind = .rightParen)
      (isBody : IsStmt closed text body) :
      IsRead closed (opening :: (first ++ (second ++ semicolon :: (third ++ closing :: text))))
        ⟨init, condition, increment, body⟩

variable {clauses : ForClauses} {closed : Bool} {text : Text}

theorem IsRead.alone (isRead : IsRead closed text clauses) : clauses.body.declares = [] := by
  cases isRead with
  | clauses _ _ _ _ _ _ isBody => exact isBody.declares_eq_nil

/-- The statement that starts with `for` is made of its clauses. -/
theorem exists_isRead {keyword : Reference} {stmt : Stmt} (isFor : keyword.kind = .forWord)
    (isStmt : IsStmt closed (keyword :: text) stmt) :
    ∃ clauses, IsRead closed text clauses ∧ stmt = clauses.statement := by
  generalize whole : keyword :: text = tokens at isStmt
  have other {first : Reference} {kind : Kind} (isOther : first.kind = kind)
      (same : keyword = first) : kind = .forWord :=
    isOther.symm.trans (same ▸ isFor)
  cases isStmt with
  | forLoop _ opens isInit isCondition ends isIncrement closes isBody isLoop =>
      obtain ⟨_, rfl⟩ := List.cons.inj whole
      exact ⟨_, .clauses opens isInit isCondition ends isIncrement closes isBody,
        (Parse.isLoop_iff.mp isLoop).symm⟩
  | ifThen isIf _ _ _ _ => cases other isIf (List.cons.inj whole).1
  | ifElse isIf _ _ _ _ _ _ => cases other isIf (List.cons.inj whole).1
  | inclusion isInclude _ _ => cases other isInclude (List.cons.inj whole).1
  | print isPrint _ => cases other isPrint (List.cons.inj whole).1
  | ret isReturn _ _ => cases other isReturn (List.cons.inj whole).1
  | whileLoop isWhile _ _ _ _ => cases other isWhile (List.cons.inj whole).1
  | block opens _ _ => cases other opens (List.cons.inj whole).1
  | expression _ isStatement =>
      obtain ⟨token, rest, first, starts⟩ := isStatement.begins
      obtain ⟨rfl, _⟩ := List.cons.inj (whole.trans first)
      rw [isFor] at starts
      exact absurd starts (by decide)

/-! ## The variable of the first clause -/

theorem declares_loop (alone : clauses.body.declares = []) : clauses.loop.declares = [] := by
  obtain ⟨init, condition, increment, body⟩ := clauses
  cases increment with
  | none => exact alone
  | some increment => rfl

/--
What is looked up behind the first clause, inside of the scope that this was opened for: a name that
the clause declares is found in the frame of the loop, unless a scope further inside knows it too.
-/
inductive Shares (clauses : ForClauses) (init : Stmt) (past : Past) (n : Machine)
    (inner : List Nat) (frame : Nat) : Act → Prop where
  | intro {reference : Reference} {event : Event} (among : event.act ∈ clauses.loop.acts)
      (sought : event.act.sought? = some (reference, reference.name.lexeme))
      (agrees : n.Agrees past event reference reference.name.lexeme)
      (distance : event.distance? = some inner.length ↔
        (∀ nearer ∈ event.spot.scopes.take inner.length,
          nearer.names.has reference.name.lexeme = false) ∧
            reference.name.lexeme ∈ init.declares)
      (found : event.distance? = some inner.length → n.state.place? reference = some frame ∧
        n.state.valueOf? reference = n.state.store.valueIn? frame reference.name.lexeme) :
      Shares clauses init past n inner frame event.act

theorem shares (alone : clauses.body.declares = []) {init : Stmt} {past : Past} {n : Machine}
    {inner : List Nat} {frame : Nat} {act : Act}
    (finds : n.FindsIn past [init, clauses.loop] inner frame act) :
    act ∈ init.acts ∨ clauses.Shares init past n inner frame act := by
  cases finds with
  | @intro reference event scope before after member agrees sought isOpen isBlock whole stands
      distance found =>
      cases before with
      | nil =>
          obtain ⟨rfl, _⟩ := List.cons.inj whole
          exact .inl stands.among
      | cons first before =>
          obtain ⟨rfl, rest⟩ := List.cons.inj whole
          cases before with
          | nil =>
              obtain ⟨rfl, _⟩ := List.cons.inj rest
              refine .inr (.intro stands.among sought agrees ?_ found)
              rw [distance]
              refine and_congr_right fun _ => ⟨fun known => ?_, fun declared => ?_⟩
              · have := stands.nothingElse _ known
                rw [declares_loop alone] at this
                simpa [declaresAll] using this
              · exact stands.knows _ (by simpa [declaresAll] using declared)
          | cons second before =>
              have length := congrArg List.length rest
              simp at length

/-- What a statement is that means the loop of some clauses. -/
structure Means (clauses : ForClauses) (stmt : Stmt) : Prop where
  /--
  A run that executes the statement, in any state and whatever waits for it, ends just as the loop
  does.  Either the loop ends the whole run, or its outcome is given to what waits.
  -/
  outcome : ∀ files tasks s ending after, Machine.Ends files ⟨.exec stmt, tasks, s⟩ ending after ↔
    (∃ code, ending = .exited code ∧ clauses.Loops files s ending after) ∨
      ∃ outcome between, clauses.Loops files s (.outcome outcome) between ∧
        Machine.Ends files ⟨.give outcome, tasks, between⟩ ending after
  /--
  Wherever the statement stands in a text, the condition is behind the first clause, and the last
  clause beside the body in a scope that knows nothing.  How far a name is in one of them the first
  clause tells and what is around the loop.  What the body declares in its own scopes is seen
  nowhere else.
  -/
  scopes : ∀ path p event reference name, event ∈ stmt.walk path p →
    event.act.sought? = some (reference, name) → clauses.Finds path p event name
  /--
  For the first clause one frame is made, for all rounds.  Whatever is looked up later inside of it,
  in the loop or in a function that was declared there, is found in this frame if the first clause
  declares it and no scope further inside knows it.
  -/
  shared : ∀ past m init, Reached past m → m.control = .exec stmt → clauses.init = some init →
    m.OpensScope past [init, clauses.loop] ∧
      ∀ files past' n act inner, Sequel (past.after files m) (m.advance files) past' n →
        n.lookup? = some act → n.state.context.env.chain = inner ++ m.state.inner.chain →
          act ∈ init.acts ∨ clauses.Shares init past' n inner m.state.store.frames.size act
  /-- The frame of a round, in which the last clause is beside the body, never binds anything. -/
  round : ∀ past m increment, Reached past m → m.control = .exec clauses.iteration →
    clauses.increment = some increment → m.OpensScope past [clauses.body, .expression increment] ∧
      ∀ files past' n name, Sequel (past.after files m) (m.advance files) past' n →
        n.state.store.valueIn? m.state.store.frames.size name = none
  /-- A body that is a block has a new frame in each round. -/
  body : ∀ past m stmts, Reached past m → m.control = .exec clauses.body →
    clauses.body = .block stmts → m.OpensScope past stmts

theorem means_statement (alone : clauses.body.declares = []) : clauses.Means clauses.statement where
  outcome files tasks s ending after := by
    rw [Machine.ends_iff_phrase]
    simp only [comes_statement]
  scopes path p event reference name walked sought := clauses.finds path p alone walked sought
  shared past m init reached executes isInit := by
    rw [statement_eq_block isInit] at executes
    refine ⟨reached.opensScope executes, fun files past' n act inner sequel next chain => ?_⟩
    exact shares alone (reached.findsIn executes sequel next chain)
  round past m increment reached executes isIncrement := by
    rw [iteration, isIncrement] at executes
    have opens := reached.opensScope executes
    refine ⟨opens, fun files past' n name sequel => ?_⟩
    cases bound : n.state.store.valueIn? m.state.store.frames.size name with
    | none => rfl
    | some value =>
        have declared := opens.contents files past' n name value sequel bound
        rw [declaresAll, List.flatMap_cons, alone] at declared
        cases declared
  body past m stmts reached executes isBlock := by
    rw [isBlock] at executes
    exact reached.opensScope executes

end ForClauses

/--
Every accepted `for` statement means the loop that its clauses stand for: the first clause runs
once, in a new scope, if there is one; then each round ends the loop if the condition is false, and
otherwise runs the body and, behind a body that ended normally, the last clause.  A body that
returns ends the loop, and so does an error or the end of the program anywhere.
-/
theorem for_statement_means_loop {closed : Bool} {keyword : Reference} {text : Text} {stmt : Stmt}
    (isFor : keyword.kind = .forWord) (isStmt : IsStmt closed (keyword :: text) stmt) :
    ∃ clauses, ForClauses.IsRead closed text clauses ∧ stmt = clauses.statement ∧
      clauses.Means stmt := by
  obtain ⟨clauses, isRead, rfl⟩ := ForClauses.exists_isRead isFor isStmt
  exact ⟨clauses, isRead, rfl, ForClauses.means_statement isRead.alone⟩

/-! ## A loop with all clauses -/

theorem Grammar.Sequence.of_singleton {α : Type} {item : Text → α → Prop} {text : Text} {a : α}
    (sequence : Sequence item text [a]) : item text a := by
  cases sequence with
  | cons isFirst areOthers =>
      cases areOthers
      rwa [List.append_nil]

theorem Grammar.IsDecl.isStmt_of_for {keyword : Reference} {text : Text} {stmt : Stmt}
    (isDecl : IsDecl (keyword :: text) stmt) (isFor : keyword.kind = .forWord) :
    IsStmt false (keyword :: text) stmt := by
  cases isDecl with
  | classDecl isClass => cases isClass.symm.trans isFor
  | funDecl isFun => cases isFun.symm.trans isFor
  | varDecl isVar => cases isVar.symm.trans isFor
  | stmt isStmt => exact isStmt

/-- The only statement of a program that starts with `for` is a `for` statement. -/
theorem Program.exists_isStmt_of_for {first : Nat} {source : String} {program : Program}
    {stmt : Stmt} (compiled : Program.compile first source = .ok program)
    (only : program.stmts = [stmt])
    (starts : (Token.ofSource source).head?.map Token.kind = some .forWord) :
    ∃ keyword text, Reference.kind keyword = .forWord ∧ IsStmt false (keyword :: text) stmt := by
  obtain ⟨_, faultless, _, rfl⟩ := Program.compile_ok compiled
  obtain ⟨body, tokens, inside⟩ := Token.exists_ofSource_eq source
  rw [tokens] at faultless starts
  have isProgram := Parse.derivable_of_program rfl inside faultless
  rw [← tokens, show (Parse.program first (Token.ofSource source)).stmts = [stmt] from only]
    at isProgram
  cases body with
  | nil => cases starts
  | cons token rest =>
      have isFor : token.kind = .forWord := Option.some.inj starts
      exact ⟨⟨first, token⟩, Parse.numberedFrom (first + 1) rest, isFor,
        isProgram.of_singleton.isStmt_of_for isFor⟩

/-- The text of a loop in which a function sees the variable. -/
def countingLoop : String :=
  "for (var i = 0; i < 2; i = i + 1) \x7b fun f() \x7b return i; \x7d print f(); \x7d"

/-- The machine of a fresh session that has begun the first statement. -/
def startsCounting (program : Program) : Machine :=
  ((Session.fresh .unlimited .unlimited false).begin 0 program).advance fun _ => .error .missing

/-- Whether the only statement starts in a block and ends with the given output. -/
def countsTo (output : String) (program : Program) : Bool :=
  match program.stmts with
  | [.block [init, loop]] =>
    match (⟨.exec (.block [init, loop]), [], (startsCounting program).state⟩ : Machine).run
        (fun _ => .error .missing) 99 with
    | (.outcome (.value .nil), after) => decide (after.output.text = output)
    | _ => false
  | _ => false

/-- The function that is declared in each round sees the variable as it is by then. -/
theorem counting_loop_means_loop :
    ∃ keyword text stmt, Reference.kind keyword = .forWord ∧ IsStmt false (keyword :: text) stmt ∧
      ∃ clauses init, ForClauses.IsRead false text clauses ∧ clauses.Means stmt ∧
        clauses.init = some init ∧
        ∃ past m after, Reached past m ∧ m.control = .exec stmt ∧
          m.OpensScope past [init, clauses.loop] ∧
          clauses.Loops (fun _ => .error .missing) m.state (.outcome .nil) after ∧
            after.output.text = "0\n1\n" := by
  obtain ⟨program, compiled, counts⟩ := exists_of_compilesTo
    (show compilesTo (countsTo "0\n1\n") countingLoop = true by decide +kernel)
  have fresh : (Session.fresh .unlimited .unlimited false).Reachable := .fresh _ _ _
  obtain ⟨_, started, _⟩ := fresh.atRest.begin 0 compiled
  have begun := started.advance fun _ => .error .missing
  unfold countsTo at counts
  split at counts
  · next init loop only =>
      obtain ⟨keyword, text, isFor, isStmt⟩ :=
        Program.exists_isStmt_of_for compiled only (by decide +kernel)
      obtain ⟨clauses, isRead, made, means⟩ := for_statement_means_loop isFor isStmt
      obtain ⟨first, isInit⟩ : ∃ first, clauses.init = some first := by
        cases isInit : clauses.init with
        | none =>
            rw [ForClauses.statement_eq_loop isInit] at made
            cases made
        | some first => exact ⟨first, rfl⟩
      have starts : (startsCounting program).control = .exec (.block [init, loop]) := by
        show (Machine.advance _ ⟨.give .nil, [.program program.stmts], _⟩).control = _
        rw [only]
        rfl
      split at counts
      · next after ran =>
          have ends : Machine.Ends (fun _ => .error .missing)
              ⟨.exec (.block [init, loop]), [], (startsCounting program).state⟩ (.outcome .nil)
              after := ⟨99, ran, nofun⟩
          have opens := (means.shared _ _ first begun starts isInit).1
          refine ⟨keyword, text, _, isFor, isStmt, clauses, first, isRead, means, isInit, _,
            startsCounting program, after, begun, starts, opens, ?_, of_decide_eq_true counts⟩
          rcases (means.outcome _ _ _ _ _).mp ends with ⟨_, isExit, _⟩ | ⟨_, between, loops, rest⟩
          · cases isExit
          · obtain ⟨isOutcome, rfl⟩ := rest.eq_of_ending? rfl
            cases isOutcome
            exact loops
      · cases counts
  · cases counts

end Lox
