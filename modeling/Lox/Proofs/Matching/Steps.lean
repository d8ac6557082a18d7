import Lox.Proofs.Matching.Calls

/-!
# Steps of matching machines

A step keeps machines in match, by cases on what is being done and on the first task, unless the
machine that has more levels active finds that there are too many.
-/

namespace Lox

/-- If both machines wait for a file, they get the same text, from directories that may differ so. -/
def Agree (σ : Leeway) (files : String → Except Failure String) (m m' : Machine) : Prop :=
  ∀ path path' place place', m.control = .awaitFile path place →
    m'.control = .awaitFile path' place' →
      files place = files place' ∧
        σ.bases ((Path.parent? place).getD "") ((Path.parent? place').getD "")

section Operators

variable {σ : Leeway} {w : Pairing} {left left' right right' : Value}

theorem onNumbers_matches (t : Twin σ) (operator : Token) {compute : Float → Float → Value}
    (plain : ∀ a b, ValueMatch σ w (compute a b) (compute a b))
    (relatedLeft : ValueMatch σ w left left') (relatedRight : ValueMatch σ w right right') :
    OutcomeMatch σ w (onNumbers (operator.move t.left) compute left right)
      (onNumbers (operator.move t.right) compute left' right') := by
  cases relatedLeft with
  | number a =>
      cases relatedRight with
      | number b => exact .value (plain a b)
      | _ => exact .failAt t operator _
  | _ => exact .failAt t operator _

theorem plus_matches (t : Twin σ) {operator : Token} (isPlus : operator.kind = .plus)
    (relatedLeft : ValueMatch σ w left left') (relatedRight : ValueMatch σ w right right') :
    OutcomeMatch σ w (operate (operator.move t.left) left right)
      (operate (operator.move t.right) left' right') := by
  unfold operate
  rw [Token.move_kind, Token.move_kind, isPlus]
  cases relatedLeft with
  | number a =>
      cases relatedRight with
      | number b => exact .value (.number _)
      | _ => exact .failAt t operator _
  | string a =>
      cases relatedRight with
      | string b => exact .value (.string _)
      | _ => exact .failAt t operator _
  | _ => exact .failAt t operator _

theorem operate_matches (t : Twin σ) (operator : Token)
    (relatedLeft : ValueMatch σ w left left') (relatedRight : ValueMatch σ w right right')
    (equals : left'.equals right' = left.equals right) :
    OutcomeMatch σ w (operate (operator.move t.left) left right)
      (operate (operator.move t.right) left' right') := by
  cases kind : operator.kind with
  | plus => exact plus_matches t kind relatedLeft relatedRight
  | bangEqual | equalEqual =>
      unfold operate
      rw [Token.move_kind, Token.move_kind, kind]
      dsimp only
      rw [equals]
      exact .value (.bool _)
  | greater | greaterEqual | less | lessEqual =>
      unfold operate
      rw [Token.move_kind, Token.move_kind, kind]
      exact onNumbers_matches t operator (fun _ _ => .bool _) relatedLeft relatedRight
  | minus | slash | star =>
      unfold operate
      rw [Token.move_kind, Token.move_kind, kind]
      exact onNumbers_matches t operator (fun _ _ => .number _) relatedLeft relatedRight
  | _ =>
      unfold operate
      rw [Token.move_kind, Token.move_kind, kind]
      exact .failAt t operator _

theorem operateUnary_matches (t : Twin σ) (operator : Token)
    (related : ValueMatch σ w left left') :
    OutcomeMatch σ w (operateUnary (operator.move t.left) left)
      (operateUnary (operator.move t.right) left') := by
  unfold operateUnary
  rw [Token.move_kind, Token.move_kind]
  cases operator.kind with
  | minus =>
      cases related with
      | number x => exact .value (.number _)
      | _ => exact .failAt t operator _
  | bang =>
      dsimp only
      rw [related.isTruthy]
      exact .value (.bool _)
  | _ => exact .failAt t operator _

theorem decidesAlone_matches (t : Twin σ) (operator : Token)
    (related : ValueMatch σ w left left') :
    decidesAlone (operator.move t.right) left' = decidesAlone (operator.move t.left) left := by
  unfold decidesAlone
  rw [Token.move_kind, Token.move_kind, related.isTruthy]

end Operators

/-- The main token of an expression is moved with it; line 0 stands for none. -/
theorem Expr.mainLine_matches {σ : Leeway} (t : Twin σ) (expr : Expr) :
    σ.lines (expr.move t.left).mainLine (expr.move t.right).mainLine := by
  induction expr using Expr.mainLine.induct with
  | case5 inner ih => exact ih
  | case6 value => exact σ.lines_refl 0
  | _ => exact t.lines _

namespace Abreast

variable {σ : Leeway} {w : Pairing} {below below' tasks tasks' : List Task} {s s' : State}

open Pairing

/-! ## Looking at phrases -/

theorem evaluate (abreast : Abreast σ w below below' tasks tasks' s s') (t : Twin σ) {expr : Expr}
    (covers : w.Covers t expr.acts) :
    Continues σ w below below' s s' (Machine.evaluate (expr.move t.left) tasks s)
      (Machine.evaluate (expr.move t.right) tasks' s') := by
  cases expr with
  | assign target value =>
      obtain ⟨ofValue, ofTarget⟩ := covers_append.mp covers
      have paired := (covers_cons.mp ofTarget).1 target.id rfl
      exact .still ((abreast.push (.assign t target paired)).eval t ofValue) .refl
  | binary left operator right =>
      obtain ⟨ofLeft, ofRight⟩ := covers_append.mp covers
      exact .still ((abreast.push (.rightOperand t operator right ofRight)).eval t ofLeft) .refl
  | call callee paren args =>
      obtain ⟨ofCallee, ofArgs⟩ := covers_append.mp covers
      exact .still ((abreast.push (.firstArgument t paren args ofArgs)).eval t ofCallee) .refl
  | get object name => exact .still ((abreast.push (.get t name)).eval t covers) .refl
  | grouping inner => exact .still (abreast.eval t covers) .refl
  | literal value =>
      refine .still (abreast.givesValue ?_) .refl
      cases value with
      | nil => exact .nil
      | bool b => exact .bool b
      | number x => exact .number x
      | string text => exact .string text
  | logical left operator right =>
      obtain ⟨ofLeft, ofRight⟩ := covers_append.mp covers
      exact .still ((abreast.push (.decide t operator right ofRight)).eval t ofLeft) .refl
  | set object name value =>
      obtain ⟨ofValue, ofObject⟩ := covers_append.mp covers
      exact .still ((abreast.push (.storedValue t name value ofValue)).eval t ofObject) .refl
  | super keyword method => exact abreast.getSuper t ((covers_cons.mp covers).1 keyword.id rfl) method
  | this keyword =>
      exact .still (abreast.gives (abreast.states.read t ((covers_cons.mp covers).1 keyword.id rfl)))
        .refl
  | unary operator operand =>
      exact .still ((abreast.push (.operateUnary t operator)).eval t covers) .refl
  | var name =>
      exact .still (abreast.gives (abreast.states.read t ((covers_cons.mp covers).1 name.id rfl))) .refl

/-- A class is declared, after its superclass was read. -/
theorem executeClass (abreast : Abreast σ w below below' tasks tasks' s s') (t : Twin σ)
    (name : Token) {superclass : Option Reference} {methods : List FunDecl}
    (covers : w.Covers t (Stmt.classDecl name superclass methods).acts) :
    Continues σ w below below' s s'
      (Machine.execute ((Stmt.classDecl name superclass methods).move t.left) tasks s)
      (Machine.execute ((Stmt.classDecl name superclass methods).move t.right) tasks' s') := by
  cases superclass with
  | none =>
      obtain ⟨w', grows, states, _⟩ :=
        abreast.states.declareClass t name .none (covers_cons.mp covers).2
      exact ⟨w', grows, (abreast.later grows.within states).gives .nil⟩
  | some reference =>
      obtain ⟨_, covers⟩ := covers_cons.mp covers
      obtain ⟨_, covers⟩ := covers_cons.mp covers
      obtain ⟨paired, ofMethods⟩ := covers_cons.mp covers
      have read := abreast.states.read t (paired reference.id rfl)
      simp only [Stmt.move, Option.map_some, Machine.execute]
      revert read
      generalize s.read (reference.move t.left) = a
      generalize s'.read (reference.move t.right) = a'
      intro read
      cases read with
      | returned related => exact .still (abreast.gives (.returned related)) .refl
      | failed related => exact .still (abreast.gives (.failed related)) .refl
      | value related =>
          cases related with
          | cls ofClass =>
              obtain ⟨w', grows, states, _⟩ :=
                abreast.states.declareClass t name (.some ofClass) ofMethods
              exact ⟨w', grows, (abreast.later grows.within states).gives .nil⟩
          | _ => exact .still (abreast.failAt t reference.name _) .refl

/-- A block is entered in new frames. -/
theorem executeBlock (abreast : Abreast σ w below below' tasks tasks' s s') (t : Twin σ)
    {body : List Stmt} (covers : w.Covers t (actsBody body)) :
    Continues σ w below below' s s' (Machine.execute (.block (moveBody t.left body)) tasks s)
      (Machine.execute (.block (moveBody t.right body)) tasks' s') := by
  obtain ⟨w', grows, states, envs⟩ :=
    abreast.states.extend abreast.states.context.env
      (show ∀ name, Option.Rel (ValueMatch σ w) (Bindings.find? name []) (Bindings.find? name [])
        from fun _ => .none)
  have within := grows.within
  unfold Machine.execute
  refine ⟨w', grows.toSimilar ⟨rfl, rfl, rfl, rfl⟩ ⟨rfl, rfl, rfl, rfl⟩, .intro (.give .nil) ?_
    (states.core.inContext ⟨envs, abreast.states.context.base, abreast.states.context.depth⟩)⟩
  exact .task (.body t body (covers.mono within))
    (.task (.leave (abreast.states.context.mono within)) (abreast.left.mono within))

theorem execute (abreast : Abreast σ w below below' tasks tasks' s s') (t : Twin σ) {stmt : Stmt}
    (covers : w.Covers t stmt.acts) :
    Continues σ w below below' s s' (Machine.execute (stmt.move t.left) tasks s)
      (Machine.execute (stmt.move t.right) tasks' s') := by
  cases stmt with
  | block body => exact abreast.executeBlock t covers
  | classDecl name superclass methods => exact abreast.executeClass t name covers
  | expression expr => exact .still (abreast.eval t covers) .refl
  | funDecl decl =>
      obtain ⟨w', grows, states, _⟩ := abreast.states.declareFunction t (covers_cons.mp covers).2
      have given := (abreast.later grows.within states).gives .nil
      simp only [Stmt.move, Machine.execute, FunDecl.move_name, Token.move_lexeme]
      exact ⟨w', grows, given⟩
  | ifElse condition thenBranch elseBranch =>
      cases elseBranch with
      | none =>
          obtain ⟨tested, others⟩ := covers_append.mp covers
          refine .still ((abreast.push (.choose t thenBranch none (covers_cons.mp others).2 ?_)).eval t
            tested) .refl
          exact fun _ none => by cases none
      | some elseBranch =>
          obtain ⟨tested, others⟩ := covers_append.mp covers
          obtain ⟨ofThen, ofElse⟩ := covers_append.mp others
          refine .still ((abreast.push (.choose t thenBranch (some elseBranch)
            (covers_cons.mp ofThen).2 ?_)).eval t tested) .refl
          rintro stmt ⟨⟩
          exact (covers_cons.mp ofElse).2
  | inclusion path => exact .still (.intro (.awaitFile t path) abreast.left abreast.states) .refl
  | print value =>
      exact .still ((abreast.push (.print (value.mainLine_matches t))).eval t covers) .refl
  | ret keyword value =>
      cases value with
      | none => exact .still (abreast.gives (.returned .nil)) .refl
      | some value => exact .still ((abreast.push .ret).eval t (covers_cons.mp covers).2) .refl
  | varDecl name init =>
      cases init with
      | none =>
          obtain ⟨grows, states⟩ := abreast.states.define name.lexeme .nil
          exact .still ((abreast.later (.refl w) states).gives .nil) grows
      | some init => exact .still ((abreast.push (.define t name)).eval t (covers_cons.mp covers).2) .refl
  | whileLoop condition body =>
      obtain ⟨tested, others⟩ := covers_append.mp covers
      exact .still ((abreast.push (.loopBody t condition body tested (covers_cons.mp others).2)).eval t
        tested) .refl

/-! ## Carrying out tasks -/

/-- The answer of a call whose body has ended. -/
theorem answerValue (abreast : Abreast σ w below below' tasks tasks' s s') {answer answer' : Answer}
    (answers : AnswerMatch σ w answer answer') {returned returned' : Option Value}
    (related : Option.Rel (ValueMatch σ w) returned returned') :
    ValueMatch σ w (Machine.answerValue answer returned s)
      (Machine.answerValue answer' returned' s') := by
  have default : ∀ {value? value'? : Option Value}, Option.Rel (ValueMatch σ w) value? value'? →
      ValueMatch σ w (value?.getD .nil) (value'?.getD .nil) := by
    intro value? value'? related
    cases related with
    | none => exact .nil
    | some related => exact related
  cases answers with
  | result => exact default related
  | receiver envs => exact default (abreast.states.core.store.getAt? envs 0 "this")
  | made ofInstance => exact .inst ofInstance

/-- The context that was saved comes back. -/
theorem inContext (abreast : Abreast σ w below below' tasks tasks' s s') {context context' : Context}
    (contexts : ContextMatch σ w context context') :
    Abreast σ w below below' tasks tasks' (s.setContext context) (s'.setContext context') :=
  ⟨abreast.left, abreast.states.core.inContext contexts⟩

theorem grows_setContext {context context' : Context} :
    StateGrows w s s' w (s.setContext context) (s'.setContext context') :=
  StateGrows.refl.toSimilar ⟨rfl, rfl, rfl, rfl⟩ ⟨rfl, rfl, rfl, rfl⟩

theorem resume (abreast : Abreast σ w below below' tasks tasks' s s') {value value' : Value}
    (related : ValueMatch σ w value value') {task task' : Task}
    (first : TaskMatch σ w task task') :
    MayContinue σ w below below' s s' (Machine.resume value task tasks s)
      (Machine.resume value' task' tasks' s') := by
  cases first with
  | assign t target paired =>
      obtain ⟨found, grows, states⟩ := abreast.states.assign t paired related
      refine (Continues.still ?_ grows).mayContinue
      unfold Machine.resume
      dsimp only
      rw [found]
      split
      · exact (abreast.later (.refl w) states).givesValue related
      · exact (abreast.later (.refl w) states).failAt t target.name _
  | rightOperand t operator right covers =>
      exact (Continues.still ((abreast.push (.operate t operator related)).eval t covers) .refl).mayContinue
  | operate t operator relatedLeft =>
      have equals := relatedLeft.equals related abreast.states.core.store.identities.iff
        abreast.states.core.store.objects.iff
      exact (Continues.still (abreast.gives (operate_matches t operator relatedLeft related equals))
        .refl).mayContinue
  | operateUnary t operator =>
      exact (Continues.still (abreast.gives (operateUnary_matches t operator related)) .refl).mayContinue
  | decide t operator right covers =>
      unfold Machine.resume
      dsimp only
      rw [decidesAlone_matches t operator related]
      split
      · exact (Continues.still (abreast.givesValue related) .refl).mayContinue
      · exact (Continues.still (abreast.eval t covers) .refl).mayContinue
  | firstArgument t paren args covers =>
      cases args with
      | nil => exact abreast.call t related .nil paren
      | cons arg args =>
          obtain ⟨ofArg, ofArgs⟩ := covers_append.mp covers
          exact (Continues.still ((abreast.push (.nextArgument t paren args ofArgs related .nil)).eval t
            ofArg) .refl).mayContinue
  | nextArgument t paren args covers relatedCallee each =>
      cases args with
      | nil => exact abreast.call t relatedCallee (List.rel_reverse (.cons related each)) paren
      | cons arg args =>
          obtain ⟨ofArg, ofArgs⟩ := covers_append.mp covers
          exact (Continues.still ((abreast.push (.nextArgument t paren args ofArgs relatedCallee
            (.cons related each))).eval t ofArg) .refl).mayContinue
  | get t name => exact (abreast.getProperty t related name).mayContinue
  | storedValue t name stored covers =>
      cases related with
      | inst ofInstance =>
          exact (Continues.still ((abreast.push (.set t name ofInstance)).eval t covers) .refl).mayContinue
      | _ => exact (Continues.still (abreast.failAt t name _) .refl).mayContinue
  | set t name ofInstance =>
      obtain ⟨grows, cores⟩ := abreast.states.core.setField ofInstance name.lexeme related
      exact (Continues.still ((abreast.later (.refl w) ⟨cores, abreast.states.context⟩).givesValue related)
        grows).mayContinue
  | define t name =>
      obtain ⟨grows, states⟩ := abreast.states.define name.lexeme related
      exact (Continues.still ((abreast.later (.refl w) states).gives .nil) grows).mayContinue
  | print lines =>
      rw [Machine.resume_print, Machine.resume_print, related.text]
      exact (abreast.writes _ lines).mayContinue
  | ret => exact (Continues.still (abreast.gives (.returned related)) .refl).mayContinue
  | choose t thenBranch elseBranch covers coversElse =>
      unfold Machine.resume
      dsimp only
      rw [related.isTruthy]
      split
      · exact (Continues.still (abreast.exec t covers) .refl).mayContinue
      · cases elseBranch with
        | none => exact (Continues.still (abreast.gives .nil) .refl).mayContinue
        | some stmt => exact (Continues.still (abreast.exec t (coversElse stmt rfl)) .refl).mayContinue
  | loopBody t condition body tested covers =>
      unfold Machine.resume
      dsimp only
      rw [related.isTruthy]
      split
      · exact (Continues.still ((abreast.push (.loopAgain t condition body tested covers)).exec t
          covers) .refl).mayContinue
      · exact (Continues.still (abreast.gives .nil) .refl).mayContinue
  | loopAgain t condition body tested covers =>
      exact (Continues.still ((abreast.push (.loopBody t condition body tested covers)).eval t tested)
        .refl).mayContinue
  | body t stmts covers =>
      cases stmts with
      | nil => exact (Continues.still (abreast.gives .nil) .refl).mayContinue
      | cons stmt stmts =>
          obtain ⟨ofStmt, others⟩ := covers_append.mp covers
          exact (Continues.still ((abreast.push (.body t stmts others)).exec t ofStmt) .refl).mayContinue
  | program t stmts covers =>
      cases stmts with
      | nil => exact (Continues.still (abreast.gives .nil) .refl).mayContinue
      | cons stmt stmts =>
          obtain ⟨ofStmt, others⟩ := covers_append.mp covers
          exact (Continues.still ((abreast.push (.program t stmts others)).exec t ofStmt) .refl).mayContinue
  | leave contexts =>
      exact (Continues.still ((abreast.inContext contexts).gives .nil) grows_setContext).mayContinue
  | finishCall contexts lines answers =>
      exact (Continues.still ((abreast.inContext contexts).givesValue
        (abreast.answerValue answers .none)) grows_setContext).mayContinue
  | finishInclusion contexts =>
      exact (Continues.still ((abreast.inContext contexts).gives .nil) grows_setContext).mayContinue

theorem unwind (abreast : Abreast σ w below below' tasks tasks' s s') {value value' : Value}
    (related : ValueMatch σ w value value') {task task' : Task}
    (first : TaskMatch σ w task task') :
    Continues σ w below below' s s' (Machine.unwind value task tasks s)
      (Machine.unwind value' task' tasks' s') := by
  cases first with
  | program t stmts covers =>
      exact .still ((abreast.push (.program t stmts covers)).gives .nil) .refl
  | leave contexts =>
      exact .still ((abreast.inContext contexts).gives (.returned related)) grows_setContext
  | finishCall contexts lines answers =>
      exact .still ((abreast.inContext contexts).givesValue
        (abreast.answerValue answers (.some related))) grows_setContext
  | finishInclusion contexts =>
      exact .still ((abreast.inContext contexts).gives (.returned related)) grows_setContext
  | _ => exact .still (abreast.gives (.returned related)) .refl

theorem abandon (abreast : Abreast σ w below below' tasks tasks' s s') {error error' : Error}
    (related : ErrorMatch σ error error') {task task' : Task}
    (first : TaskMatch σ w task task') :
    Continues σ w below below' s s' (Machine.abandon error task tasks s)
      (Machine.abandon error' task' tasks' s') := by
  cases first with
  | leave contexts =>
      exact .still ((abreast.inContext contexts).gives (.failed related)) grows_setContext
  | finishCall contexts lines answers =>
      exact .still ((abreast.inContext contexts).gives (.failed (related.withLineIfMissing lines)))
        grows_setContext
  | finishInclusion contexts =>
      exact .still ((abreast.inContext contexts).gives (.failed related)) grows_setContext
  | _ => exact .still (abreast.gives (.failed related)) .refl

/-- A file is included: both runs find the same text, if there is any. -/
theorem provide (abreast : Abreast σ w below below' tasks tasks' s s') (t : Twin σ)
    (answer : Except Failure String) (path : Token) {place place' : String}
    (bases : σ.bases ((Path.parent? place).getD "") ((Path.parent? place').getD "")) :
    MayContinue σ w below below' s s'
      (Machine.provide answer (path.move t.left) place tasks s)
      (Machine.provide answer (path.move t.right) place' tasks' s') := by
  unfold Machine.provide
  rw [Token.move_pathText, Token.move_pathText]
  cases answer with
  | error failure => exact (Continues.still (abreast.failAt t path _) .refl).mayContinue
  | ok source =>
      dsimp only
      rcases Program.compile_twice s.nextReference s'.nextReference source with
        ⟨errors, rejected, rejected'⟩ | ⟨base, checked, compiled, compiled'⟩
      · rw [rejected, rejected']
        exact (Continues.still (abreast.gives (.failed (.inclusion (t.lines path.line) _ errors)))
          .refl).mayContinue
      · rw [compiled, compiled']
        dsimp only
        obtain ⟨w', grows, cores, covers⟩ := abreast.states.core.loadText
          (Program.compile_checked compiled).numbered (Program.compile_checked compiled').numbered
        have states : StateMatch σ w' _ _ := ⟨cores, abreast.states.context.mono grows.within⟩
        have loaded := abreast.later grows.within states
        have included : ContextMatch σ w'
            ⟨State.globals, (Path.parent? place).getD "", s.context.depth + 1⟩
            ⟨State.globals, (Path.parent? place').getD "", s'.context.depth + 1⟩ := by
          refine ⟨.cons cores.store.globals .nil, bases, ?_⟩
          have depth := abreast.states.context.depth
          dsimp only
          omega
        have continues : Continues σ w' below below' _ _ _ _ :=
          .still (((loaded.push (.finishInclusion states.context)).push
            (.program (.renumber σ s.nextReference s'.nextReference) base.stmts covers)).inContext
            included |>.gives .nil) grows_setContext
        rcases loaded.deepens t path continues with related | overflows
        · exact .inl (.after grows related)
        · exact .inr overflows

end Abreast

/-- Matching stacks are those below, or both have a first task. -/
theorem StackMatch.bottom_or_task {σ : Leeway} {w : Pairing} {below below' tasks tasks' : List Task}
    (left : StackMatch σ w below below' tasks tasks') :
    (tasks = below ∧ tasks' = below') ∨
      ∃ task rest task' rest', tasks = task :: rest ∧ tasks' = task' :: rest' ∧
        TaskMatch σ w task task' ∧ StackMatch σ w below below' rest rest' := by
  cases left with
  | bottom => exact .inl ⟨rfl, rfl⟩
  | task first others => exact .inr ⟨_, _, _, _, rfl, rfl, first, others⟩

/--
A step keeps machines in match, as long as they are not done above the stacks below, and what they
include is the same text.
-/
theorem MachineMatch.advance {σ : Leeway} {w : Pairing} {below below' : List Task} {m m' : Machine}
    (related : MachineMatch σ w below below' m m') (busy : ¬ m.Gives below)
    {files : String → Except Failure String} (agree : Agree σ files m m') :
    MayContinue σ w below below' m.state m'.state (m.advance files) (m'.advance files) := by
  obtain @⟨control, control', tasks, tasks', s, s', doing, left, states⟩ := related
  have abreast : Abreast σ w below below' tasks tasks' s s' := ⟨left, states⟩
  cases doing with
  | eval t expr covers => exact (abreast.evaluate t covers).mayContinue
  | exec t stmt covers => exact (abreast.execute t covers).mayContinue
  | exited code => exact (Continues.still (.intro (.exited code) left states) .refl).mayContinue
  | awaitFile t path =>
      obtain ⟨files', bases⟩ := agree _ _ _ _ rfl rfl
      have provided := abreast.provide t (files (Path.join s.context.base path.pathText)) path bases
      show MayContinue σ w below below' s s'
        (Machine.provide (files (Path.join s.context.base path.pathText)) _ _ tasks s)
        (Machine.provide (files (Path.join s'.context.base path.pathText)) _ _ tasks' s')
      rwa [← files']
  | give outcome =>
      rcases left.bottom_or_task with ⟨rfl, _⟩ | ⟨task, rest, task', rest', rfl, rfl, first, others⟩
      · exact absurd ⟨_, rfl, rfl⟩ busy
      · have abreast : Abreast σ w below below' rest rest' s s' := ⟨others, states⟩
        cases outcome with
        | value related => exact abreast.resume related first
        | returned related => exact (abreast.unwind related first).mayContinue
        | failed related => exact (abreast.abandon related first).mayContinue

/-- Machines that include from the same directory include the same. -/
theorem MachineMatch.agree {σ : Leeway} {w : Pairing} {below below' : List Task} {m m' : Machine}
    (related : MachineMatch σ w below below' m m') (sameBases : σ.bases = Eq)
    (files : String → Except Failure String) : Agree σ files m m' := by
  obtain ⟨doing, left, states⟩ := related
  have same := states.context.base
  rw [sameBases] at same
  intro path path' place place' awaits awaits'
  cases doing with
  | awaitFile t path =>
      cases awaits
      cases awaits'
      rw [same, sameBases]
      exact ⟨rfl, rfl⟩
  | _ => cases awaits

end Lox
