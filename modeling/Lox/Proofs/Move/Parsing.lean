import Lox.Proofs.Move.Trees

/-!
# Parsing a text that was moved

Parsers look at the kinds of tokens, and at the words that literals stand for; lines and numbers
they only hand on.  So what is read of a moved text is what is read of the text, moved as well,
with all its faults.
-/

namespace Lox.Parse

/--
A way of moving texts, and what becomes of errors by it.  Parsers know of errors only that they
can be made at tokens, so all else that becomes of them may be anything.
-/
structure Relabelling extends Move where
  error : Error → Error
  staticAt : ∀ token fault, error (.staticAt token fault) = .staticAt (token.move toMove) fault

instance : Coe Relabelling Move := ⟨Relabelling.toMove⟩

/-- Errors are moved with the text. -/
def Relabelling.ofMove (m : Move) : Relabelling := ⟨m, Error.move m, fun _ _ => rfl⟩

variable {α β γ δ : Type} {m : Relabelling}

/--
The state of a reading, and that of the reading of the moved text.  The end of both texts is marked
by a token, so the end token that is made up where there is none is never seen.
-/
structure State.Moved (m : Relabelling) (s s' : State) : Prop where
  tokens : s'.tokens = s.tokens.map (Token.move m)
  next : s'.next = s.next + m.offset
  errors : s'.errors = s.errors.map m.error
  seed : s'.seed = s.seed.map (Expr.move m)
  ended : ∃ eof ∈ s.tokens, eof.kind = .eof

/-- What two readings come to, if the second answers as told what the first one answers. -/
inductive MovedResult (m : Relabelling) (f : α → β) :
    EStateM.Result Error State α → EStateM.Result Error State β → Prop where
  | ok {s s' : State} (a : α) (moved : s.Moved m s') : MovedResult m f (.ok a s) (.ok (f a) s')
  | error {s s' : State} (error : Error) (moved : s.Moved m s') :
      MovedResult m f (.error error s) (.error (m.error error) s')

/-- Of a moved text, the second parser reads what the first reads of the text, moved as told. -/
def Moves (m : Relabelling) (f : α → β) (read : Parser α) (read' : Parser β) : Prop :=
  ∀ s s' : State, s.Moved m s' → MovedResult m f (read s) (read' s')

section Rules

variable {f : α → β} {g : γ → δ} {read : Parser α} {read' : Parser β}

theorem Moves.pure (f : α → β) (a : α) : Moves m f (pure a) (pure (f a)) :=
  fun _ _ moved => .ok a moved

theorem Moves.bind {next : α → Parser γ} {next' : β → Parser δ} (first : Moves m f read read')
    (then' : ∀ a, Moves m g (next a) (next' (f a))) :
    Moves m g (read >>= next) (read' >>= next') := by
  intro s s' moved
  have start := first s s' moved
  simp only [Bind.bind, EStateM.bind]
  revert start
  generalize read s = result
  generalize read' s' = result'
  intro start
  cases start with
  | error error after => exact .error error after
  | ok a after => exact then' a _ _ after

theorem Moves.map {h : α → γ} {h' : β → δ} (first : Moves m f read read')
    (same : ∀ a, h' (f a) = g (h a)) : Moves m g (h <$> read) (h' <$> read') := by
  rw [map_eq_pure_bind, map_eq_pure_bind]
  refine first.bind fun a => ?_
  rw [same]
  exact .pure g (h a)

end Rules

namespace State.Moved

variable {s s' : State}

theorem tokens_ne_nil (moved : s.Moved m s') : s.tokens ≠ [] := by
  obtain ⟨_, held, _⟩ := moved.ended
  exact List.ne_nil_of_mem held

/-- The token at the front is moved with the text. -/
theorem peek (moved : s.Moved m s') : s'.peek = s.peek.move m := by
  unfold State.peek
  rw [moved.tokens]
  cases left : s.tokens with
  | nil => exact absurd left moved.tokens_ne_nil
  | cons token others => rfl

/-- Nothing moves past the end token, so that one stays among those that are left. -/
theorem advance (moved : s.Moved m s') : s.advance.Moved m s'.advance := by
  unfold State.advance
  rw [moved.peek, Token.move_kind]
  split
  · exact moved
  · next inside =>
      cases left : s.tokens with
      | nil => exact absurd left moved.tokens_ne_nil
      | cons token others =>
          have left' := moved.tokens
          rw [left, List.map_cons] at left'
          obtain ⟨eof, held, isEof⟩ := moved.ended
          have front : s.peek = token := by rw [State.peek, left, List.headD_cons]
          have behind : eof ∈ others := by
            rw [left] at held
            refine (List.mem_cons.mp held).resolve_left fun same => inside ?_
            rw [front, ← same]
            exact isEof
          rw [left']
          refine ⟨rfl, ?_, moved.errors, moved.seed, eof, behind, isEof⟩
          exact (congrArg (· + 1) moved.next).trans (Nat.add_right_comm ..)

theorem record (moved : s.Moved m s') (error : Error) :
    (s.record error).Moved m (s'.record (m.error error)) := by
  refine ⟨moved.tokens, moved.next, ?_, moved.seed, moved.ended⟩
  simp only [State.record, moved.errors, Array.map_push]

end State.Moved

theorem moves_peek : Moves m (Token.move m) peek peek := by
  intro s s' moved
  unfold peek
  rw [moved.peek]
  exact .ok s.peek moved

theorem moves_check (kind : Kind) : Moves m id (check kind) (check kind) := by
  intro s s' moved
  unfold check
  rw [moved.peek]
  exact .ok _ moved

theorem moves_advance : Moves m (Reference.move m) advance advance := by
  intro s s' moved
  unfold advance
  rw [moved.peek, moved.next]
  exact .ok (Reference.mk s.next s.peek) moved.advance

theorem moves_accept? (kinds : List Kind) :
    Moves m (Option.map (Reference.move m)) (accept? kinds) (accept? kinds) := by
  unfold accept?
  refine moves_peek.bind fun token => ?_
  rw [Token.move_kind]
  split
  · exact moves_advance.map fun _ => rfl
  · exact .pure _ none

theorem moves_plant (operand : Expr) : Moves m id (plant operand) (plant (operand.move m)) :=
  fun _ _ moved => .ok () ⟨moved.tokens, moved.next, moved.errors, rfl, moved.ended⟩

theorem moves_isSeeded : Moves m id isSeeded isSeeded := by
  intro s s' moved
  unfold isSeeded
  rw [moved.seed, Option.isSome_map]
  exact .ok _ moved

theorem moves_takeSeed : Moves m (Option.map (Expr.move m)) takeSeed takeSeed := by
  intro s s' moved
  unfold takeSeed
  rw [moved.seed]
  exact .ok s.seed ⟨moved.tokens, moved.next, moved.errors, rfl, moved.ended⟩

theorem moves_failAt (f : α → β) (token : Token) (fault : StaticFault) :
    Moves m f (failAt token fault) (failAt (token.move m) fault) := by
  intro s s' moved
  unfold failAt
  rw [← m.staticAt]
  exact .error _ moved

theorem moves_fail (f : α → β) (fault : StaticFault) : Moves m f (fail fault) (fail fault) := by
  intro s s' moved
  unfold fail
  rw [moved.peek, ← m.staticAt]
  exact .error _ moved

theorem moves_recordAt (token : Token) (fault : StaticFault) :
    Moves m id (recordAt token fault) (recordAt (token.move m) fault) := by
  intro s s' moved
  unfold recordAt
  rw [← m.staticAt]
  exact .ok () (moved.record _)

theorem moves_expect (kind : Kind) (what : Expected) :
    Moves m (Reference.move m) (expect kind what) (expect kind what) := by
  unfold expect
  refine (moves_accept? [kind]).bind fun taken => ?_
  cases taken with
  | none => exact moves_fail _ _
  | some taken => exact .pure _ taken

/-! ## Lists of items -/

section Lists

variable {f : α → β}

theorem moves_manyUntil (stop : Kind → Bool) {item : Parser (Option α)}
    {item' : Parser (Option β)} (moves : Moves m (Option.map f) item item') (bound : Nat) :
    Moves m (List.map f) (manyUntil stop item bound) (manyUntil stop item' bound) := by
  induction bound with
  | zero => exact .pure _ []
  | succ bound ih =>
      unfold manyUntil
      refine moves_peek.bind fun token => ?_
      rw [Token.move_kind]
      split
      · exact .pure _ []
      · refine moves.bind fun first => ih.bind fun others => ?_
        have joined : (first.map f).toList ++ others.map f =
            (first.toList ++ others).map f := by
          cases first <;> rfl
        rw [joined]
        exact .pure _ (first.toList ++ others)

theorem moves_afterCommas {item : Nat → Parser α} {item' : Nat → Parser β}
    (moves : ∀ count, Moves m f (item count) (item' count)) (bound count : Nat) :
    Moves m (List.map f) (afterCommas item bound count) (afterCommas item' bound count) := by
  induction bound generalizing count with
  | zero => exact .pure _ []
  | succ bound ih =>
      unfold afterCommas
      refine (moves_accept? [.comma]).bind fun comma => ?_
      cases comma with
      | none => exact .pure _ []
      | some comma =>
          exact (moves count).bind fun next => (ih (count + 1)).bind fun others =>
            .pure _ (next :: others)

theorem moves_commaSeparated {item : Nat → Parser α} {item' : Nat → Parser β}
    (moves : ∀ count, Moves m f (item count) (item' count)) (bound : Nat) :
    Moves m (List.map f) (commaSeparated item bound) (commaSeparated item' bound) := by
  unfold commaSeparated
  refine (moves_check .rightParen).bind fun closed => ?_
  cases closed with
  | true => exact .pure _ []
  | false =>
      exact (moves 0).bind fun first => (moves_afterCommas moves bound 1).bind fun others =>
        .pure _ (first :: others)

end Lists

/-! ## Expressions -/

/-- A parser of expressions that reads moved texts as it reads texts. -/
def MovesExpr (m : Relabelling) (read read' : Parser Expr) : Prop :=
  Moves m (Expr.move m) read read'

/-- The node of a level is moved by moving its parts. -/
theorem move_node {level : Level} (held : level ∈ levels) (left right : Expr) (operator : Token) :
    (level.node left operator right).move m =
      level.node (left.move m) (operator.move m) (right.move m) := by
  simp only [levels, List.mem_cons, List.not_mem_nil, or_false] at held
  rcases held with rfl | rfl | rfl | rfl | rfl | rfl <;> rfl

theorem moves_chain {level : Level} (held : level ∈ levels) {operand : Parser Expr}
    (moves : MovesExpr m operand operand) (bound : Nat) (left : Expr) :
    MovesExpr m (chain level operand bound left) (chain level operand bound (left.move m)) := by
  induction bound generalizing left with
  | zero => exact .pure _ left
  | succ bound ih =>
      unfold chain
      refine (moves_accept? level.operators).bind fun operator => ?_
      cases operator with
      | none => exact .pure _ left
      | some operator =>
          refine moves.bind fun right => ?_
          have node := move_node (m := m) held left right operator.name
          exact node ▸ ih (level.node left operator.name right)

theorem moves_climb {operand : Parser Expr} (moves : MovesExpr m operand operand) (bound : Nat)
    {tighter : List Level} (held : ∀ level ∈ tighter, level ∈ levels) :
    MovesExpr m (climb operand bound tighter) (climb operand bound tighter) := by
  induction tighter with
  | nil => exact moves
  | cons level tighter ih =>
      have inner := ih fun level isTighter => held level (List.mem_cons_of_mem _ isTighter)
      exact inner.bind fun left => moves_chain (held level List.mem_cons_self) inner bound left

theorem moves_argument {expr : Parser Expr} (moves : MovesExpr m expr expr) (count : Nat) :
    MovesExpr m (argument expr count) (argument expr count) := by
  unfold argument
  split
  · exact moves_peek.bind fun token => (moves_recordAt token .tooManyArguments).bind fun _ => moves
  · exact moves

theorem moves_finishCall {expr : Parser Expr} (moves : MovesExpr m expr expr) (bound : Nat)
    (callee : Expr) :
    MovesExpr m (finishCall expr bound callee) (finishCall expr bound (callee.move m)) := by
  unfold finishCall
  refine (moves_commaSeparated (moves_argument moves) bound).bind fun args => ?_
  refine (moves_expect .rightParen .argumentsEnd).bind fun paren => ?_
  rw [← moveAll_eq_map]
  exact .pure (Expr.move m) (.call callee paren.name args)

theorem moves_callChain {expr : Parser Expr} (moves : MovesExpr m expr expr) (bound : Nat)
    (callee : Expr) :
    MovesExpr m (callChain expr bound callee) (callChain expr bound (callee.move m)) := by
  induction bound generalizing callee with
  | zero => exact .pure _ callee
  | succ bound ih =>
      unfold callChain
      refine (moves_accept? [.leftParen]).bind fun paren => ?_
      cases paren with
      | some paren => exact (moves_finishCall moves bound callee).bind fun call => ih call
      | none =>
          refine (moves_accept? [.dot]).bind fun dot => ?_
          cases dot with
          | some dot =>
              exact (moves_expect .identifier .propertyName).bind fun name =>
                ih (.get callee name.name)
          | none => exact .pure _ callee

theorem moves_primaryForms {expr : Parser Expr} (moves : MovesExpr m expr expr) :
    MovesExpr m (primaryForms expr) (primaryForms expr) := by
  unfold primaryForms
  refine (moves_accept? literalKinds).bind fun token => ?_
  cases token with
  | some token => exact .pure (Expr.move m) (.literal token.name.value)
  | none =>
  refine (moves_accept? [.superWord]).bind fun keyword => ?_
  cases keyword with
  | some keyword =>
      exact (moves_expect .dot .superDot).bind fun _ =>
        (moves_expect .identifier .superMethod).bind fun method =>
          .pure (Expr.move m) (.super keyword method.name)
  | none =>
  refine (moves_accept? [.thisWord]).bind fun keyword => ?_
  cases keyword with
  | some keyword => exact .pure (Expr.move m) (.this keyword)
  | none =>
  refine (moves_accept? [.identifier, .printWord]).bind fun name => ?_
  cases name with
  | some name => exact .pure (Expr.move m) (.var name)
  | none =>
  refine (moves_accept? [.leftParen]).bind fun paren => ?_
  cases paren with
  | some paren =>
      exact moves.bind fun inner => (moves_expect .rightParen .groupingEnd).bind fun _ =>
        .pure (Expr.move m) (.grouping inner)
  | none => exact moves_fail _ _

theorem moves_primary {expr : Parser Expr} (moves : MovesExpr m expr expr) :
    MovesExpr m (primary expr) (primary expr) := by
  unfold primary
  refine moves_takeSeed.bind fun seed => ?_
  cases seed with
  | some operand => exact .pure _ operand
  | none => exact moves_primaryForms moves

theorem moves_call {expr : Parser Expr} (moves : MovesExpr m expr expr) (bound : Nat) :
    MovesExpr m (call expr bound) (call expr bound) :=
  (moves_primary moves).bind fun callee => moves_callChain moves bound callee

theorem moves_seedAlone : MovesExpr m seedAlone seedAlone := by
  unfold seedAlone
  refine moves_takeSeed.bind fun seed => ?_
  cases seed with
  | some operand => exact .pure _ operand
  | none => exact moves_fail _ _

theorem moves_unary {expr : Parser Expr} (moves : MovesExpr m expr expr) (bound : Nat) :
    MovesExpr m (unary expr bound) (unary expr bound) := by
  induction bound with
  | zero => exact moves_seedAlone
  | succ bound ih =>
      unfold unary
      refine moves_isSeeded.bind fun seeded => ?_
      cases seeded with
      | true => exact moves_call moves (bound + 1)
      | false =>
          refine (moves_accept? [.bang, .minus]).bind fun operator => ?_
          cases operator with
          | some operator =>
              exact ih.bind fun operand => .pure (Expr.move m) (.unary operator.name operand)
          | none => exact moves_call moves (bound + 1)

theorem moves_assignmentTo {expr : Parser Expr} (moves : MovesExpr m expr expr) (target : Expr) :
    MovesExpr m (assignmentTo expr target) (assignmentTo expr (target.move m)) := by
  unfold assignmentTo
  refine (moves_accept? [.equal]).bind fun equals => ?_
  cases equals with
  | none => exact .pure _ target
  | some equals =>
      refine moves.bind fun value => ?_
      cases target with
      | var name => exact .pure (Expr.move m) (.assign name value)
      | get object name => exact .pure (Expr.move m) (.set object name value)
      | _ =>
          exact (moves_recordAt equals.name .invalidAssignmentTarget).bind fun _ =>
            .pure (Expr.move m) _

theorem moves_assignment {expr : Parser Expr} (moves : MovesExpr m expr expr) (bound : Nat) :
    MovesExpr m (assignment expr bound) (assignment expr bound) :=
  (moves_climb (moves_unary moves bound) bound fun _ held => held).bind fun target =>
    moves_assignmentTo moves target

theorem moves_expression (bound : Nat) : MovesExpr m (expression bound) (expression bound) := by
  induction bound with
  | zero => exact moves_seedAlone
  | succ bound ih => exact moves_assignment ih (bound + 1)

theorem moves_expressionFrom (bound : Nat) (operand : Expr) :
    MovesExpr m (expressionFrom bound operand) (expressionFrom bound (operand.move m)) :=
  (moves_plant operand).bind fun _ => moves_expression bound

/-! ## Statements -/

/-- A parser of statements that reads moved texts as it reads texts. -/
def MovesStmt (m : Relabelling) (read : Parser Stmt) : Prop := Moves m (Stmt.move m) read read

/-- So for declarations, of which faulty ones are dropped. -/
def MovesDecl (m : Relabelling) (read : Parser (Option Stmt)) : Prop :=
  Moves m (Option.map (Stmt.move m)) read read

theorem State.Moved.skip {s s' : State} (moved : s.Moved m s') (bound : Nat) :
    (s.skip bound).Moved m (s'.skip bound) := by
  induction bound generalizing s s' with
  | zero => exact moved
  | succ bound ih =>
      unfold State.skip
      rw [moved.peek, moved.advance.peek, Token.move_kind, Token.move_kind]
      split
      · exact moved
      · split
        · exact moved.advance
        · exact ih moved.advance

theorem State.Moved.skipToStatement {s s' : State} (moved : s.Moved m s') :
    s.skipToStatement.Moved m s'.skipToStatement := by
  unfold State.skipToStatement
  rw [moved.tokens, List.length_map]
  exact moved.skip s.tokens.length

theorem moves_recovering {read : Parser Stmt} (moves : MovesStmt m read) :
    MovesDecl m (recovering read) := by
  intro s s' moved
  have reading := moves s s' moved
  unfold recovering
  revert reading
  generalize read s = result
  generalize read s' = result'
  intro reading
  cases reading with
  | ok stmt after => exact .ok (some stmt) after
  | error error after => exact .ok none (after.record error).skipToStatement

theorem moves_blockBody {declaration : Parser (Option Stmt)} (moves : MovesDecl m declaration)
    (bound : Nat) :
    Moves m (moveBody m) (blockBody declaration bound) (blockBody declaration bound) := by
  unfold blockBody
  refine (moves_manyUntil closesBlock moves bound).bind fun body => ?_
  refine (moves_expect .rightBrace .blockEnd).bind fun _ => ?_
  rw [← moveBody_eq_map]
  exact .pure _ body

theorem moves_parameter (count : Nat) :
    Moves m (Token.move m) (parameter count) (parameter count) := by
  have named : Moves m (Token.move m)
      (do let name ← expect .identifier .parameterName; pure name.name)
      (do let name ← expect .identifier .parameterName; pure name.name) :=
    (moves_expect .identifier .parameterName).bind fun name => .pure (Token.move m) name.name
  unfold parameter
  split
  · exact moves_peek.bind fun token =>
      (moves_recordAt token .tooManyParameters).bind fun _ => named
  · exact named

theorem moves_function (kind : FunKind) {declaration : Parser (Option Stmt)}
    (moves : MovesDecl m declaration) (bound : Nat) :
    Moves m (FunDecl.move m) (function kind declaration bound)
      (function kind declaration bound) := by
  unfold function
  refine (moves_expect .identifier kind.nameExpected).bind fun name => ?_
  refine (moves_expect .leftParen kind.paramsExpected).bind fun _ => ?_
  refine (moves_commaSeparated moves_parameter bound).bind fun params => ?_
  refine (moves_expect .rightParen .paramsEnd).bind fun _ => ?_
  refine (moves_expect .leftBrace kind.bodyExpected).bind fun _ => ?_
  exact (moves_blockBody moves bound).bind fun body =>
    .pure (FunDecl.move m) ⟨name.name, params, body⟩

theorem moves_classDeclaration {declaration : Parser (Option Stmt)}
    (moves : MovesDecl m declaration) (bound : Nat) :
    MovesStmt m (classDeclaration declaration bound) := by
  unfold classDeclaration
  refine (moves_expect .identifier .className).bind fun name => ?_
  have body : ∀ superclass : Option Reference, Moves m (Stmt.move m)
      (do let _ ← expect .leftBrace .classBodyStart
          let methods ← manyUntil closesBlock (some <$> function .method declaration bound) bound
          let _ ← expect .rightBrace .classBodyEnd
          pure (.classDecl name.name superclass methods))
      (do let _ ← expect .leftBrace .classBodyStart
          let methods ← manyUntil closesBlock (some <$> function .method declaration bound) bound
          let _ ← expect .rightBrace .classBodyEnd
          pure (.classDecl (name.name.move m) (superclass.map (Reference.move m)) methods)) := by
    intro superclass
    refine (moves_expect .leftBrace .classBodyStart).bind fun _ => ?_
    refine (moves_manyUntil closesBlock ((moves_function .method moves bound).map fun _ => rfl)
      bound).bind fun methods => ?_
    refine (moves_expect .rightBrace .classBodyEnd).bind fun _ => ?_
    rw [← moveMethods_eq_map]
    exact .pure (Stmt.move m) (.classDecl name.name superclass methods)
  refine (moves_accept? [.less]).bind fun less => ?_
  cases less with
  | some less =>
      exact Moves.bind ((moves_expect .identifier .superclassName).map fun _ => rfl) body
  | none => exact Moves.bind (.pure (Option.map (Reference.move m)) none) body

theorem moves_varDeclaration (bound : Nat) : MovesStmt m (varDeclaration bound) := by
  unfold varDeclaration
  refine (moves_expect .identifier .variableName).bind fun name => ?_
  have ending : ∀ init : Option Expr, Moves m (Stmt.move m)
      (do let _ ← expect .semicolon .variableEnd
          pure (.varDecl name.name init))
      (do let _ ← expect .semicolon .variableEnd
          pure (.varDecl (name.name.move m) (init.map (Expr.move m)))) := fun init =>
    (moves_expect .semicolon .variableEnd).bind fun _ =>
      .pure (Stmt.move m) (.varDecl name.name init)
  refine (moves_accept? [.equal]).bind fun equals => ?_
  cases equals with
  | some equals => exact Moves.bind ((moves_expression bound).map fun _ => rfl) ending
  | none => exact Moves.bind (.pure (Option.map (Expr.move m)) none) ending

theorem moves_expressionStatement (bound : Nat) : MovesStmt m (expressionStatement bound) := by
  unfold expressionStatement
  exact (moves_expression bound).bind fun expr =>
    (moves_expect .semicolon .expressionEnd).bind fun _ => .pure (Stmt.move m) (.expression expr)

theorem moves_printCall (keyword : Reference) (bound : Nat) :
    Moves m (Stmt.move m) (printCall keyword bound) (printCall (keyword.move m) bound) := by
  unfold printCall
  refine (moves_accept? [.leftParen]).bind fun _ => ?_
  refine (moves_commaSeparated (moves_argument (moves_expression bound)) bound).bind
    fun args => ?_
  refine (moves_expect .rightParen .argumentsEnd).bind fun paren => ?_
  refine (moves_accept? [.semicolon]).bind fun semicolon => ?_
  have call : (Expr.call (.var keyword) paren.name args).move m =
      .call (.var (keyword.move m)) (paren.name.move m) (args.map (Expr.move m)) := by
    rw [Expr.move, Expr.move, moveAll_eq_map]
  have goesOn : Moves m (Stmt.move m)
      (do let expr ← callChain (expression bound) bound (.call (.var keyword) paren.name args)
          let _ ← expect .semicolon .expressionEnd
          pure (.expression expr))
      (do let expr ← callChain (expression bound) bound
            (.call (.var (keyword.move m)) (paren.name.move m) (args.map (Expr.move m)))
          let _ ← expect .semicolon .expressionEnd
          pure (.expression expr)) := by
    rw [← call]
    exact (moves_callChain (moves_expression bound) bound _).bind fun expr =>
      (moves_expect .semicolon .expressionEnd).bind fun _ => .pure (Stmt.move m) (.expression expr)
  cases semicolon with
  | some semicolon =>
      have answer : Moves m (Stmt.move m) _ _ :=
        .pure (Stmt.move m) (.expression (.call (.var keyword) paren.name args))
      rw [Stmt.move, call] at answer
      exact answer
  | none =>
      cases args with
      | nil => exact goesOn
      | cons arg others =>
          cases others with
          | nil =>
              exact (moves_expressionFrom bound (.grouping arg)).bind fun value =>
                (moves_expect .semicolon .valueEnd).bind fun _ => .pure (Stmt.move m) (.print value)
          | cons other others => exact goesOn

theorem moves_printStatement (keyword : Reference) (bound : Nat) :
    Moves m (Stmt.move m) (printStatement keyword bound)
      (printStatement (keyword.move m) bound) := by
  unfold printStatement
  refine (moves_check .leftParen).bind fun opened => ?_
  cases opened with
  | true => exact moves_printCall keyword bound
  | false =>
      exact (moves_expression bound).bind fun value =>
        (moves_expect .semicolon .valueEnd).bind fun _ => .pure (Stmt.move m) (.print value)

theorem moves_optionalExpression (stop : Kind) (bound : Nat) :
    Moves m (Option.map (Expr.move m)) (optionalExpression stop bound)
      (optionalExpression stop bound) := by
  unfold optionalExpression
  refine (moves_check stop).bind fun stops => ?_
  cases stops with
  | true => exact .pure _ none
  | false => exact (moves_expression bound).map fun _ => rfl

theorem moves_returnStatement (keyword : Token) (bound : Nat) :
    Moves m (Stmt.move m) (returnStatement keyword bound)
      (returnStatement (keyword.move m) bound) := by
  unfold returnStatement
  have ending : ∀ value : Option Expr, Moves m (Stmt.move m)
      (do let _ ← expect .semicolon .returnEnd
          pure (.ret keyword value))
      (do let _ ← expect .semicolon .returnEnd
          pure (.ret (keyword.move m) (value.map (Expr.move m)))) := fun value =>
    (moves_expect .semicolon .returnEnd).bind fun _ => .pure (Stmt.move m) (.ret keyword value)
  refine (moves_check .semicolon).bind fun stops => ?_
  cases stops with
  | true => exact Moves.bind (.pure (Option.map (Expr.move m)) none) ending
  | false => exact Moves.bind ((moves_expression bound).map fun _ => rfl) ending

theorem moves_includeStatement (keyword : Token) :
    Moves m (Stmt.move m) (includeStatement keyword) (includeStatement (keyword.move m)) := by
  unfold includeStatement
  refine (moves_accept? [.string]).bind fun path => ?_
  cases path with
  | none => exact moves_failAt _ keyword (.expected .includePath)
  | some path =>
      exact (moves_expect .semicolon .includeEnd).bind fun _ =>
        .pure (Stmt.move m) (.inclusion path.name)

theorem moves_ifStatement {statement : Parser Stmt} (moves : MovesStmt m statement)
    (bound : Nat) : MovesStmt m (ifStatement statement bound) := by
  unfold ifStatement
  refine (moves_expect .leftParen .ifStart).bind fun _ => ?_
  refine (moves_expression bound).bind fun condition => ?_
  refine (moves_expect .rightParen .ifEnd).bind fun _ => ?_
  refine moves.bind fun thenBranch => ?_
  have ending : ∀ elseBranch : Option Stmt, Moves m (Stmt.move m)
      (pure (.ifElse condition thenBranch elseBranch))
      (pure (.ifElse (condition.move m) (thenBranch.move m)
        (elseBranch.map (Stmt.move m)))) := by
    intro elseBranch
    cases elseBranch with
    | none => exact .pure (Stmt.move m) (.ifElse condition thenBranch none)
    | some elseBranch => exact .pure (Stmt.move m) (.ifElse condition thenBranch (some elseBranch))
  refine (moves_accept? [.elseWord]).bind fun elseWord => ?_
  cases elseWord with
  | some elseWord => exact Moves.bind (moves.map fun _ => rfl) ending
  | none => exact Moves.bind (.pure (Option.map (Stmt.move m)) none) ending

theorem moves_whileStatement {statement : Parser Stmt} (moves : MovesStmt m statement)
    (bound : Nat) : MovesStmt m (whileStatement statement bound) := by
  unfold whileStatement
  refine (moves_expect .leftParen .whileStart).bind fun _ => ?_
  refine (moves_expression bound).bind fun condition => ?_
  refine (moves_expect .rightParen .whileEnd).bind fun _ => ?_
  exact moves.bind fun body => .pure (Stmt.move m) (.whileLoop condition body)

theorem moves_forInitializer (bound : Nat) :
    Moves m (Option.map (Stmt.move m)) (forInitializer bound) (forInitializer bound) := by
  unfold forInitializer
  refine (moves_accept? [.semicolon]).bind fun semicolon => ?_
  cases semicolon with
  | some semicolon => exact .pure _ none
  | none =>
  refine (moves_accept? [.varWord]).bind fun varWord => ?_
  cases varWord with
  | some varWord => exact (moves_varDeclaration bound).bind fun stmt => .pure _ (some stmt)
  | none => exact (moves_expressionStatement bound).bind fun stmt => .pure _ (some stmt)

theorem move_forLoop (init : Option Stmt) (condition increment : Option Expr) (body : Stmt) :
    (forLoop init condition increment body).move m =
      forLoop (init.map (Stmt.move m)) (condition.map (Expr.move m))
        (increment.map (Expr.move m)) (body.move m) := by
  cases init <;> cases condition <;> cases increment <;> rfl

theorem moves_forStatement {statement : Parser Stmt} (moves : MovesStmt m statement)
    (bound : Nat) : MovesStmt m (forStatement statement bound) := by
  unfold forStatement
  refine (moves_expect .leftParen .forStart).bind fun _ => ?_
  refine (moves_forInitializer bound).bind fun init => ?_
  refine (moves_optionalExpression .semicolon bound).bind fun condition => ?_
  refine (moves_expect .semicolon .forConditionEnd).bind fun _ => ?_
  refine (moves_optionalExpression .rightParen bound).bind fun increment => ?_
  refine (moves_expect .rightParen .forEnd).bind fun _ => ?_
  refine moves.bind fun body => ?_
  rw [← move_forLoop]
  exact .pure (Stmt.move m) (forLoop init condition increment body)

theorem moves_statementForms {statement : Parser Stmt} {declaration : Parser (Option Stmt)}
    (moves : MovesStmt m statement) (movesDecl : MovesDecl m declaration) (bound : Nat) :
    MovesStmt m (statementForms statement declaration bound) := by
  unfold statementForms
  refine (moves_accept? [.forWord]).bind fun word => ?_
  cases word with
  | some word => exact moves_forStatement moves bound
  | none =>
  refine (moves_accept? [.ifWord]).bind fun word => ?_
  cases word with
  | some word => exact moves_ifStatement moves bound
  | none =>
  refine (moves_accept? [.includeWord]).bind fun keyword => ?_
  cases keyword with
  | some keyword => exact moves_includeStatement keyword.name
  | none =>
  refine (moves_accept? [.printWord]).bind fun keyword => ?_
  cases keyword with
  | some keyword => exact moves_printStatement keyword bound
  | none =>
  refine (moves_accept? [.returnWord]).bind fun keyword => ?_
  cases keyword with
  | some keyword => exact moves_returnStatement keyword.name bound
  | none =>
  refine (moves_accept? [.whileWord]).bind fun word => ?_
  cases word with
  | some word => exact moves_whileStatement moves bound
  | none =>
  refine (moves_accept? [.leftBrace]).bind fun brace => ?_
  cases brace with
  | some brace =>
      exact (moves_blockBody movesDecl bound).bind fun body =>
        .pure (Stmt.move m) (.block body)
  | none => exact moves_expressionStatement bound

theorem moves_declarationForms {statement : Parser Stmt} {declaration : Parser (Option Stmt)}
    (moves : MovesStmt m statement) (movesDecl : MovesDecl m declaration) (bound : Nat) :
    MovesStmt m (declarationForms statement declaration bound) := by
  unfold declarationForms
  refine (moves_accept? [.classWord]).bind fun word => ?_
  cases word with
  | some word => exact moves_classDeclaration movesDecl bound
  | none =>
  refine (moves_accept? [.funWord]).bind fun word => ?_
  cases word with
  | some word =>
      exact (moves_function .function movesDecl bound).bind fun decl =>
        .pure (Stmt.move m) (.funDecl decl)
  | none =>
  refine (moves_accept? [.varWord]).bind fun word => ?_
  cases word with
  | some word => exact moves_varDeclaration bound
  | none => exact moves

theorem moves_statement_and_declaration (bound : Nat) :
    MovesStmt m (statement bound) ∧ MovesDecl m (declaration bound) := by
  induction bound with
  | zero =>
      exact ⟨moves_expressionStatement 0, moves_recovering (moves_expressionStatement 0)⟩
  | succ bound ih =>
      obtain ⟨moves, movesDecl⟩ := ih
      have forms := moves_statementForms moves movesDecl (bound + 1)
      exact ⟨forms, moves_recovering (moves_declarationForms forms movesDecl (bound + 1))⟩

/-! ## Whole programs -/

theorem State.moved_start (first : Nat) {tokens : List Token}
    (ended : ∃ eof ∈ tokens, eof.kind = .eof) :
    (State.start first tokens).Moved m
      (State.start (first + m.offset) (tokens.map (Token.move m))) :=
  ⟨rfl, rfl, Array.map_empty.symm, rfl, ended⟩

def Parsed.move (m : Relabelling) (parsed : Parsed) : Parsed :=
  ⟨moveBody m parsed.stmts, parsed.errors.map m.error⟩

/-- A moved program is parsed as the program is, faults included. -/
theorem program_move (first : Nat) {tokens : List Token}
    (ended : ∃ eof ∈ tokens, eof.kind = .eof) :
    program (first + m.offset) (tokens.map (Token.move m)) = (program first tokens).move m := by
  have reading := moves_manyUntil (· == .eof)
    (moves_statement_and_declaration tokens.length).2 tokens.length _ _
    (State.moved_start (m := m) first ended)
  unfold program
  rw [List.length_map]
  dsimp only
  revert reading
  generalize manyUntil (· == .eof) (declaration tokens.length) tokens.length
    (State.start first tokens) = result
  generalize manyUntil (· == .eof) (declaration tokens.length) tokens.length
    (State.start (first + m.offset) (tokens.map (Token.move m))) = result'
  intro reading
  cases reading with
  | ok stmts after =>
      simp only [Parsed.move, moveBody_eq_map, after.errors, Array.toList_map]
  | error error after =>
      simp only [Parsed.move, moveBody, after.errors, Array.toList_map, List.map_append,
        List.map_cons, List.map_nil]

/-- A static error as it is, and one of them in place of any other error. -/
def toStatic (error : Error) : Error :=
  if error.isStatic then error else .lexical 0 .unexpectedCharacter

theorem isStatic_toStatic (error : Error) : (toStatic error).isStatic = true := by
  unfold toStatic
  split
  · next isStatic => exact isStatic
  · rfl

/-- Everything stays but the errors that are not static. -/
def exchangingErrors : Relabelling :=
  ⟨.renumber 0, toStatic, fun _ _ => rfl⟩

/-- Parsing finds static faults only: an error that is another one could be exchanged for one. -/
theorem program_static (first : Nat) {tokens : List Token}
    (ended : ∃ eof ∈ tokens, eof.kind = .eof) :
    ∀ error ∈ (program first tokens).errors, error.isStatic = true := by
  have still : tokens.map (Token.move exchangingErrors) = tokens :=
    (List.map_congr_left fun _ _ => rfl).trans (List.map_id tokens)
  have moved : program first (tokens.map (Token.move exchangingErrors)) =
      (program first tokens).move exchangingErrors := program_move first ended
  rw [still] at moved
  intro error held
  rw [moved] at held
  obtain ⟨original, _, rfl⟩ := List.mem_map.mp held
  exact isStatic_toStatic original

end Lox.Parse
