import Lox.Proofs.Parse.Exactness
import Lox.Proofs.Parse.Pace
import Lox.Proofs.Parse.Recovery

/-!
# Parsing makes progress

Each declaration that is begun in front of a token consumes one at least, whether it is read or
fails, so every sequence of tokens is read to its end; and no more faults are found than two for
each token.
-/

namespace Lox.Parse

variable {α : Type} {n bound bound' : Nat}

/-! ## Recovery -/

/-- Recovery skips the same tokens whatever follows them. -/
theorem EndsLike.skipToStatement {s : State} {beyond : List Token} (alike : EndsLike s beyond) :
    (s.endingWith beyond).skipToStatement = s.skipToStatement.endingWith beyond := by
  obtain ⟨advances, errors⟩ := s.advances_skipToStatement
  obtain ⟨advances', errors'⟩ := (s.endingWith beyond).advances_skipToStatement
  rw [alike.rest] at advances'
  exact advances'.unique (alike.advances advances).2 (errors'.trans errors.symm)

/-- A declaration makes progress, whether its statement is read or fails. -/
theorem paces_recovering {read read' : Parser Stmt} (paces : Paces n .spared 1 read read')
    (some : 0 < n) : Paces n .double 1 (recovering read) (recovering read') := by
  intro s beyond long unseeded alike
  have start := paces s beyond long unseeded alike
  unfold recovering
  revert start
  generalize read s = result
  generalize read' (s.endingWith beyond) = result'
  intro start
  cases start with
  | ok spends => exact .ok (spends.mono Rate.spared_double (Nat.le_refl 1))
  | @error error t spends =>
      have alike := (Spends.record t error).endsLike (spends.endsLike alike)
      show Abreast _ _ _ _ _ (.ok none ((t.record error).endingWith beyond).skipToStatement)
      rw [alike.skipToStatement]
      apply Abreast.ok
      obtain ⟨tokens, advances, _, errors⟩ := spends
      obtain ⟨dropped, skips, sameErrors, resumes⟩ := (t.record error).skipToStatement_resumes
      have recorded : (t.record error).errors.size = t.errors.size + 1 := Array.size_push _
      have total := advances.length
      have moved : 0 < tokens.length + dropped.length := by
        cases left : t.rest with
        | nil =>
            rw [left, List.length_nil] at total
            omega
        | cons token rest =>
            have goes := resumes.progress (left ▸ List.cons_ne_nil token rest)
            exact Nat.add_pos_right _ (List.length_pos_iff.mpr goes)
      have onward := (t.advances_record error).trans skips
      refine ⟨tokens ++ dropped, advances.trans onward, ?_, ?_⟩
      · rw [List.length_append]
        exact moved
      · rw [sameErrors, recorded, List.length_append]
        simp only [Rate.cost] at errors ⊢
        omega

/-! ## Loops -/

theorem Paces.peek {rate : Rate} {m : Nat} {next next' : Token → Parser α} (some : 0 < n)
    (paces : ∀ token, Paces n rate m (next token) (next' token)) :
    Paces n rate m (Parse.peek >>= next) (Parse.peek >>= next') := by
  intro s beyond long unseeded alike
  cases left : s.rest with
  | nil =>
      rw [left] at long
      exact absurd long (Nat.ne_of_lt some)
  | cons token rest =>
      have front := State.peek_cons left
      have front' : (s.endingWith beyond).peek = token := State.peek_cons (alike.rest.trans left)
      simp only [Bind.bind, EStateM.bind, Parse.peek, front, front']
      exact paces token s beyond long unseeded alike

theorem manyUntil_nil {stop : Kind → Bool} (stops : stop .eof = true) (item : Parser (Option α))
    (bound : Nat) {s : State} (atEnd : s.rest = []) : manyUntil stop item bound s = .ok [] s := by
  cases bound with
  | zero => rfl
  | succ bound =>
      simp only [manyUntil, Bind.bind, EStateM.bind, peek, State.peek_nil atEnd, s.kind_ending,
        stops]
      rfl

/-- Each round of a loop consumes a token, so no more rounds are needed than there are tokens. -/
theorem paces_manyUntil {stop : Kind → Bool} (stops : stop .eof = true)
    {item item' : Parser (Option α)}
    (paces : ∀ k, 0 < k → k ≤ n → Paces k .double 1 item item') (enough : n ≤ bound)
    (enough' : n ≤ bound') :
    Paces n .double 0 (manyUntil stop item bound) (manyUntil stop item' bound') := by
  induction n using Nat.strongRecOn generalizing bound bound' with
  | ind n ih =>
      cases n with
      | zero =>
          exact .of_answers (fun _ atEnd => manyUntil_nil stops item bound atEnd)
            fun _ atEnd => manyUntil_nil stops item' bound' atEnd
      | succ n =>
          cases bound with
          | zero => cases enough
          | succ bound =>
          cases bound' with
          | zero => cases enough'
          | succ bound' =>
          unfold manyUntil
          refine .peek n.succ_pos fun token => ?_
          cases stop token.kind with
          | true => exact .pure []
          | false =>
              refine ((paces (n + 1) n.succ_pos (Nat.le_refl _)).keep (fun k first fewer => ?_)
                Rate.joins_double).loose
              refine (ih k fewer ?_ ?_ ?_).andThen (fun _ others _ => .pure _) Rate.joins_double
              · exact fun k' some less => paces k' some (by omega)
              · omega
              · omega

theorem paces_expect_double {kind : Kind} (inside : kind ≠ .eof) {what : Expected} :
    Paces n .double 0 (expect kind what) (expect kind what) :=
  (paces_expect inside what).mono Rate.single_double (Nat.zero_le 1)

/-- A parser that answers what it was made of, once a token of some kind is behind it. -/
theorem paces_closed {kind : Kind} (inside : kind ≠ .eof) (what : Expected) (a : α) :
    Paces n .double 0
      (do let _ ← expect kind what
          pure a)
      (do let _ ← expect kind what
          pure a) :=
  (paces_expect_double inside).andThen (fun _ _ _ => .pure a) Rate.joins_double

section Declarations

variable {declaration declaration' : Parser (Option Stmt)}

theorem paces_blockBody
    (paces : ∀ k, 0 < k → k ≤ n → Paces k .double 1 declaration declaration') (enough : n ≤ bound)
    (enough' : n ≤ bound') :
    Paces n .double 0 (blockBody declaration bound) (blockBody declaration' bound') := by
  unfold blockBody
  exact (paces_manyUntil rfl paces enough enough').andThen (fun _ body _ =>
    paces_closed (by decide) _ body) Rate.joins_double

/-- One parameter is never too many. -/
theorem paces_firstParameter : Paces n .single 0 (parameter 0) (parameter 0) :=
  (paces_expect (by decide) .parameterName).loose.andThen (fun _ name _ => .pure name.name)
    Rate.joins_single

theorem paces_parameter (count : Nat) : Paces n .late 0 (parameter count) (parameter count) := by
  unfold parameter
  split
  · exact paces_recordFront .tooManyParameters paces_firstParameter
  · exact paces_firstParameter.mono Rate.single_late (Nat.le_refl 0)

theorem paces_function (kind : FunKind)
    (paces : ∀ k, 0 < k → k < n → Paces k .double 1 declaration declaration') (enough : n ≤ bound)
    (enough' : n ≤ bound') :
    Paces n .spared 1 (function kind declaration bound) (function kind declaration' bound') := by
  unfold function
  refine (paces_expect (by decide) kind.nameExpected).keep (fun k name fewer => ?_)
    Rate.joins_spared
  refine (paces_expect_double (by decide)).andThen (fun k₁ _ _ => ?_) Rate.joins_double
  have params : Paces k₁ .single 0 (commaSeparated parameter bound)
      (commaSeparated parameter bound') :=
    paces_commaSeparated (fun _ _ => paces_firstParameter) (fun _ count _ => paces_parameter count)
      (by omega) (by omega)
  refine (params.mono Rate.single_double (Nat.le_refl 0)).andThen (fun k₂ params _ => ?_)
    Rate.joins_double
  refine (paces_expect_double (by decide)).andThen (fun k₃ _ _ => ?_) Rate.joins_double
  refine (paces_expect_double (by decide)).andThen (fun k₄ _ _ => ?_) Rate.joins_double
  refine (paces_blockBody (fun k' some less => paces k' some (by omega)) ?_ ?_).andThen
    (fun _ body _ => .pure _) Rate.joins_double
  · omega
  · omega

theorem paces_classDeclaration
    (paces : ∀ k, 0 < k → k < n → Paces k .double 1 declaration declaration') (enough : n ≤ bound)
    (enough' : n ≤ bound') :
    Paces n .spared 1 (classDeclaration declaration bound)
      (classDeclaration declaration' bound') := by
  unfold classDeclaration
  refine (paces_expect (by decide) .className).keep (fun k name fewer => ?_) Rate.joins_spared
  have methods (k' : Nat) (less : k' < n) : Paces k' .double 0
      (manyUntil closesBlock (some <$> function .method declaration bound) bound)
      (manyUntil closesBlock (some <$> function .method declaration' bound') bound') := by
    refine paces_manyUntil rfl (fun k'' _ less' => ?_) (by omega) (by omega)
    have method : Paces k'' .spared 1 (function .method declaration bound)
        (function .method declaration' bound') :=
      paces_function .method (fun k₃ some less'' => paces k₃ some (by omega)) (by omega) (by omega)
    exact (method.map some).mono Rate.spared_double (Nat.le_refl 1)
  have body (k' : Nat) (less : k' < n) (superclass : Option Reference) : Paces k' .double 0
      (do let _ ← expect .leftBrace .classBodyStart
          let methods ← manyUntil closesBlock (some <$> function .method declaration bound) bound
          let _ ← expect .rightBrace .classBodyEnd
          pure (Stmt.classDecl name.name superclass methods))
      (do let _ ← expect .leftBrace .classBodyStart
          let methods ← manyUntil closesBlock (some <$> function .method declaration' bound') bound'
          let _ ← expect .rightBrace .classBodyEnd
          pure (Stmt.classDecl name.name superclass methods)) := by
    refine (paces_expect_double (by decide)).andThen (fun k₁ _ _ => ?_) Rate.joins_double
    refine (methods k₁ (by omega)).andThen (fun k₂ methods _ => ?_) Rate.joins_double
    exact paces_closed (by decide) _ _
  refine .accept (by decide) (fun k₁ less few => ?_) ?_ Rate.joins_free (Nat.zero_le 1)
  · exact ((paces_expect_double (by decide)).map some).andThen
      (fun k₂ superclass _ => body k₂ (by omega) superclass) Rate.joins_double
  · exact Paces.andThen (.pure none) (fun k₂ superclass _ => body k₂ (by omega) superclass)
      Rate.joins_double

end Declarations

/-! ## Statements -/

section Statements

theorem paces_expression_double (enough : n ≤ bound) (enough' : n ≤ bound') :
    Paces n .double 0 (expression bound) (expression bound') :=
  (paces_expression enough enough').mono Rate.single_double (Nat.zero_le 1)

theorem paces_varDeclaration (enough : n ≤ bound) (enough' : n ≤ bound') :
    Paces n .spared 1 (varDeclaration bound) (varDeclaration bound') := by
  unfold varDeclaration
  refine (paces_expect (by decide) .variableName).keep (fun k name fewer => ?_) Rate.joins_spared
  have ending (k' : Nat) (init : Option Expr) : Paces k' .double 0
      (do let _ ← expect .semicolon .variableEnd
          pure (Stmt.varDecl name.name init))
      (do let _ ← expect .semicolon .variableEnd
          pure (Stmt.varDecl name.name init)) :=
    paces_closed (by decide) _ _
  refine .accept (by decide) (fun k₁ equals less => ?_) ?_ Rate.joins_free (Nat.zero_le 1)
  · have init : Paces k₁ .double 0 (some <$> expression bound) (some <$> expression bound') :=
      (paces_expression_double (by omega) (by omega)).map some
    exact init.andThen (fun k₂ init _ => ending k₂ init) Rate.joins_double
  · exact Paces.andThen (.pure none) (fun k₂ init _ => ending k₂ init) Rate.joins_double

theorem paces_expressionStatement (enough : n ≤ bound) (enough' : n ≤ bound') :
    Paces n .spared 1 (expressionStatement bound) (expressionStatement bound') := by
  unfold expressionStatement
  exact (paces_expression enough enough').keep (fun _ expr _ => paces_closed (by decide) _ _)
    Rate.joins_spared

theorem paces_printCall (keyword : Reference) (enough : n ≤ bound) (enough' : n ≤ bound') :
    Paces n .double 0 (printCall keyword bound) (printCall keyword bound') := by
  have inner (k : Nat) (fewer : k ≤ n) :
      Paces k .single 1 (expression bound) (expression bound') :=
    paces_expression (by omega) (by omega)
  have called (k : Nat) (fewer : k ≤ n) (callee : Expr) : Paces k .double 0
      (do let expr ← callChain (expression bound) bound callee
          let _ ← expect .semicolon .expressionEnd
          pure (Stmt.expression expr))
      (do let expr ← callChain (expression bound') bound' callee
          let _ ← expect .semicolon .expressionEnd
          pure (Stmt.expression expr)) := by
    have chain : Paces k .single 0 (callChain (expression bound) bound callee)
        (callChain (expression bound') bound' callee) :=
      paces_callChain (fun k' less => inner k' (by omega)) (by omega) (by omega) callee
    exact (chain.mono Rate.single_double (Nat.le_refl 0)).andThen (fun _ expr _ =>
      paces_closed (by decide) _ _) Rate.joins_double
  have args (k : Nat) (fewer : k ≤ n) : Paces k .double 0
      (commaSeparated (argument (expression bound)) bound)
      (commaSeparated (argument (expression bound')) bound') := by
    refine (paces_commaSeparated (fun k' less => ?_) (fun k' count less => ?_) ?_ ?_).mono
      Rate.single_double (Nat.le_refl 0)
    · exact paces_firstArgument (inner k' (by omega))
    · exact paces_argument (inner k' (by omega)) count
    · omega
    · omega
  unfold printCall
  refine (paces_accept? (by decide)).andThen (fun k _ fewer => ?_) Rate.joins_double
  refine (args k fewer).andThen (fun k₁ args _ => ?_) Rate.joins_double
  refine (paces_expect_double (by decide)).andThen (fun k₂ paren _ => ?_) Rate.joins_double
  refine .accept (by decide) (fun k₃ semicolon _ => .pure _) ?_ Rate.joins_free (Nat.zero_le 1)
  cases args with
  | nil => exact called k₂ (by omega) _
  | cons arg others =>
      cases others with
      | nil =>
          have value : Paces k₂ .single 0 (expressionFrom bound (.grouping arg))
              (expressionFrom bound' (.grouping arg)) :=
            paces_expressionFrom (by omega) (by omega) (.grouping arg)
          exact (value.mono Rate.single_double (Nat.le_refl 0)).andThen (fun _ value _ =>
            paces_closed (by decide) _ _) Rate.joins_double
      | cons other others => exact called k₂ (by omega) _

theorem paces_printStatement (keyword : Reference) (enough : n ≤ bound) (enough' : n ≤ bound') :
    Paces n .double 0 (printStatement keyword bound) (printStatement keyword bound') := by
  unfold printStatement
  refine (paces_check .leftParen).andThen (fun k opened fewer => ?_) Rate.joins_double
  cases opened with
  | true => exact paces_printCall keyword (by omega) (by omega)
  | false =>
      exact (paces_expression_double (by omega) (by omega)).andThen (fun _ value _ =>
        paces_closed (by decide) _ _) Rate.joins_double

/-- An expression may be left out before a token of a kind. -/
theorem paces_optionalExpression (stop : Kind) (enough : n ≤ bound) (enough' : n ≤ bound') :
    Paces n .double 0 (optionalExpression stop bound) (optionalExpression stop bound') := by
  unfold optionalExpression
  refine (paces_check stop).andThen (fun k stops fewer => ?_) Rate.joins_double
  cases stops with
  | true => exact .pure none
  | false => exact (paces_expression_double (by omega) (by omega)).map some

theorem paces_returnStatement (keyword : Token) (enough : n ≤ bound) (enough' : n ≤ bound') :
    Paces n .double 0 (returnStatement keyword bound) (returnStatement keyword bound') := by
  have ending (k : Nat) (value : Option Expr) : Paces k .double 0
      (do let _ ← expect .semicolon .returnEnd
          pure (Stmt.ret keyword value))
      (do let _ ← expect .semicolon .returnEnd
          pure (Stmt.ret keyword value)) :=
    paces_closed (by decide) _ _
  unfold returnStatement
  refine (paces_check .semicolon).andThen (fun k stops fewer => ?_) Rate.joins_double
  cases stops with
  | true => exact Paces.andThen (.pure none) (fun k' value _ => ending k' value) Rate.joins_double
  | false =>
      have value : Paces k .double 0 (some <$> expression bound) (some <$> expression bound') :=
        (paces_expression_double (by omega) (by omega)).map some
      exact value.andThen (fun k' value _ => ending k' value) Rate.joins_double

theorem paces_includeStatement (keyword : Token) :
    Paces n .double 0 (includeStatement keyword) (includeStatement keyword) := by
  unfold includeStatement
  refine .accept (by decide) (fun k path _ => ?_) (paces_failAt keyword _) Rate.joins_free
    (Nat.zero_le 1)
  exact paces_closed (by decide) _ _

theorem paces_forInitializer (enough : n ≤ bound) (enough' : n ≤ bound') :
    Paces n .double 0 (forInitializer bound) (forInitializer bound') := by
  unfold forInitializer
  refine .accept (by decide) (fun _ semicolon _ => .pure none) ?_ Rate.joins_free (Nat.zero_le 1)
  refine .accept (by decide) (fun k word fewer => ?_) ?_ Rate.joins_free (Nat.zero_le 1)
  · have declared : Paces k .spared 1 (varDeclaration bound) (varDeclaration bound') :=
      paces_varDeclaration (by omega) (by omega)
    exact (declared.mono Rate.spared_double (Nat.zero_le 1)).andThen (fun _ stmt _ => .pure _)
      Rate.joins_double
  · exact ((paces_expressionStatement enough enough').mono Rate.spared_double
      (Nat.zero_le 1)).andThen (fun _ stmt _ => .pure _) Rate.joins_double

variable {statement statement' : Parser Stmt}

theorem paces_ifStatement (paces : ∀ k, k ≤ n → Paces k .spared 1 statement statement')
    (enough : n ≤ bound) (enough' : n ≤ bound') :
    Paces n .double 0 (ifStatement statement bound) (ifStatement statement' bound') := by
  have inner (k : Nat) (fewer : k ≤ n) : Paces k .double 0 statement statement' :=
    (paces k fewer).mono Rate.spared_double (Nat.zero_le 1)
  unfold ifStatement
  refine (paces_expect_double (by decide)).andThen (fun k _ _ => ?_) Rate.joins_double
  refine (paces_expression_double ?_ ?_).andThen (fun k₁ condition _ => ?_) Rate.joins_double
  · omega
  · omega
  refine (paces_expect_double (by decide)).andThen (fun k₂ _ _ => ?_) Rate.joins_double
  refine (inner k₂ (by omega)).andThen (fun k₃ thenBranch _ => ?_) Rate.joins_double
  refine .accept (by decide) (fun k₄ word _ => ?_) ?_ Rate.joins_free (Nat.zero_le 1)
  · exact ((inner k₄ (by omega)).map some).andThen (fun _ _ _ => .pure _) Rate.joins_double
  · exact Paces.andThen (.pure none) (fun _ _ _ => .pure _) Rate.joins_double

theorem paces_whileStatement (paces : ∀ k, k ≤ n → Paces k .spared 1 statement statement')
    (enough : n ≤ bound) (enough' : n ≤ bound') :
    Paces n .double 0 (whileStatement statement bound) (whileStatement statement' bound') := by
  unfold whileStatement
  refine (paces_expect_double (by decide)).andThen (fun k _ _ => ?_) Rate.joins_double
  refine (paces_expression_double ?_ ?_).andThen (fun k₁ condition _ => ?_) Rate.joins_double
  · omega
  · omega
  refine (paces_expect_double (by decide)).andThen (fun k₂ _ _ => ?_) Rate.joins_double
  have body := (paces k₂ (by omega)).mono Rate.spared_double (Nat.zero_le 1)
  exact body.andThen (fun _ _ _ => .pure _) Rate.joins_double

theorem paces_forStatement (paces : ∀ k, k ≤ n → Paces k .spared 1 statement statement')
    (enough : n ≤ bound) (enough' : n ≤ bound') :
    Paces n .double 0 (forStatement statement bound) (forStatement statement' bound') := by
  unfold forStatement
  refine (paces_expect_double (by decide)).andThen (fun k _ _ => ?_) Rate.joins_double
  refine (paces_forInitializer ?_ ?_).andThen (fun k₁ init _ => ?_) Rate.joins_double
  · omega
  · omega
  refine (paces_optionalExpression .semicolon ?_ ?_).andThen (fun k₂ condition _ => ?_)
    Rate.joins_double
  · omega
  · omega
  refine (paces_expect_double (by decide)).andThen (fun k₃ _ _ => ?_) Rate.joins_double
  refine (paces_optionalExpression .rightParen ?_ ?_).andThen (fun k₄ increment _ => ?_)
    Rate.joins_double
  · omega
  · omega
  refine (paces_expect_double (by decide)).andThen (fun k₅ _ _ => ?_) Rate.joins_double
  have body := (paces k₅ (by omega)).mono Rate.spared_double (Nat.zero_le 1)
  exact body.andThen (fun _ _ _ => .pure _) Rate.joins_double

variable {declaration declaration' : Parser (Option Stmt)}

theorem paces_statementForms (paces : ∀ k, k < n → Paces k .spared 1 statement statement')
    (pacesDecl : ∀ k, 0 < k → k < n → Paces k .double 1 declaration declaration')
    (enough : n ≤ bound) (enough' : n ≤ bound') :
    Paces n .spared 1 (statementForms statement declaration bound)
      (statementForms statement' declaration' bound') := by
  have one := Nat.le_refl 1
  unfold statementForms
  refine .accept (by decide) (fun k word fewer => ?_) ?_ Rate.joins_word one
  · exact paces_forStatement (fun k' less => paces k' (by omega)) (by omega) (by omega)
  refine .accept (by decide) (fun k word fewer => ?_) ?_ Rate.joins_word one
  · exact paces_ifStatement (fun k' less => paces k' (by omega)) (by omega) (by omega)
  refine .accept (by decide) (fun k keyword fewer => ?_) ?_ Rate.joins_word one
  · exact paces_includeStatement keyword.name
  refine .accept (by decide) (fun k keyword fewer => ?_) ?_ Rate.joins_word one
  · exact paces_printStatement keyword (by omega) (by omega)
  refine .accept (by decide) (fun k keyword fewer => ?_) ?_ Rate.joins_word one
  · exact paces_returnStatement keyword.name (by omega) (by omega)
  refine .accept (by decide) (fun k word fewer => ?_) ?_ Rate.joins_word one
  · exact paces_whileStatement (fun k' less => paces k' (by omega)) (by omega) (by omega)
  refine .accept (by decide) (fun k brace fewer => ?_) ?_ Rate.joins_word one
  · have body : Paces k .double 0 (blockBody declaration bound) (blockBody declaration' bound') :=
      paces_blockBody (fun k' some less => pacesDecl k' some (by omega)) (by omega) (by omega)
    exact body.andThen (fun _ _ _ => .pure _) Rate.joins_double
  · exact paces_expressionStatement enough enough'

theorem paces_declarationForms (paces : Paces n .spared 1 statement statement')
    (pacesDecl : ∀ k, 0 < k → k < n → Paces k .double 1 declaration declaration')
    (enough : n ≤ bound) (enough' : n ≤ bound') :
    Paces n .spared 1 (declarationForms statement declaration bound)
      (declarationForms statement' declaration' bound') := by
  have one := Nat.le_refl 1
  unfold declarationForms
  refine .accept (by decide) (fun k word fewer => ?_) ?_ Rate.joins_word one
  · have declared : Paces k .spared 1 (classDeclaration declaration bound)
        (classDeclaration declaration' bound') :=
      paces_classDeclaration (fun k' some less => pacesDecl k' some (by omega)) (by omega)
        (by omega)
    exact declared.mono Rate.spared_double (Nat.zero_le 1)
  refine .accept (by decide) (fun k word fewer => ?_) ?_ Rate.joins_word one
  · have declared : Paces k .spared 1 (function .function declaration bound)
        (function .function declaration' bound') :=
      paces_function .function (fun k' some less => pacesDecl k' some (by omega)) (by omega)
        (by omega)
    exact (declared.mono Rate.spared_double (Nat.zero_le 1)).andThen (fun _ decl _ => .pure _)
      Rate.joins_double
  refine .accept (by decide) (fun k word fewer => ?_) paces Rate.joins_word one
  · have declared : Paces k .spared 1 (varDeclaration bound) (varDeclaration bound') :=
      paces_varDeclaration (by omega) (by omega)
    exact declared.mono Rate.spared_double (Nat.zero_le 1)

theorem expressionStatement_nil (bound : Nat) {s : State} (atEnd : s.rest = [])
    (unseeded : s.seed = none) :
    expressionStatement bound s = .error (.staticAt s.peek (.expected .expression)) s := by
  simp only [expressionStatement, Bind.bind, EStateM.bind, expression_nil bound atEnd unseeded]

theorem statementForms_nil (statement : Parser Stmt) (declaration : Parser (Option Stmt))
    (bound : Nat) {s : State} (atEnd : s.rest = []) (unseeded : s.seed = none) :
    statementForms statement declaration bound s =
      .error (.staticAt s.peek (.expected .expression)) s := by
  simp (disch := decide) only [statementForms, Bind.bind, EStateM.bind, accept?_nil atEnd]
  exact expressionStatement_nil bound atEnd unseeded

theorem statement_nil (bound : Nat) {s : State} (atEnd : s.rest = []) (unseeded : s.seed = none) :
    Parse.statement bound s = .error (.staticAt s.peek (.expected .expression)) s := by
  cases bound with
  | zero => exact expressionStatement_nil 0 atEnd unseeded
  | succ bound => exact statementForms_nil _ _ (bound + 1) atEnd unseeded

/-- The bounds of statements and declarations do not matter. -/
theorem paces_statement_and_declaration (enough : n ≤ bound) (enough' : n ≤ bound') :
    Paces n .spared 1 (Parse.statement bound) (Parse.statement bound') ∧
      (0 < n → Paces n .double 1 (Parse.declaration bound) (Parse.declaration bound')) := by
  induction n using Nat.strongRecOn generalizing bound bound' with
  | ind n ih =>
      cases n with
      | zero =>
          refine ⟨?_, fun none => (Nat.lt_irrefl 0 none).elim⟩
          exact .of_fails (fun _ atEnd => statement_nil bound atEnd)
            fun _ atEnd => statement_nil bound' atEnd
      | succ n =>
          cases bound with
          | zero => cases enough
          | succ bound =>
          cases bound' with
          | zero => cases enough'
          | succ bound' =>
          have inner (k : Nat) (fewer : k < n + 1) :
              Paces k .spared 1 (Parse.statement bound) (Parse.statement bound') :=
            (ih k fewer (by omega) (by omega)).1
          have innerDecl (k : Nat) (some : 0 < k) (fewer : k < n + 1) :
              Paces k .double 1 (Parse.declaration bound) (Parse.declaration bound') :=
            (ih k fewer (by omega) (by omega)).2 some
          have forms := paces_statementForms inner innerDecl enough enough'
          exact ⟨forms, paces_recovering (paces_declarationForms forms innerDecl enough enough')⟩

/-- Statements are what the grammar says, with statements in them that have the same bound. -/
theorem paces_statement_unfold (enough : n ≤ bound) :
    Paces n .spared 1 (Parse.statement bound)
      (statementForms (Parse.statement bound) (Parse.declaration bound) bound) := by
  cases bound with
  | zero =>
      obtain rfl := Nat.le_zero.mp enough
      exact .of_fails (fun _ atEnd => statement_nil 0 atEnd)
        fun _ atEnd => statementForms_nil _ _ 0 atEnd
  | succ bound =>
      refine paces_statementForms (fun k fewer => ?_) (fun k some fewer => ?_) enough enough
      · exact (paces_statement_and_declaration (by omega) (by omega)).1
      · exact (paces_statement_and_declaration (by omega) (by omega)).2 some

/-- So are declarations. -/
theorem paces_declaration_unfold (some : 0 < n) (enough : n ≤ bound) :
    Paces n .double 1 (Parse.declaration bound)
      (recovering (declarationForms (Parse.statement bound) (Parse.declaration bound) bound)) := by
  cases bound with
  | zero => exact absurd some (Nat.not_lt.mpr enough)
  | succ bound =>
      refine paces_recovering ?_ some
      refine paces_declarationForms ?_ (fun k some fewer => ?_) enough enough
      · refine paces_statementForms (fun k fewer => ?_) (fun k some fewer => ?_) enough enough
        · exact (paces_statement_and_declaration (by omega) (by omega)).1
        · exact (paces_statement_and_declaration (by omega) (by omega)).2 some
      · exact (paces_statement_and_declaration (by omega) (by omega)).2 some

/-- Nor do those of loops over declarations. -/
theorem paces_declarations {stop : Kind → Bool} (stops : stop .eof = true) (enough : n ≤ bound)
    (enough' : n ≤ bound') :
    Paces n .double 0 (manyUntil stop (Parse.declaration bound) bound)
      (manyUntil stop (Parse.declaration bound') bound') := by
  refine paces_manyUntil stops (fun k some fewer => ?_) enough enough'
  exact (paces_statement_and_declaration (by omega) (by omega)).2 some

end Statements

/-! ## Bounds -/

section Bounds

variable {rate : Rate} {least : Nat} {read read' : Parser α} {s t : State}

/-- What is left from the end token on stays. -/
theorem Spends.beyond (spends : Spends rate least s t) : t.endingWith s.beyond = t := by
  obtain ⟨_, advances, _⟩ := spends
  rw [← advances.beyond, t.endingWith_beyond]

/-- Parsers that keep pace read the same. -/
theorem Paces.eq (paces : Paces s.rest.length rate least read read') (unseeded : s.seed = none) :
    read s = read' s := by
  have same := paces s s.beyond rfl unseeded (.refl s)
  rw [s.endingWith_beyond] at same
  revert same
  generalize read s = result
  generalize read' s = result'
  intro same
  cases same with
  | ok spends => rw [spends.beyond]
  | error spends => rw [spends.beyond]

/-- What a parser consumed when it answered. -/
theorem Paces.spends (paces : Paces s.rest.length rate least read read)
    (unseeded : s.seed = none) {a : α} (answered : read s = .ok a t) :
    Spends rate least s t := by
  have start := paces s s.beyond rfl unseeded (.refl s)
  rw [answered] at start
  generalize read (s.endingWith s.beyond) = result' at start
  cases start with
  | ok spends => exact spends

/-- What a parser consumed, whether it answered or failed. -/
theorem Paces.spends_result (paces : Paces s.rest.length rate least read read)
    (unseeded : s.seed = none) :
    match read s with
    | .ok _ t => Spends rate 0 s t
    | .error _ t => Spends rate 0 s t := by
  have start := paces s s.beyond rfl unseeded (.refl s)
  revert start
  generalize read s = result
  generalize read (s.endingWith s.beyond) = result'
  intro start
  cases start with
  | ok spends => exact spends.mono (fun _ => Nat.le_refl _) (Nat.zero_le least)
  | error spends => exact spends

end Bounds

/-! ## Rounds of loops -/

section Rounds

variable {s : State}

/-- A declaration never fails: what is faulty is dropped. -/
theorem exists_declaration (bound : Nat) (s : State) :
    ∃ answer t, declaration bound s = .ok answer t := by
  rw [declaration_eq_recovering]
  unfold recovering
  cases attempt bound s with
  | ok stmt t => exact ⟨_, _, rfl⟩
  | error error t => exact ⟨_, _, rfl⟩

/-- Each round of a loop over declarations consumes a token, whatever it comes to. -/
theorem declaration_progresses (unseeded : s.seed = none) (some : s.rest ≠ [])
    (enough : s.rest.length ≤ bound) :
    ∃ answer t, declaration bound s = .ok answer t ∧ Spends .double 1 s t := by
  obtain ⟨answer, t, answered⟩ := exists_declaration bound s
  have paces := (paces_statement_and_declaration enough enough).2 (List.length_pos_iff.mpr some)
  exact ⟨answer, t, answered, paces.spends unseeded answered⟩

/-- So such a loop ends, at a token that it stops at. -/
theorem manyUntil_ends {stop : Kind → Bool} (stops : stop .eof = true) (unseeded : s.seed = none)
    {inner : Nat} (enough : s.rest.length ≤ inner) (rounds : s.rest.length ≤ bound) :
    ∃ stmts t, manyUntil stop (declaration inner) bound s = .ok stmts t ∧ Spends .double 0 s t ∧
      stop t.peek.kind = true := by
  have stopsHere {s : State} (atEnd : s.rest = []) : stop s.peek.kind = true := by
    rw [State.peek_nil atEnd, s.kind_ending, stops]
  induction bound generalizing s with
  | zero =>
      have atEnd := List.eq_nil_of_length_eq_zero (Nat.le_zero.mp rounds)
      exact ⟨[], s, rfl, .refl _ s, stopsHere atEnd⟩
  | succ bound ih =>
      simp only [manyUntil, Bind.bind, EStateM.bind, peek]
      cases ended : stop s.peek.kind with
      | true => exact ⟨[], s, rfl, .refl _ s, ended⟩
      | false =>
          have some : s.rest ≠ [] := by
            intro atEnd
            cases ended.symm.trans (stopsHere atEnd)
          obtain ⟨answer, t, answered, spends⟩ := declaration_progresses unseeded some enough
          have fewer := spends.length
          obtain ⟨others, u, read, more, stopped⟩ :=
            @ih t (spends.seed.trans unseeded) (by omega) (by omega)
          refine ⟨answer.toList ++ others, u, ?_, ?_, stopped⟩
          · show EStateM.bind (declaration inner) _ s = _
            unfold EStateM.bind
            rw [answered]
            show EStateM.bind (manyUntil stop (declaration inner) bound) _ t = _
            unfold EStateM.bind
            rw [read]
            rfl
          · exact spends.trans more Rate.joins_double (Nat.zero_le _)

end Rounds

/-! ## Whole sequences -/

section Sequences

variable {first : Nat} {tokens tokens' before after : List Token} {eof : Token}

/-- No more is read of a sequence than its tokens before the first end token. -/
theorem State.rest_start_length (first : Nat) (tokens : List Token) :
    (State.start first tokens).rest.length ≤ tokens.length :=
  (List.takeWhile_prefix _).length_le

/-- Sequences are read the same that have the same tokens up to an end token on the same line. -/
theorem read_alike
    (rest : (State.start first tokens').rest = (State.start first tokens).rest)
    (line : (State.start first tokens').ending.line = (State.start first tokens).ending.line) :
    program first tokens' = program first tokens ∧
      expression? first tokens' = expression? first tokens := by
  have enough := State.rest_start_length first tokens
  have enough' := State.rest_start_length first tokens'
  have same : (State.start first tokens).endingWith (State.start first tokens').beyond =
      State.start first tokens' := by
    unfold State.endingWith
    rw [← rest, State.rest_append_beyond]
    rfl
  have alike : EndsLike (State.start first tokens) (State.start first tokens').beyond :=
    ⟨(EndsLike.refl _).stops, by rw [same, line]⟩
  rw [rest] at enough'
  unfold program expression?
  constructor
  · have start := @paces_declarations _ _ _ (· == .eof) rfl enough enough' _ _ rfl rfl alike
    rw [same] at start
    revert start
    dsimp only
    generalize manyUntil _ _ _ (State.start first tokens) = result
    generalize manyUntil _ _ _ (State.start first tokens') = result'
    intro start
    cases start with
    | ok spends => rfl
    | error spends => rfl
  · have start := paces_expression enough enough' _ _ rfl rfl alike
    rw [same] at start
    revert start
    generalize expression _ (State.start first tokens) = result
    generalize expression _ (State.start first tokens') = result'
    intro start
    cases start with
    | ok spends => rfl
    | error spends => rfl

/-- What comes behind the first end token is not looked at. -/
theorem read_append (isEof : eof.kind = .eof) :
    program first (before ++ eof :: after) = program first (before ++ [eof]) ∧
      expression? first (before ++ eof :: after) = expression? first (before ++ [eof]) := by
  have stops (others : List Token) :
      (eof :: others).takeWhile (fun token => token.kind != .eof) = [] :=
    List.takeWhile_cons_of_neg (by simp [isEof])
  have goesOn (others : List Token) :
      (eof :: others).dropWhile (fun token => token.kind != .eof) = eof :: others :=
    List.dropWhile_cons_of_neg (by simp [isEof])
  have rest : (State.start first (before ++ eof :: after)).rest =
      (State.start first (before ++ [eof])).rest := by
    simp only [State.rest, State.start, List.takeWhile_append, stops]
  refine read_alike rest (congrArg Token.line ?_)
  unfold State.ending
  rw [rest]
  simp only [State.beyond, State.start, List.dropWhile_append, goesOn]
  cases before.dropWhile fun token => token.kind != .eof with
  | nil => rfl
  | cons token others => rfl

/-- Without an end token there is one on the line of the last token. -/
theorem read_unended (plain : ∀ token ∈ tokens, token.kind ≠ .eof) (isEof : eof.kind = .eof)
    (line : eof.line = (tokens.getLast?.map Token.line).getD 1) :
    program first (tokens ++ [eof]) = program first tokens ∧
      expression? first (tokens ++ [eof]) = expression? first tokens := by
  have inside : ∀ token ∈ tokens, (token.kind != .eof) = true := by simpa using plain
  have rest : (State.start first tokens).rest = tokens := List.takeWhile_eq_self_iff.mpr inside
  have none : (State.start first tokens).beyond = [] := by
    have parts := (State.start first tokens).rest_append_beyond
    rw [rest] at parts
    exact List.append_right_eq_self.mp parts
  have ends : (State.start first (tokens ++ [eof])).beyond = [eof] := by
    unfold State.beyond State.start
    rw [List.dropWhile_append_of_pos inside, List.dropWhile_cons_of_neg (by simp [isEof])]
  refine read_alike ((State.rest_start isEof plain).trans rest.symm) ?_
  unfold State.ending
  rw [ends, none, rest]
  show eof.line = (endAfter (.endOn 1) tokens).line
  rw [line]
  unfold endAfter
  cases tokens.getLast? <;> rfl

/--
All tokens before the first end token are consumed, and what is left from there on stays.  There are
few faults.
-/
theorem program_ends (first : Nat) (tokens : List Token) :
    ∃ t, manyUntil (· == .eof) (declaration tokens.length) tokens.length
        (State.start first tokens) = .ok (program first tokens).stmts t ∧
      Advances (State.start first tokens) (State.start first tokens).rest t ∧
      t.tokens = (State.start first tokens).beyond ∧
      t.errors.toList = (program first tokens).errors ∧
      t.errors.size ≤ 2 * (State.start first tokens).rest.length := by
  have enough := State.rest_start_length first tokens
  obtain ⟨stmts, t, read, ⟨taken, advances, _, errors⟩, stops⟩ :=
    @manyUntil_ends tokens.length (State.start first tokens) (· == .eof) rfl rfl _ enough enough
  have atEnd : t.rest = [] := by
    cases left : t.rest with
    | nil => rfl
    | cons token rest =>
        rw [State.peek_cons left] at stops
        exact absurd (eq_of_beq stops) (State.kind_of_mem_rest (left ▸ List.mem_cons_self))
  have all : (State.start first tokens).rest = taken := by
    rw [advances.rest, atEnd, List.append_nil]
  have left := t.rest_append_beyond
  rw [atEnd, List.nil_append, advances.beyond] at left
  unfold program
  dsimp only
  rw [read]
  refine ⟨t, rfl, all ▸ advances, left.symm, rfl, ?_⟩
  rw [all]
  simp only [Rate.cost] at errors
  have none : (State.start first tokens).errors.size = 0 := rfl
  omega

end Sequences

/--
Parsing ends, and makes progress.

The bounds of parsers are never what ends a reading: wherever a bound is no less than the tokens
that are left before the end, expressions, statements and declarations are what the grammar says
with the same bound inside, and with another such bound they are read the same.

In front of a token before the end a declaration consumes one at least, whether it is read or
dropped, and so does each function or method that is read; so loops over declarations end, at a
token where they stop.

Only tokens before the first end token are ever consumed: in front of an end token nothing moves.
Of a whole sequence all of them are, that end token and what is behind it stay, and what is behind
it is not looked at.  There are at most twice as many faults.  Where no end token is left one is
made up, on the line of the token that was consumed last; so a sequence without an end token is read
as if one followed on the line of its last token.
-/
theorem parsing_makes_progress :
    (∀ (s : State) (bound : Nat), s.seed = none → s.rest.length ≤ bound →
      (expression bound s = assignment (expression bound) bound s ∧
        statement bound s = statementForms (statement bound) (declaration bound) bound s ∧
        (s.rest ≠ [] → declaration bound s =
          recovering (declarationForms (statement bound) (declaration bound) bound) s)) ∧
      (expression bound s = expression s.rest.length s ∧
        statement bound s = statement s.rest.length s ∧
        (s.rest ≠ [] → declaration bound s = declaration s.rest.length s) ∧
        ∀ stop : Kind → Bool, stop .eof = true → manyUntil stop (declaration bound) bound s =
          manyUntil stop (declaration s.rest.length) s.rest.length s) ∧
      (match expression bound s with
        | .ok _ t | .error _ t => ∃ taken, Advances s taken t) ∧
      (s.rest ≠ [] → ∃ answer t taken, declaration bound s = .ok answer t ∧
        Advances s taken t ∧ taken ≠ []) ∧
      (∀ kind decl t, function kind (declaration bound) bound s = .ok decl t →
        ∃ taken, Advances s taken t ∧ taken ≠ []) ∧
      ∀ stop : Kind → Bool, stop .eof = true →
        ∃ stmts t taken, manyUntil stop (declaration bound) bound s = .ok stmts t ∧
          Advances s taken t ∧ stop t.peek.kind = true) ∧
    (∀ s : State, s.peek.kind = .eof → advance s = .ok ⟨s.next, s.peek⟩ s) ∧
    (∀ (first : Nat) (tokens : List Token),
      (∃ t, manyUntil (· == .eof) (declaration tokens.length) tokens.length
          (State.start first tokens) = .ok (program first tokens).stmts t ∧
        Advances (State.start first tokens)
          (tokens.takeWhile fun token => token.kind != .eof) t ∧
        t.tokens = tokens.dropWhile (fun token => token.kind != .eof) ∧
        t.errors.toList = (program first tokens).errors) ∧
      (program first tokens).errors.length ≤
        2 * (tokens.takeWhile fun token => token.kind != .eof).length) ∧
    (∀ (first : Nat) (before after : List Token) (eof : Token), eof.kind = .eof →
      program first (before ++ eof :: after) = program first (before ++ [eof]) ∧
      expression? first (before ++ eof :: after) = expression? first (before ++ [eof])) ∧
    ∀ (first : Nat) (tokens : List Token) (eof : Token), (∀ token ∈ tokens, token.kind ≠ .eof) →
      eof.kind = .eof → eof.line = (tokens.getLast?.map Token.line).getD 1 →
        program first (tokens ++ [eof]) = program first tokens ∧
        expression? first (tokens ++ [eof]) = expression? first tokens := by
  refine ⟨fun s bound unseeded enough => ⟨⟨?_, ?_, fun some => ?_⟩, ⟨?_, ?_, fun some => ?_, ?_⟩, ?_,
    ?_, ?_, ?_⟩, ?_, ?_, fun _ _ _ _ => read_append, fun _ _ _ => read_unended⟩
  · exact (paces_expression_unfold enough).eq unseeded
  · exact (paces_statement_unfold enough).eq unseeded
  · exact (paces_declaration_unfold (List.length_pos_iff.mpr some) enough).eq unseeded
  · exact (paces_expression enough (Nat.le_refl _)).eq unseeded
  · exact (paces_statement_and_declaration enough (Nat.le_refl _)).1.eq unseeded
  · exact ((paces_statement_and_declaration enough (Nat.le_refl _)).2
      (List.length_pos_iff.mpr some)).eq unseeded
  · intro stop stops
    exact (paces_declarations stops enough (Nat.le_refl _)).eq unseeded
  · have spends := (paces_expression enough enough).spends_result unseeded
    revert spends
    cases expression bound s with
    | ok expr t => exact fun spends => spends.imp fun _ advances => advances.1
    | error error t => exact fun spends => spends.imp fun _ advances => advances.1
  · intro some
    obtain ⟨answer, t, answered, taken, advances, far, _⟩ :=
      declaration_progresses unseeded some enough
    exact ⟨answer, t, taken, answered, advances, List.length_pos_iff.mp far⟩
  · intro kind decl t answered
    have paces : Paces s.rest.length .spared 1 (function kind (declaration bound) bound)
        (function kind (declaration bound) bound) :=
      paces_function kind (fun k some fewer =>
        (paces_statement_and_declaration (by omega) (by omega)).2 some) enough enough
    obtain ⟨taken, advances, far, _⟩ := paces.spends unseeded answered
    exact ⟨taken, advances, List.length_pos_iff.mp far⟩
  · intro stop stops
    obtain ⟨stmts, t, read, ⟨taken, advances, _⟩, stopped⟩ :=
      manyUntil_ends stops unseeded enough enough
    exact ⟨stmts, t, taken, read, advances, stopped⟩
  · intro s atEnd
    rw [advance, State.advance, if_pos atEnd]
  · intro first tokens
    obtain ⟨t, read, advances, left, errors, few⟩ := program_ends first tokens
    refine ⟨⟨t, read, advances, left, errors⟩, ?_⟩
    rw [← errors]
    exact few

/-- A parenthesis that nothing opened, on the third line. -/
def strayParenthesis : Token := ⟨.rightParen, ")", none, 3⟩

/--
A parenthesis that nothing opened is dropped, and found again before any end token of its line.
-/
theorem parsing_makes_progress_past_parenthesis :
    (program 0 [strayParenthesis]).errors = [.static 3 (.at ")") (.expected .expression)] ∧
      (program 0 [strayParenthesis]).errors.length ≤ 2 ∧
      program 0 ([strayParenthesis] ++ [⟨.eof, "end", none, 3⟩]) = program 0 [strayParenthesis] ∧
      ∃ answer t taken, declaration 1 (State.start 0 [strayParenthesis]) = .ok answer t ∧
        Advances (State.start 0 [strayParenthesis]) taken t ∧ taken ≠ [] := by
  obtain ⟨readings, _, sequences, _, unended⟩ := parsing_makes_progress
  obtain ⟨_, few⟩ := sequences 0 [strayParenthesis]
  have plain : ∀ token ∈ [strayParenthesis], token.kind ≠ .eof := by
    intro token held
    rw [List.mem_singleton.mp held]
    exact nofun
  have rest : (State.start 0 [strayParenthesis]).rest = [strayParenthesis] := rfl
  obtain ⟨_, _, _, progress, _⟩ :=
    readings (State.start 0 [strayParenthesis]) 1 rfl (Nat.le_of_eq (congrArg List.length rest))
  refine ⟨rfl, few, (unended 0 [strayParenthesis] ⟨.eof, "end", none, 3⟩ plain rfl rfl).1, ?_⟩
  exact progress (rest ▸ List.cons_ne_nil _ _)

end Lox.Parse
