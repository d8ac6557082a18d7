import Mathlib.Data.List.Forall2
import Lox.Parse.Statement
import Lox.Proofs.Parse.Expressions

/-!
# Reading statements alike

Each parser of statements and declarations reads two sequences in step.  A statement that is not
a declaration enters no name into the scope that it stands in; so the branches of a statement
and the bodies of loops enter none.
-/

namespace Lox.Parse

/-- A statement read from one stretch, and the same statement with its tokens replaced. -/
structure ReadStmt (f : Token → Token) (lo hi : Nat) (stmt stmt' : Stmt) : Prop where
  same : stmt' = stmt.mapTokens f
  within : Within lo hi stmt.tokens stmt'.acts

/-- A function read from one stretch, and the same function with its tokens replaced. -/
structure ReadFun (f : Token → Token) (lo hi : Nat) (decl decl' : FunDecl) : Prop where
  same : decl' = decl.mapTokens f
  within : Within lo hi decl.tokens decl'.acts
  named : decl'.name.IsOf [.identifier]

/-- A parameter read from one stretch, and the token that replaces it. -/
structure ReadParam (f : Token → Token) (lo hi : Nat) (param param' : Token) : Prop where
  same : param' = f param
  low : lo ≤ param.line
  high : param.line < hi
  named : param'.IsOf [.identifier]

/-- A parser of statements that are not declarations. -/
def ReadsStmt (f : Token → Token) (read : Parser Stmt) : Prop :=
  ∀ lo, Reads f lo read read fun hi stmt stmt' =>
    ReadStmt f lo hi stmt stmt' ∧ stmt'.declares = []

/-- A parser of declarations, some of which may be dropped. -/
def ReadsDeclaration (f : Token → Token) (read : Parser (Option Stmt)) : Prop :=
  ∀ lo, Reads f lo read read fun hi stmt stmt' =>
    Items (ReadStmt f) lo hi stmt.toList stmt'.toList

variable {f : Token → Token}

theorem ReadStmt.mono {lo hi lo' hi' : Nat} {stmt stmt' : Stmt}
    (isRead : ReadStmt f lo hi stmt stmt') (low : lo' ≤ lo) (high : hi ≤ hi') :
    ReadStmt f lo' hi' stmt stmt' :=
  ⟨isRead.same, isRead.within.mono low high⟩

/-- An expression that may be missing. -/
structure ReadOptional (f : Token → Token) (lo hi : Nat) (expr expr' : Option Expr) : Prop where
  same : expr' = mapTokensOptional f expr
  within : Within lo hi (tokensOptional expr) (actsOptional expr')

theorem ReadOptional.none {lo hi : Nat} : ReadOptional f lo hi none none := ⟨rfl, .nil⟩

theorem ReadExpr.optional {lo hi : Nat} {expr expr' : Expr}
    (isRead : ReadExpr f lo hi expr expr') : ReadOptional f lo hi (some expr) (some expr') := by
  obtain ⟨rfl, within⟩ := isRead
  exact ⟨rfl, within⟩

namespace Items

variable {lo hi : Nat}

theorem stmts {stmts stmts' : List Stmt} (items : Items (ReadStmt f) lo hi stmts stmts') :
    stmts' = mapTokensBody f stmts ∧ Within lo hi (tokensBody stmts) (actsBody stmts') := by
  induction items with
  | nil => exact ⟨rfl, .nil⟩
  | cons low first high others ih =>
      obtain ⟨rfl, within⟩ := ih
      obtain ⟨rfl, here⟩ := first
      exact ⟨rfl, (here.mono low (Nat.le_refl _)).append within (Nat.le_trans low high)
        others.ordered⟩

theorem methods {methods methods' : List FunDecl}
    (items : Items (ReadFun f) lo hi methods methods') :
    methods' = mapTokensMethods f methods ∧
      Within lo hi (tokensMethods methods) (actsMethods methods') := by
  induction items with
  | nil => exact ⟨rfl, .nil⟩
  | cons low first high others ih =>
      obtain ⟨rfl, within⟩ := ih
      obtain ⟨rfl, here, _⟩ := first
      exact ⟨rfl, (here.mono low (Nat.le_refl _)).append within (Nat.le_trans low high)
        others.ordered⟩

theorem params {params params' : List Token} (items : Items (ReadParam f) lo hi params params')
    (seen : List String) :
    params' = params.map f ∧ Within lo hi params (actsParameters seen params') := by
  induction items generalizing seen with
  | nil => exact ⟨rfl, .nil⟩
  | @cons lo start mid hi param param' params params' low first high others ih =>
      obtain ⟨rfl, within⟩ := ih (param'.lexeme :: seen)
      obtain ⟨rfl, inLow, inHigh, named⟩ := first
      have here : Within lo mid [param] [] := .token (by omega) inHigh
      have joined := here.append within (by omega) others.ordered
      exact ⟨rfl, joined.silent rfl named⟩

end Items

/-! ## Recovery -/

/-- How far is skipped only depends on the kinds of the tokens. -/
theorem skipCount_map (keeps : Keeps f) (tokens : List Token) :
    skipCount (tokens.map f) = skipCount tokens := by
  induction tokens with
  | nil => rfl
  | cons token rest ih =>
      have following : ((rest.map f).head?.map fun following => startsStatement following.kind) =
          rest.head?.map fun following => startsStatement following.kind := by
        cases rest with
        | nil => rfl
        | cons other rest => simp [keeps.kind]
      rw [List.map_cons, skipCount, skipCount, keeps.kind, following, ih]

/-- Skipping keeps two sequences in step. -/
theorem InStep.skipToStatement (keeps : Keeps f) {start s s' : State}
    (inStep : InStep f start s s') : InStep f start s.skipToStatement s'.skipToStatement := by
  obtain ⟨advances, errors⟩ := s.advances_skipToStatement
  obtain ⟨advances', errors'⟩ := s'.advances_skipToStatement
  rw [inStep.mapped.rest, skipCount_map keeps, ← List.map_take] at advances'
  exact inStep.trans (.of_advances inStep.numbered inStep.mapped advances advances' errors errors')

/-- A declaration that fails in both sequences is dropped in both. -/
theorem reads_recovering (keeps : Keeps f) {read : Parser Stmt}
    (reads : ∀ lo, Reads f lo read read (ReadStmt f lo)) : ReadsDeclaration f (recovering read) := by
  intro lo s s' here numbered mapped
  have start := reads lo s s' here numbered mapped
  unfold recovering
  revert start
  cases read s with
  | error e t =>
      cases read s' with
      | ok stmt' t' => exact fun impossible => False.elim impossible
      | error e' t' =>
          intro inStep
          have recorded : InStep f s (t.record e) (t'.record e') :=
            ⟨⟨inStep.numbered.line, inStep.numbered.faithful⟩, inStep.mapped.record e e',
              inStep.reached, inStep.total⟩
          have skipped := recorded.skipToStatement keeps
          exact ⟨skipped, .nil (by rw [← here]; exact skipped.reached)⟩
  | ok stmt t =>
      cases read s' with
      | error e' t' => exact fun impossible => False.elim impossible
      | ok stmt' t' =>
          rintro ⟨inStep, isRead⟩
          exact ⟨inStep, .single (by rw [← here]; exact inStep.reached) isRead⟩

/-! ## Blocks, functions and classes -/

theorem reads_blockBody (keeps : Keeps f) {declaration : Parser (Option Stmt)}
    (reads : ReadsDeclaration f declaration) (bound lo : Nat) :
    Reads f lo (blockBody declaration bound) (blockBody declaration bound)
      (Items (ReadStmt f) lo) := by
  unfold blockBody
  refine (reads_manyUntil keeps closesBlock reads bound).bind fun mid body body' low items => ?_
  refine (reads_expect keeps (by decide) .blockEnd).bind ?_
  rintro hi brace _ high ⟨rfl, rfl, isBrace⟩
  have closed := items.append (.nil (Nat.le_succ mid))
  rw [List.append_nil, List.append_nil] at closed
  exact .pure closed

theorem reads_parameter (keeps : Keeps f) (lo count : Nat) :
    Reads f lo (parameter count) (parameter count) (ReadParam f lo) := by
  have name : ∀ lo, Reads f lo
      (do let name ← expect .identifier .parameterName; pure name.name)
      (do let name ← expect .identifier .parameterName; pure name.name) (ReadParam f lo) := by
    intro lo
    refine (reads_expect keeps (by decide) .parameterName).bind ?_
    rintro hi name _ high ⟨rfl, rfl, isName⟩
    have line := isName.line
    exact .pure ⟨rfl, by omega, by omega, keeps.isOf isName.isOf⟩
  unfold parameter
  split
  · refine (reads_peek keeps).bind ?_
    rintro mid token token' low ⟨rfl, _⟩
    refine (reads_recordAt token token' .tooManyParameters).bind ?_
    rintro mid' _ _ low' rfl
    exact name _
  · exact name lo

theorem reads_function (keeps : Keeps f) (kind : FunKind) {declaration : Parser (Option Stmt)}
    (reads : ReadsDeclaration f declaration) (bound lo : Nat) :
    Reads f lo (function kind declaration bound) (function kind declaration bound)
      (ReadFun f lo) := by
  unfold function
  refine (reads_expect keeps (by decide) kind.nameExpected).bind ?_
  rintro mid name _ _ ⟨rfl, rfl, isName⟩
  refine (reads_expect keeps (by decide) kind.paramsExpected).bind ?_
  rintro mid _ _ _ ⟨rfl, rfl, _⟩
  refine (reads_commaSeparated keeps (reads_parameter keeps) bound).bind
    fun mid params params' _ paramItems => ?_
  refine (reads_expect keeps (by decide) .paramsEnd).bind ?_
  rintro mid _ _ _ ⟨rfl, rfl, _⟩
  refine (reads_expect keeps (by decide) kind.bodyExpected).bind ?_
  rintro mid _ _ _ ⟨rfl, rfl, _⟩
  refine (reads_blockBody keeps reads bound _).bind fun hi body body' _ bodyItems => .pure ?_
  have orderedParams := paramItems.ordered
  have orderedBody := bodyItems.ordered
  obtain ⟨rfl, inParams⟩ := paramItems.params []
  obtain ⟨rfl, inBody⟩ := bodyItems.stmts
  have parts := (inParams.mono (Nat.le_succ _) (Nat.le_succ _)).append
    (inBody.mono (Nat.le_succ _) (Nat.le_refl _)) (by omega) (by omega)
  exact ⟨rfl, isName.within_token.append parts (Nat.le_succ lo) (by omega),
    keeps.isOf isName.isOf⟩

theorem reads_varDeclaration (keeps : Keeps f) (bound lo : Nat) :
    Reads f lo (varDeclaration bound) (varDeclaration bound) (ReadStmt f lo) := by
  unfold varDeclaration
  refine (reads_expect keeps (by decide) .variableName).bind ?_
  rintro mid name _ _ ⟨rfl, rfl, isName⟩
  have finish : ∀ mid init init', lo + 1 ≤ mid → ReadOptional f (lo + 1) mid init init' →
      Reads f mid
        (do let _ ← expect .semicolon .variableEnd; pure (Stmt.varDecl name.name init))
        (do let _ ← expect .semicolon .variableEnd
            pure (Stmt.varDecl (name.mapTokens f).name init')) (ReadStmt f lo) := by
    rintro mid init init' high ⟨rfl, inInit⟩
    refine (reads_expect keeps (by decide) .variableEnd).bind ?_
    rintro hi _ _ _ ⟨rfl, rfl, _⟩
    have joined := isName.within_token.append (inInit.mono (Nat.le_refl _) (Nat.le_succ mid))
      (Nat.le_succ lo) (by omega)
    exact .pure ⟨rfl, joined.silent rfl (keeps.isOf isName.isOf)⟩
  refine (reads_accept? keeps (by decide)).bind fun mid _ _ _ accepted => ?_
  cases accepted with
  | no => exact (Reads.pure .none).bind finish
  | yes isEqual =>
      refine Reads.bind ?_ fun mid init init' low => finish mid init init' (by omega)
      exact (reads_expression keeps bound _).map fun hi init init' _ isInit =>
        (isInit.mono (Nat.le_succ _) (Nat.le_refl hi)).optional

/-- The superclass that a class may name. -/
inductive ReadSuperclass (f : Token → Token) (lo : Nat) :
    Nat → Option Reference → Option Reference → Prop where
  | none : ReadSuperclass f lo lo none none
  | some {mid : Nat} {reference : Reference} (low : lo ≤ mid)
      (isTaken : Taken mid [.identifier] reference) :
      ReadSuperclass f lo (mid + 1) (some reference) (some (reference.mapTokens f))

/-- A class joins the stretches of its name, its superclass and its methods. -/
theorem ReadSuperclass.classDecl (keeps : Keeps f) {lo mid hi : Nat} {name : Reference}
    {superclass superclass' : Option Reference} {methods methods' : List FunDecl}
    (isName : Taken lo [.identifier] name)
    (isSuperclass : ReadSuperclass f (lo + 1) mid superclass superclass')
    (items : Items (ReadFun f) mid hi methods methods') :
    ReadStmt f lo hi (.classDecl name.name superclass methods)
      (.classDecl (name.mapTokens f).name superclass' methods') := by
  have named := keeps.isOf isName.isOf
  have ordered := items.ordered
  obtain ⟨rfl, inMethods⟩ := items.methods
  cases isSuperclass with
  | none =>
      have joined := isName.within_token.append inMethods (Nat.le_succ lo) ordered
      exact ⟨rfl, joined.silent rfl named⟩
  | @some mid reference low isTaken =>
      have inherited := keeps.isOf isTaken.isOf
      have reads : Within mid (mid + 1) [reference.name] [.read (reference.mapTokens f)] :=
        isTaken.within_act rfl (inherited.mono (by decide))
      have parts := (reads.silent (a := .inherit (f name.name) (reference.mapTokens f)) rfl
        ⟨named, inherited⟩).append inMethods (Nat.le_succ mid) ordered
      have joined := isName.within_token.append (parts.mono low (Nat.le_refl hi))
        (Nat.le_succ lo) (by omega)
      exact ⟨rfl, joined.silent rfl named⟩

theorem reads_classDeclaration (keeps : Keeps f) {declaration : Parser (Option Stmt)}
    (reads : ReadsDeclaration f declaration) (bound lo : Nat) :
    Reads f lo (classDeclaration declaration bound) (classDeclaration declaration bound)
      (ReadStmt f lo) := by
  unfold classDeclaration
  refine (reads_expect keeps (by decide) .className).bind ?_
  rintro mid name _ _ ⟨rfl, rfl, isName⟩
  have method : ∀ lo, Reads f lo (some <$> function .method declaration bound)
      (some <$> function .method declaration bound)
      (fun hi decl decl' => Items (ReadFun f) lo hi decl.toList decl'.toList) := fun lo =>
    (reads_function keeps .method reads bound lo).map fun hi decl decl' ordered isDecl =>
      .single ordered isDecl
  have finish : ∀ mid superclass superclass',
      ReadSuperclass f (lo + 1) mid superclass superclass' →
      Reads f mid
        (do let _ ← expect .leftBrace .classBodyStart
            let methods ← manyUntil closesBlock (some <$> function .method declaration bound) bound
            let _ ← expect .rightBrace .classBodyEnd
            pure (Stmt.classDecl name.name superclass methods))
        (do let _ ← expect .leftBrace .classBodyStart
            let methods ← manyUntil closesBlock (some <$> function .method declaration bound) bound
            let _ ← expect .rightBrace .classBodyEnd
            pure (Stmt.classDecl (name.mapTokens f).name superclass' methods))
        (ReadStmt f lo) := by
    intro mid superclass superclass' isSuperclass
    refine (reads_expect keeps (by decide) .classBodyStart).bind ?_
    rintro start _ _ _ ⟨rfl, rfl, _⟩
    refine (reads_manyUntil keeps closesBlock method bound).bind
      fun last methods methods' _ items => ?_
    refine (reads_expect keeps (by decide) .classBodyEnd).bind ?_
    rintro hi _ _ _ ⟨rfl, rfl, _⟩
    have closed := (items.before (Nat.le_succ mid)).append (.nil (Nat.le_succ last))
    rw [List.append_nil, List.append_nil] at closed
    exact .pure (isSuperclass.classDecl keeps isName closed)
  refine (reads_accept? keeps (by decide)).bind fun mid _ _ _ accepted => ?_
  cases accepted with
  | no => exact (Reads.pure .none).bind fun mid _ _ _ => finish mid _ _
  | yes isLess =>
      refine Reads.bind ?_ fun mid superclass superclass' _ => finish mid superclass superclass'
      refine (reads_expect keeps (by decide) .superclassName).map ?_
      rintro hi reference _ low ⟨rfl, rfl, isTaken⟩
      exact .some (Nat.le_succ _) isTaken

theorem reads_expressionStatement (keeps : Keeps f) (bound lo : Nat) :
    Reads f lo (expressionStatement bound) (expressionStatement bound) fun hi stmt stmt' =>
      ReadStmt f lo hi stmt stmt' ∧ stmt'.declares = [] := by
  unfold expressionStatement
  refine (reads_expression keeps bound lo).bind fun mid expr expr' low isExpr => ?_
  refine (reads_expect keeps (by decide) .expressionEnd).bind ?_
  rintro hi _ _ _ ⟨rfl, rfl, _⟩
  obtain ⟨rfl, within⟩ := isExpr
  exact .pure ⟨⟨rfl, within.mono (Nat.le_refl lo) (Nat.le_succ mid)⟩, rfl⟩

/-! ## Statements -/

/-- A call of the native function that `print` names. -/
theorem reads_printCall (keeps : Keeps f) {start : Nat} {keyword : Reference}
    (isKeyword : Taken start [.printWord] keyword) (bound : Nat) :
    Reads f (start + 1) (printCall keyword bound) (printCall (keyword.mapTokens f) bound)
      fun hi stmt stmt' => ReadStmt f start hi stmt stmt' ∧ stmt'.declares = [] := by
  have isPrint : ReadExpr f start (start + 1) (.var keyword) (.var (keyword.mapTokens f)) :=
    ⟨rfl, isKeyword.within_act rfl ((keeps.isOf isKeyword.isOf).mono (by decide))⟩
  unfold printCall
  refine (reads_accept? keeps (by decide)).bind fun mid _ _ low _ => ?_
  refine (reads_commaSeparated keeps (reads_argument keeps (reads_expression keeps bound))
    bound).bind fun last args args' _ items => ?_
  refine (reads_expect keeps (by decide) .argumentsEnd).bind ?_
  rintro _ paren _ _ ⟨rfl, rfl, isParen⟩
  have ordered := items.ordered
  have isCall := isPrint.call (items.before low) isParen (Nat.le_succ start) (Nat.le_refl _)
  refine (reads_accept? keeps (by decide)).bind fun hi _ _ _ accepted => ?_
  cases accepted with
  | yes isSemicolon =>
      have isCall := isCall.mono (Nat.le_refl start) (Nat.le_succ _)
      exact .pure ⟨⟨congrArg Stmt.expression isCall.same, isCall.within⟩, rfl⟩
  | no =>
      have callGoesOn : Reads f (last + 1)
          (do let expr ← callChain (expression bound) bound (.call (.var keyword) paren.name args)
              let _ ← expect .semicolon .expressionEnd
              pure (Stmt.expression expr))
          (do let expr ← callChain (expression bound) bound
                (.call (.var (keyword.mapTokens f)) (paren.mapTokens f).name args')
              let _ ← expect .semicolon .expressionEnd
              pure (Stmt.expression expr))
          fun hi stmt stmt' => ReadStmt f start hi stmt stmt' ∧ stmt'.declares = [] := by
        refine (reads_callChain keeps (reads_expression keeps bound) bound (by omega)
          isCall).bind fun hi expr expr' _ isExpr => ?_
        refine (reads_expect keeps (by decide) .expressionEnd).bind ?_
        rintro _ _ _ _ ⟨rfl, rfl, _⟩
        have isExpr := isExpr.mono (Nat.le_refl start) (Nat.le_succ hi)
        exact .pure ⟨⟨congrArg Stmt.expression isExpr.same, isExpr.within⟩, rfl⟩
      cases items with
      | nil ordered => exact callGoesOn
      | @cons _ first middle _ arg arg' _ _ low' isArg high others =>
          cases others with
          | cons _ _ _ _ => exact callGoesOn
          | nil ordered =>
              have isGrouping := isArg.grouping.mono (show start ≤ first by omega)
                (show middle ≤ last + 1 by omega)
              refine (reads_expressionFrom keeps bound (by omega) isGrouping).bind
                fun hi value value' _ isValue => ?_
              refine (reads_expect keeps (by decide) .valueEnd).bind ?_
              rintro _ _ _ _ ⟨rfl, rfl, _⟩
              have isValue := isValue.mono (Nat.le_refl start) (Nat.le_succ hi)
              exact .pure ⟨⟨congrArg Stmt.print isValue.same, isValue.within⟩, rfl⟩

theorem reads_printStatement (keeps : Keeps f) {start : Nat} {keyword : Reference}
    (isKeyword : Taken start [.printWord] keyword) (bound : Nat) :
    Reads f (start + 1) (printStatement keyword bound)
      (printStatement (keyword.mapTokens f) bound)
      fun hi stmt stmt' => ReadStmt f start hi stmt stmt' ∧ stmt'.declares = [] := by
  unfold printStatement
  refine (reads_check keeps .leftParen).bind ?_
  rintro mid yes _ _ ⟨rfl, rfl⟩
  split
  · exact reads_printCall keeps isKeyword bound
  · refine (reads_expression keeps bound _).bind fun hi value value' _ isValue => ?_
    refine (reads_expect keeps (by decide) .valueEnd).bind ?_
    rintro _ _ _ _ ⟨rfl, rfl, _⟩
    have isValue := isValue.mono (Nat.le_succ start) (Nat.le_succ hi)
    exact .pure ⟨⟨congrArg Stmt.print isValue.same, isValue.within⟩, rfl⟩

theorem reads_returnStatement (keeps : Keeps f) {start : Nat} {keyword : Reference}
    (isKeyword : Taken start [.returnWord] keyword) (bound : Nat) :
    Reads f (start + 1) (returnStatement keyword.name bound)
      (returnStatement (keyword.mapTokens f).name bound)
      fun hi stmt stmt' => ReadStmt f start hi stmt stmt' ∧ stmt'.declares = [] := by
  have finish : ∀ mid value value', start + 1 ≤ mid →
      ReadOptional f (start + 1) mid value value' →
      Reads f mid
        (do let _ ← expect .semicolon .returnEnd; pure (Stmt.ret keyword.name value))
        (do let _ ← expect .semicolon .returnEnd
            pure (Stmt.ret (keyword.mapTokens f).name value'))
        fun hi stmt stmt' => ReadStmt f start hi stmt stmt' ∧ stmt'.declares = [] := by
    rintro mid value value' high ⟨rfl, inValue⟩
    refine (reads_expect keeps (by decide) .returnEnd).bind ?_
    rintro hi _ _ _ ⟨rfl, rfl, _⟩
    have joined := isKeyword.within_token.append (inValue.mono (Nat.le_refl _) (Nat.le_succ mid))
      (Nat.le_succ start) (by omega)
    exact .pure ⟨⟨rfl, joined.silent rfl trivial⟩, rfl⟩
  unfold returnStatement
  refine (reads_check keeps .semicolon).bind ?_
  rintro mid yes _ low ⟨rfl, rfl⟩
  split
  · exact (Reads.pure ReadOptional.none).bind fun mid _ _ low => finish mid _ _ low
  · refine Reads.bind ?_ fun mid value value' low => finish mid value value' low
    exact (reads_expression keeps bound _).map fun hi value value' _ isValue => isValue.optional

theorem reads_includeStatement (keeps : Keeps f) {start : Nat} (keyword keyword' : Token) :
    Reads f (start + 1) (includeStatement keyword) (includeStatement keyword')
      fun hi stmt stmt' => ReadStmt f start hi stmt stmt' ∧ stmt'.declares = [] := by
  unfold includeStatement
  refine (reads_accept? keeps (by decide)).bind fun mid _ _ _ accepted => ?_
  cases accepted with
  | no => exact reads_failAt _ _ _
  | yes isPath =>
      refine (reads_expect keeps (by decide) .includeEnd).bind ?_
      rintro _ _ _ _ ⟨rfl, rfl, _⟩
      exact .pure ⟨⟨rfl, isPath.within_token.mono (Nat.le_succ start) (Nat.le_succ _)⟩, rfl⟩

/-! ## Statements around statements -/

/-- A statement that stands by itself is a branch. -/
theorem Within.branch {lo hi : Nat} {stmt stmt' : Stmt} (isRead : ReadStmt f lo hi stmt stmt')
    (plain : stmt'.declares = []) :
    Within lo hi stmt.tokens (.branch stmt' :: stmt'.acts) :=
  isRead.within.silent rfl plain

theorem reads_ifStatement (keeps : Keeps f) {statement : Parser Stmt}
    (reads : ReadsStmt f statement) (bound start : Nat) :
    Reads f (start + 1) (ifStatement statement bound) (ifStatement statement bound)
      fun hi stmt stmt' => ReadStmt f start hi stmt stmt' ∧ stmt'.declares = [] := by
  unfold ifStatement
  refine (reads_expect keeps (by decide) .ifStart).bind ?_
  rintro _ _ _ _ ⟨rfl, rfl, _⟩
  refine (reads_expression keeps bound _).bind fun mid condition condition' low isCondition => ?_
  refine (reads_expect keeps (by decide) .ifEnd).bind ?_
  rintro _ _ _ _ ⟨rfl, rfl, _⟩
  refine (reads _).bind ?_
  rintro middle thenBranch thenBranch' low' ⟨isThen, plain⟩
  have inThen := Within.branch isThen plain
  obtain ⟨rfl, _⟩ := isThen
  obtain ⟨rfl, inCondition⟩ := isCondition
  have joined := (inCondition.mono (show start ≤ start + 1 + 1 by omega) (Nat.le_succ mid)).append
    inThen (by omega) low'
  refine (reads_accept? keeps (by decide)).bind fun _ _ _ _ accepted => ?_
  cases accepted with
  | no =>
      refine Reads.bind (.pure (P := fun hi elseBranch elseBranch' =>
        hi = middle ∧ elseBranch = none ∧ elseBranch' = none) ⟨rfl, rfl, rfl⟩) ?_
      rintro _ _ _ _ ⟨rfl, rfl, rfl⟩
      exact .pure ⟨⟨rfl, joined⟩, plain⟩
  | yes isElse =>
      refine ((reads _).map (Q := fun hi elseBranch elseBranch' =>
        ∃ stmt stmt', elseBranch = some stmt ∧ elseBranch' = some stmt' ∧
          ReadStmt f (middle + 1) hi stmt stmt' ∧ stmt'.declares = []) ?_).bind ?_
      · rintro hi stmt stmt' _ ⟨isElse, plainElse⟩
        exact ⟨stmt, stmt', rfl, rfl, isElse, plainElse⟩
      · rintro hi _ _ high ⟨stmt, stmt', rfl, rfl, isElse, plainElse⟩
        have inElse := Within.branch isElse plainElse
        obtain ⟨rfl, _⟩ := isElse
        have both := joined.append (inElse.mono (Nat.le_succ middle) (Nat.le_refl hi)) (by omega)
          (by omega)
        refine .pure ⟨⟨rfl, both.perm ?_ ?_⟩, ?_⟩
        · rw [Stmt.tokens, List.append_assoc]
        · rw [Stmt.acts, List.append_assoc]
        · rw [Stmt.declares, plain, plainElse]
          rfl

/-- A loop joins the stretches of its condition and its body. -/
theorem ReadExpr.whileLoop {lo mid hi : Nat} {condition condition' : Expr} {body body' : Stmt}
    (isCondition : ReadExpr f lo mid condition condition') (isBody : ReadStmt f mid hi body body')
    (plain : body'.declares = []) (low : lo ≤ mid) (high : mid ≤ hi) :
    ReadStmt f lo hi (.whileLoop condition body) (.whileLoop condition' body') := by
  have inBody := Within.branch isBody plain
  obtain ⟨rfl, _⟩ := isBody
  obtain ⟨rfl, inCondition⟩ := isCondition
  exact ⟨rfl, inCondition.append inBody low high⟩

theorem reads_whileStatement (keeps : Keeps f) {statement : Parser Stmt}
    (reads : ReadsStmt f statement) (bound start : Nat) :
    Reads f (start + 1) (whileStatement statement bound) (whileStatement statement bound)
      fun hi stmt stmt' => ReadStmt f start hi stmt stmt' ∧ stmt'.declares = [] := by
  unfold whileStatement
  refine (reads_expect keeps (by decide) .whileStart).bind ?_
  rintro _ _ _ _ ⟨rfl, rfl, _⟩
  refine (reads_expression keeps bound _).bind fun mid condition condition' low isCondition => ?_
  refine (reads_expect keeps (by decide) .whileEnd).bind ?_
  rintro _ _ _ _ ⟨rfl, rfl, _⟩
  refine (reads _).bind ?_
  rintro hi body body' high ⟨isBody, plain⟩
  have isCondition := isCondition.mono (show start ≤ start + 1 + 1 by omega) (Nat.le_succ mid)
  exact .pure ⟨isCondition.whileLoop isBody plain (by omega) high, plain⟩

theorem reads_optionalExpression (keeps : Keeps f) (stop : Kind) (bound lo : Nat) :
    Reads f lo (optionalExpression stop bound) (optionalExpression stop bound)
      (ReadOptional f lo) := by
  unfold optionalExpression
  refine (reads_check keeps stop).bind ?_
  rintro mid yes _ low ⟨rfl, rfl⟩
  split
  · exact .pure .none
  · exact (reads_expression keeps bound _).map fun hi expr expr' _ isExpr => isExpr.optional

/-- The first clause of a loop may be left out. -/
theorem reads_forInitializer (keeps : Keeps f) (bound lo : Nat) :
    Reads f lo (forInitializer bound) (forInitializer bound) fun hi init init' =>
      Items (ReadStmt f) lo hi init.toList init'.toList := by
  unfold forInitializer
  refine (reads_accept? keeps (by decide)).bind fun mid _ _ low accepted => ?_
  cases accepted with
  | yes isSemicolon => exact .pure (.nil (Nat.le_succ lo))
  | no =>
  refine (reads_accept? keeps (by decide)).bind fun mid _ _ low accepted => ?_
  cases accepted with
  | yes isVar =>
      refine (reads_varDeclaration keeps bound _).bind fun hi stmt stmt' high isStmt => ?_
      exact .pure (.single (by omega) (isStmt.mono (Nat.le_succ lo) (Nat.le_refl hi)))
  | no =>
      refine (reads_expressionStatement keeps bound lo).bind ?_
      rintro hi stmt stmt' high ⟨isStmt, _⟩
      exact .pure (.single high isStmt)

/-- A block joins the stretches of the statements in it. -/
theorem Items.block {lo hi : Nat} {stmts stmts' : List Stmt}
    (items : Items (ReadStmt f) lo hi stmts stmts') :
    ReadStmt f lo hi (.block stmts) (.block stmts') := by
  obtain ⟨rfl, within⟩ := items.stmts
  exact ⟨rfl, within⟩

/-- The condition of a loop; one that is left out is true. -/
theorem ReadOptional.getD {lo hi : Nat} {condition condition' : Option Expr}
    (isRead : ReadOptional f lo hi condition condition') :
    ReadExpr f lo hi (condition.getD (.literal (.bool true)))
      (condition'.getD (.literal (.bool true))) := by
  obtain ⟨rfl, within⟩ := isRead
  cases condition with
  | none => exact ⟨rfl, .nil⟩
  | some condition => exact ⟨rfl, within⟩

/-- What a loop repeats: its body, and the increment after it. -/
def iteration (increment : Option Expr) (body : Stmt) : Stmt :=
  match increment with
  | none => body
  | some increment => .block [body, .expression increment]

theorem forLoop_none (condition increment : Option Expr) (body : Stmt) :
    forLoop none condition increment body =
      .whileLoop (condition.getD (.literal (.bool true))) (iteration increment body) := by
  cases increment <;> rfl

theorem forLoop_some (init : Stmt) (condition increment : Option Expr) (body : Stmt) :
    forLoop (some init) condition increment body =
      .block [init,
        .whileLoop (condition.getD (.literal (.bool true))) (iteration increment body)] := by
  cases increment <;> rfl

/-- The increment of a loop is read before its body and walked after it. -/
theorem ReadStmt.iteration {lo mid hi : Nat} {increment increment' : Option Expr}
    {body body' : Stmt} (isIncrement : ReadOptional f lo mid increment increment')
    (isBody : ReadStmt f mid hi body body') (plain : body'.declares = []) (low : lo ≤ mid)
    (high : mid ≤ hi) :
    ReadStmt f lo hi (Parse.iteration increment body) (Parse.iteration increment' body') ∧
      (Parse.iteration increment' body').declares = [] := by
  obtain ⟨rfl, inIncrement⟩ := isIncrement
  cases increment with
  | none => exact ⟨isBody.mono low (Nat.le_refl hi), plain⟩
  | some increment =>
      obtain ⟨rfl, inBody⟩ := isBody
      have joined := inIncrement.append inBody low high
      refine ⟨⟨rfl, joined.perm ?_ ?_⟩, rfl⟩
      · simp only [Parse.iteration, Stmt.tokens, tokensBody, List.append_nil]
        exact List.perm_append_comm
      · simp only [mapTokensOptional, Parse.iteration, Stmt.acts, actsBody, List.append_nil]
        exact List.perm_append_comm

/-- The clauses of a loop become statements around it. -/
theorem ReadStmt.forLoop {a b c d e : Nat} {init init' : Option Stmt}
    {condition condition' increment increment' : Option Expr} {body body' : Stmt}
    (isInit : Items (ReadStmt f) a b init.toList init'.toList)
    (isCondition : ReadOptional f b c condition condition')
    (isIncrement : ReadOptional f c d increment increment') (isBody : ReadStmt f d e body body')
    (plain : body'.declares = []) (condOrdered : b ≤ c) (incOrdered : c ≤ d) (bodyOrdered : d ≤ e) :
    ReadStmt f a e (forLoop init condition increment body)
        (forLoop init' condition' increment' body') ∧
      (forLoop init' condition' increment' body').declares = [] := by
  obtain ⟨iterates, iteratesPlain⟩ :=
    ReadStmt.iteration isIncrement isBody plain incOrdered bodyOrdered
  have isLoop := isCondition.getD.whileLoop iterates iteratesPlain condOrdered (by omega)
  have initOrdered := isInit.ordered
  cases init with
  | none =>
      cases init' with
      | some init' => cases isInit
      | none =>
          rw [forLoop_none, forLoop_none]
          exact ⟨isLoop.mono initOrdered (Nat.le_refl e), iteratesPlain⟩
  | some init =>
      cases init' with
      | none => cases isInit
      | some init' =>
          have items := isInit.append (.single (by omega) isLoop)
          rw [forLoop_some, forLoop_some]
          exact ⟨items.block, rfl⟩

theorem reads_forStatement (keeps : Keeps f) {statement : Parser Stmt}
    (reads : ReadsStmt f statement) (bound start : Nat) :
    Reads f (start + 1) (forStatement statement bound) (forStatement statement bound)
      fun hi stmt stmt' => ReadStmt f start hi stmt stmt' ∧ stmt'.declares = [] := by
  unfold forStatement
  refine (reads_expect keeps (by decide) .forStart).bind ?_
  rintro _ _ _ _ ⟨rfl, rfl, _⟩
  refine (reads_forInitializer keeps bound _).bind fun b init init' _ isInit => ?_
  refine (reads_optionalExpression keeps .semicolon bound b).bind
    fun c condition condition' condOrdered isCondition => ?_
  refine (reads_expect keeps (by decide) .forConditionEnd).bind ?_
  rintro _ _ _ _ ⟨rfl, rfl, _⟩
  refine (reads_optionalExpression keeps .rightParen bound (c + 1)).bind
    fun d increment increment' incOrdered isIncrement => ?_
  refine (reads_expect keeps (by decide) .forEnd).bind ?_
  rintro _ _ _ _ ⟨rfl, rfl, _⟩
  refine (reads (d + 1)).bind ?_
  rintro e body body' bodyOrdered ⟨isBody, plain⟩
  have isCondition : ReadOptional f b (c + 1) condition condition' :=
    ⟨isCondition.same, isCondition.within.mono (Nat.le_refl b) (Nat.le_succ c)⟩
  have isIncrement : ReadOptional f (c + 1) (d + 1) increment increment' :=
    ⟨isIncrement.same, isIncrement.within.mono (Nat.le_refl _) (Nat.le_succ d)⟩
  exact .pure (ReadStmt.forLoop (isInit.before (show start ≤ start + 1 + 1 by omega)) isCondition
    isIncrement isBody plain (by omega) (by omega) (by omega))

/-! ## All statements and declarations -/

theorem reads_statementForms (keeps : Keeps f) {statement : Parser Stmt}
    {declaration : Parser (Option Stmt)} (reads : ReadsStmt f statement)
    (readsDeclaration : ReadsDeclaration f declaration) (bound : Nat) :
    ReadsStmt f (statementForms statement declaration bound) := by
  intro lo
  unfold statementForms
  refine (reads_accept? keeps (by decide)).bind fun mid _ _ _ accepted => ?_
  cases accepted with
  | yes isFor => exact reads_forStatement keeps reads bound lo
  | no =>
  refine (reads_accept? keeps (by decide)).bind fun mid _ _ _ accepted => ?_
  cases accepted with
  | yes isIf => exact reads_ifStatement keeps reads bound lo
  | no =>
  refine (reads_accept? keeps (by decide)).bind fun mid _ _ _ accepted => ?_
  cases accepted with
  | yes isInclude => exact reads_includeStatement keeps _ _
  | no =>
  refine (reads_accept? keeps (by decide)).bind fun mid _ _ _ accepted => ?_
  cases accepted with
  | yes isPrint => exact reads_printStatement keeps isPrint bound
  | no =>
  refine (reads_accept? keeps (by decide)).bind fun mid _ _ _ accepted => ?_
  cases accepted with
  | yes isReturn => exact reads_returnStatement keeps isReturn bound
  | no =>
  refine (reads_accept? keeps (by decide)).bind fun mid _ _ _ accepted => ?_
  cases accepted with
  | yes isWhile => exact reads_whileStatement keeps reads bound lo
  | no =>
  refine (reads_accept? keeps (by decide)).bind fun mid _ _ _ accepted => ?_
  cases accepted with
  | yes isBrace =>
      refine (reads_blockBody keeps readsDeclaration bound _).bind fun hi body body' _ items => ?_
      exact .pure ⟨(items.before (Nat.le_succ lo)).block, rfl⟩
  | no => exact reads_expressionStatement keeps bound lo

theorem reads_declarationForms (keeps : Keeps f) {statement : Parser Stmt}
    {declaration : Parser (Option Stmt)} (reads : ReadsStmt f statement)
    (readsDeclaration : ReadsDeclaration f declaration) (bound lo : Nat) :
    Reads f lo (declarationForms statement declaration bound)
      (declarationForms statement declaration bound) (ReadStmt f lo) := by
  unfold declarationForms
  refine (reads_accept? keeps (by decide)).bind fun mid _ _ _ accepted => ?_
  cases accepted with
  | yes isClass =>
      exact (reads_classDeclaration keeps readsDeclaration bound _).weaken
        fun hi stmt stmt' _ isStmt => isStmt.mono (Nat.le_succ lo) (Nat.le_refl hi)
  | no =>
  refine (reads_accept? keeps (by decide)).bind fun mid _ _ _ accepted => ?_
  cases accepted with
  | yes isFun =>
      refine (reads_function keeps .function readsDeclaration bound _).bind ?_
      rintro hi decl _ _ ⟨rfl, within, named⟩
      exact .pure ⟨rfl, (within.mono (Nat.le_succ lo) (Nat.le_refl hi)).silent rfl named⟩
  | no =>
  refine (reads_accept? keeps (by decide)).bind fun mid _ _ _ accepted => ?_
  cases accepted with
  | yes isVar =>
      exact (reads_varDeclaration keeps bound _).weaken
        fun hi stmt stmt' _ isStmt => isStmt.mono (Nat.le_succ lo) (Nat.le_refl hi)
  | no => exact (reads lo).weaken fun hi stmt stmt' _ isStmt => isStmt.1

theorem reads_statement_and_declaration (keeps : Keeps f) (bound : Nat) :
    ReadsStmt f (statement bound) ∧ ReadsDeclaration f (declaration bound) := by
  induction bound with
  | zero =>
      refine ⟨fun lo => reads_expressionStatement keeps 0 lo, reads_recovering keeps fun lo => ?_⟩
      exact (reads_expressionStatement keeps 0 lo).weaken fun hi stmt stmt' _ isStmt => isStmt.1
  | succ bound ih =>
      obtain ⟨reads, readsDeclaration⟩ := ih
      have forms := reads_statementForms keeps reads readsDeclaration (bound + 1)
      exact ⟨forms,
        reads_recovering keeps (reads_declarationForms keeps forms readsDeclaration (bound + 1))⟩

/-! ## Whole programs -/

/-- Tokens that carry their numbers as lines, the first of them the given one. -/
def numbered (first : Nat) (tokens : List Token) : List Token :=
  tokens.mapIdx fun index token => { token with line := first + index }

/-- Numbering tokens does not change how they are spelled. -/
theorem faithful_numbered {tokens : List Token} (faithful : ∀ token ∈ tokens, token.Faithful)
    (first : Nat) : ∀ token ∈ numbered first tokens, token.Faithful := by
  intro token held
  obtain ⟨index, inside, rfl⟩ := List.mem_mapIdx.mp held
  have original := faithful _ (List.getElem_mem inside)
  exact ⟨original.unreserved, original.reserved⟩

theorem numbered_start {tokens : List Token} (faithful : ∀ token ∈ tokens, token.Faithful)
    (first : Nat) : Numbered (State.start first (numbered first tokens)) := by
  obtain ⟨rest, joined⟩ :=
    List.takeWhile_prefix (l := numbered first tokens) fun token => token.kind != .eof
  refine ⟨fun index token found => ?_, fun token held => ?_⟩
  · have inside := (List.getElem?_eq_some_iff.mp found).1
    have whole : (numbered first tokens)[index]? = some token := by
      rw [← joined]
      exact (List.getElem?_append_left inside).trans found
    simp only [numbered, List.getElem?_mapIdx, Option.map_eq_some_iff] at whole
    obtain ⟨original, _, rfl⟩ := whole
    rfl
  · refine faithful_numbered faithful first token ?_
    rw [← joined]
    exact List.mem_append_left rest held

theorem mapped_start (keeps : Keeps f) (first : Nat) (tokens : List Token) :
    Mapped f (State.start first tokens) (State.start first (tokens.map f)) := by
  refine ⟨?_, rfl, rfl, rfl, rfl⟩
  have same : (fun token : Token => token.kind != .eof) ∘ f = fun token => token.kind != .eof := by
    funext token
    simp [keeps.kind]
  simp only [State.rest, State.start, List.takeWhile_map, same]

/-- Two programs, read from numbered tokens and from those that replace them. -/
structure ReadProgram (f : Token → Token) (first : Nat) (tokens : List Token)
    (parsed parsed' : Parsed) : Prop where
  same : parsed'.stmts = mapTokensBody f parsed.stmts
  within : Within first (first + tokens.length) (tokensBody parsed.stmts) (actsBody parsed'.stmts)

/-- A whole sequence and the one that replaces it are both free of faults, and are read alike. -/
theorem program_map (keeps : Keeps f) (first : Nat) {tokens : List Token}
    (faithful : ∀ token ∈ tokens, token.Faithful) :
    ((program first (numbered first tokens)).errors = [] ∧
      (program first ((numbered first tokens).map f)).errors = [] ∧
      ReadProgram f first tokens (program first (numbered first tokens))
        (program first ((numbered first tokens).map f))) ∨
    ((program first (numbered first tokens)).errors ≠ [] ∧
      (program first ((numbered first tokens).map f)).errors ≠ []) := by
  have mapped := mapped_start keeps first (numbered first tokens)
  have length : ((numbered first tokens).map f).length = (numbered first tokens).length :=
    List.length_map f
  have few : (State.start first (numbered first tokens)).rest.length ≤ tokens.length := by
    have shorter := (List.takeWhile_prefix (l := numbered first tokens)
      fun token => token.kind != .eof).length_le
    rwa [numbered, List.length_mapIdx] at shorter
  have reading := reads_manyUntil keeps (· == .eof)
    (reads_statement_and_declaration keeps (numbered first tokens).length).2
    (numbered first tokens).length _ _ rfl (numbered_start faithful first) mapped
  unfold program
  simp only [length]
  revert reading
  generalize manyUntil _ _ _ (State.start first (numbered first tokens)) = result
  generalize manyUntil _ _ _ (State.start first ((numbered first tokens).map f)) = result'
  cases result with
  | error e t =>
      cases result' with
      | ok stmts' t' => exact fun impossible => False.elim impossible
      | error e' t' => exact fun _ => .inr ⟨by simp, by simp⟩
  | ok stmts t =>
      cases result' with
      | error e' t' => exact fun impossible => False.elim impossible
      | ok stmts' t' =>
          rintro ⟨inStep, items⟩
          have errors := inStep.mapped.errors
          by_cases sound : t.errors.size = 0
          · refine .inl ⟨?_, ?_, ?_⟩
            · simpa using sound
            · simpa [sound] using errors
            · obtain ⟨same, within⟩ := items.stmts
              have total := inStep.total
              have next : (State.start first (numbered first tokens)).next = first := rfl
              exact ⟨same, within.mono (Nat.le_refl _) (by omega)⟩
          · refine .inr ⟨?_, ?_⟩
            · simpa using sound
            · intro none
              have sound' : t'.errors.size = 0 := by simpa using none
              exact sound (errors ▸ sound')

/-! ## Putting tokens back in place of their numbers -/

/-- Two tokens that differ in their lines and in the spelling of an identifier at most. -/
structure Alike (token other : Token) : Prop where
  kind : other.kind = token.kind
  literal : other.literal = token.literal
  lexeme : token.kind ≠ .identifier → other.lexeme = token.lexeme

theorem Alike.refl (token : Token) : Alike token token := ⟨rfl, rfl, fun _ => rfl⟩

/-- The token that stands in a sequence under the number that a token carries as its line. -/
def retouch (first : Nat) (others : List Token) (token : Token) : Token :=
  match others[token.line - first]? with
  | none => token
  | some other =>
      if token.kind = .identifier ∧ Kind.ofWord? other.lexeme.toList = none then
        { token with lexeme := other.lexeme, line := other.line }
      else { token with line := other.line }

theorem keeps_retouch (first : Nat) (others : List Token) : Keeps (retouch first others) := by
  refine ⟨fun token => ?_, fun token => ?_, fun token faithful => ?_⟩
  · unfold retouch
    split
    · rfl
    · split
      · rfl
      · rfl
  · unfold retouch
    split
    · rfl
    · split
      · rfl
      · rfl
  · unfold retouch
    split
    · exact faithful
    · split
      · next same =>
          obtain ⟨isIdentifier, unreserved⟩ := same
          refine ⟨fun _ => unreserved, fun isWord => ?_⟩
          rw [show token.kind = .identifier from isIdentifier] at isWord
          cases isWord
      · exact ⟨faithful.unreserved, faithful.reserved⟩

/-- A token that carries its number is replaced by the one that stands there. -/
theorem retouch_of_alike {first index : Nat} {others : List Token} {token other : Token}
    (stands : others[index]? = some other) (alike : Alike token other)
    (faithful : other.Faithful) :
    retouch first others { token with line := first + index } = other := by
  obtain ⟨kind, lexeme, literal, line⟩ := token
  obtain ⟨kind', lexeme', literal', line'⟩ := other
  obtain ⟨sameKind, sameLiteral, sameLexeme⟩ := alike
  dsimp only at sameKind sameLiteral sameLexeme
  subst sameKind sameLiteral
  simp only [retouch, Nat.add_sub_cancel_left, stands]
  by_cases isIdentifier : kind' = .identifier
  · rw [if_pos ⟨isIdentifier, faithful.unreserved isIdentifier⟩]
  · rw [if_neg fun both => isIdentifier both.1, sameLexeme isIdentifier]

/-- Numbered tokens can be replaced by any others that are alike. -/
theorem map_retouch {tokens others : List Token} (alike : List.Forall₂ Alike tokens others)
    (faithful : ∀ token ∈ others, token.Faithful) (first : Nat) :
    (numbered first tokens).map (retouch first others) = others := by
  refine List.ext_getElem? fun index => ?_
  rw [List.getElem?_map, numbered, List.getElem?_mapIdx]
  have length := alike.length_eq
  by_cases inside : index < tokens.length
  · have inside' : index < others.length := by omega
    rw [List.getElem?_eq_getElem inside, List.getElem?_eq_getElem inside']
    refine congrArg some (retouch_of_alike (List.getElem?_eq_getElem inside') ?_ ?_)
    · exact List.Forall₂.get alike inside inside'
    · exact faithful _ (List.getElem_mem inside')
  · rw [List.getElem?_eq_none (by omega), List.getElem?_eq_none (by omega)]
    rfl

end Lox.Parse
