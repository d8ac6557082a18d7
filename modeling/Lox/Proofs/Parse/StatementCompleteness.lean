import Lox.Proofs.Parse.Completeness

/-!
# Derivable statements are read

In front of a token that cannot continue it, a statement is consumed by its parser, which records
no fault and answers its tree; so is a declaration.
-/

namespace Lox.Parse

open Grammar

/-! ## Small phrases -/

section Phrases

variable {text : Text} {bound : Nat}

theorem takes_parameter (count : Nat) (text : Text) (param : Token) (few : count < 255)
    (isParam : IsParam text param) : Takes (parameter count) bound text EndsItem param := by
  cases isParam with
  | name isName =>
      unfold parameter
      split
      · next many => exact absurd few (Nat.not_lt.mpr many)
      · exact .expect isName .pure

theorem takes_varDeclaration {decl : Stmt} (isVariable : IsVariable text decl) :
    Takes (varDeclaration bound) bound text Anything decl := by
  unfold varDeclaration
  cases isVariable with
  | bare isName ends =>
      exact .expect isName (.pass (.one ends) (by decide) (.expect ends .pure))
  | initialized isName isEqual isInit ends =>
      refine .expect isName (.accept (List.mem_singleton.mpr isEqual) ?_)
      refine (takes_expression bound _ _ isInit).map.bind (by omega)
        (fun _ _ => .inl (congrArg some ends)) (.expect ends .pure)

theorem takes_expressionStatement {stmt : Stmt} (isStatement : IsExpressionStatement text stmt) :
    Takes (expressionStatement bound) bound text Anything stmt := by
  unfold expressionStatement
  cases isStatement with
  | expression isExpr ends =>
      exact (takes_expression bound _ _ isExpr).bind (Nat.le_refl _)
        (fun _ _ => .inl (congrArg some ends)) (.expect ends .pure)

theorem takes_optionalExpression {value : Option Expr} {stop : Kind}
    (isValue : Optional IsExpr text value) (listed : stop ∈ [.semicolon, .rightParen]) :
    Takes (optionalExpression stop bound) bound text (· = some stop) value := by
  unfold optionalExpression
  cases isValue with
  | none => exact .check true (by rintro _ rfl; simp [opens]) .pure
  | some isExpr =>
      have apart : ∀ stop ∈ [Kind.semicolon, .rightParen], stop ∉ expressionStarts := by decide
      refine .check false (fun follows _ => front_ne isExpr.begins (apart stop listed) _) ?_
      refine (takes_expression bound _ _ isExpr).map.mono (Nat.le_refl _) ?_
      rintro _ rfl
      rcases List.mem_cons.mp listed with rfl | listed
      · exact .inl rfl
      · exact .inr (.inr (congrArg some (List.mem_singleton.mp listed)))

theorem takes_forInitializer {init : Option Stmt} (isInit : IsInitializer text init) :
    Takes (forInitializer bound) bound text Anything init := by
  unfold forInitializer
  cases isInit with
  | none ends => exact .accept (List.mem_singleton.mpr ends) .pure
  | declared isVar isVariable =>
      refine .pass (.one isVar) (by decide) (.accept (List.mem_singleton.mpr isVar) ?_)
      exact (takes_varDeclaration isVariable).done (Nat.sub_le _ _) (fun _ => id) .pure
  | expression isStatement =>
      have begins := isStatement.begins
      refine .pass begins (by decide) (.pass begins (by decide) ?_)
      exact (takes_expressionStatement isStatement).done (Nat.le_refl _) (fun _ => id) .pure

end Phrases

/-! ## `print` -/

theorem takes_printCall {keyword : Reference} {text : Text} {stmt : Stmt}
    (isPrint : IsPrint keyword text stmt) (opened : Begins [.leftParen] text) {bound : Nat} :
    Takes (printCall keyword bound) bound text Anything stmt := by
  have arguments : ∀ {inside args} {closing : Reference} {others : Text} {next : List Expr → Parser Stmt},
      Listed IsExpr inside args → closing.kind = .rightParen →
      Takes (next args) (bound - 1 - inside.length) (closing :: others) Anything stmt →
      Takes (commaSeparated (argument (expression bound)) bound >>= next) (bound - 1)
        (inside ++ closing :: others) Anything stmt := by
    intro inside args closing others next areArgs closes then'
    have listed := takes_commaSeparated (takes_argument (takes_expression bound))
      (fun _ _ => IsExpr.begins) (by decide) areArgs (Nat.le_refl bound)
    exact listed.bind (Nat.sub_le _ _) (fun _ _ => congrArg some closes) then'
  unfold printCall
  cases isPrint with
  | call opens areArgs closes ends =>
      refine .accept (List.mem_singleton.mpr opens) (arguments areArgs closes (.expect closes ?_))
      exact .accept (List.mem_singleton.mpr ends) .pure
  | @chain opening closing semicolon inside text args expr opens areArgs closes several isChain
      ends =>
      obtain ⟨_, _, links, rfl, ⟨rfl, rfl⟩, linked⟩ := Links.of_chain isChain
      refine .accept (List.mem_singleton.mpr opens) (arguments areArgs closes (.expect closes ?_))
      rcases linked.nil_or_begins with ⟨rfl, rfl⟩ | begins
      · exact .accept (List.mem_singleton.mpr ends) .pure
      · refine .pass (begins.append _) (by decide) ?_
        have calls : ∀ bound', bound' ≤ bound → Takes
            (do let expr ← callChain (expression bound) bound (.call (.var keyword) closing.name args)
                let _ ← expect .semicolon .expressionEnd
                pure (Stmt.expression expr))
            bound' (links ++ [semicolon]) Anything (.expression expr) := by
          intro bound' fewer
          refine (takes_callChain (takes_expression bound) linked (Nat.le_succ bound)).bind fewer
            (fun _ _ => ?_) (.expect ends .pure)
          simp [EndsChain, Parse.opens, ends]
        rcases args with _ | ⟨arg, _ | ⟨arg', args⟩⟩
        · exact calls _ (by omega)
        · exact absurd rfl several
        · exact calls _ (by omega)
  | @grouped opening closing semicolon inside text inner value opens isInner closes isValue _
      more ends =>
      cases bound with
      | zero => exact .of_zero (List.cons_ne_nil opening _)
      | succ bound =>
      refine .of_consumes fun {s t} unseeded consumes => ?_
      obtain ⟨first, others, _⟩ := consumes.head
      have others : Consumes s.advance ((inside ++ closing :: text) ++ [semicolon]) t := by
        simpa using others
      obtain ⟨m, before, _⟩ := others.split
      obtain ⟨goesOn, reads⟩ := takes_expressionFrom opens isInner closes isValue
        (first.seed.trans unseeded) before bound
      refine .accept (List.mem_singleton.mpr opens) ?_
      refine arguments (.some (.one isInner) (by simp)) closes (.expect closes ?_)
      obtain ⟨token, others, rfl⟩ := List.exists_cons_of_ne_nil more
      refine .skip (by decide) (fun follows _ kind listed same => goesOn token rfl ?_) ?_
      · rw [Option.some.inj same, List.mem_singleton.mp listed]
        decide
      · exact reads.bind (by omega) (fun _ _ => .inl (congrArg some ends)) (.expect ends .pure)
  | value isExpr plain ends =>
      obtain ⟨token, others, rfl, _⟩ := isExpr.begins
      obtain ⟨_, _, same, isParen⟩ := opened
      obtain ⟨rfl, _⟩ := List.cons.inj same
      exact absurd (List.mem_singleton.mp isParen) (plain token rfl)

theorem takes_printStatement {keyword : Reference} {text : Text} {stmt : Stmt}
    (isPrint : IsPrint keyword text stmt) {bound : Nat} :
    Takes (printStatement keyword bound) bound text Anything stmt := by
  unfold printStatement
  by_cases opened : Begins [.leftParen] text
  · refine .check true (fun _ _ => ?_) (takes_printCall isPrint opened)
    obtain ⟨token, others, rfl, isParen⟩ := opened
    simpa [opens] using isParen
  · cases isPrint with
    | call opens _ _ _ => exact absurd (.one opens) opened
    | chain opens _ _ _ _ _ => exact absurd (.one opens) opened
    | grouped opens _ _ _ _ _ _ => exact absurd (.one opens) opened
    | value isExpr plain ends =>
        refine .check false (fun _ _ => ?_) ?_
        · obtain ⟨token, others, rfl, _⟩ := isExpr.begins
          simpa [opens] using plain token rfl
        · exact (takes_expression bound _ _ isExpr).bind (Nat.le_refl _)
            (fun _ _ => .inl (congrArg some ends)) (.expect ends .pure)

/-! ## Blocks and functions -/

/-- No `else` follows, if one could be a part of the statement. -/
def EndsStmt (closed : Bool) (follows : Option Kind) : Prop :=
  closed = false → follows ≠ some .elseWord

/-- A parser that reads statements in front of what does not continue them. -/
def TakesStmt (read : Parser Stmt) (limit : Nat) : Prop :=
  ∀ closed text stmt, IsStmt closed text stmt → Takes read limit text (EndsStmt closed) stmt

/-- A parser that reads declarations in front of what does not continue them. -/
def TakesDecl (read : Parser (Option Stmt)) (limit : Nat) : Prop :=
  ∀ text decl, IsDecl text decl → Takes read limit text (EndsStmt false) (some decl)

/-- Items up to where to stop, each in front of the next. -/
theorem takes_manyUntil {α : Type} {item : Text → α → Prop} {stop : Kind → Bool}
    {read : Parser (Option α)} {limit : Nat} {ends : Option Kind → Prop} {starts : List Kind}
    (takes : ∀ text a, item text a → Takes read limit text ends (some a))
    (begins : ∀ text a, item text a → Begins starts text)
    (onward : ∀ kind ∈ starts, stop kind = false ∧ ends (some kind))
    (ending : ∀ follows, stop (follows.getD .eof) = true → ends follows)
    {text : Text} {as : List α} (items : Sequence item text as) {fuel bound : Nat}
    (enough : bound ≤ fuel) (within : bound ≤ limit) :
    Takes (manyUntil stop read fuel) bound text (fun follows => stop (follows.getD .eof) = true)
      as := by
  induction items generalizing fuel bound with
  | nil =>
      cases fuel with
      | zero => exact .pure
      | succ fuel =>
          unfold manyUntil
          refine .peek (P := fun kind => stop kind = true) (fun _ stops => stops)
            fun token stops => ?_
          rw [if_pos stops]
          exact .pure
  | @cons first others a as isFirst areOthers ih =>
      obtain ⟨token, rest, isText, isOf⟩ := begins first a isFirst
      cases fuel with
      | zero => exact Takes.mono (.of_zero (by simp [isText])) enough fun _ => id
      | succ fuel =>
          unfold manyUntil
          refine .peek (P := fun kind => stop kind = false) (fun follows _ => ?_)
            fun token goesOn => ?_
          · rw [isText]
            exact (onward _ isOf).1
          · rw [if_neg (by simp [goesOn])]
            refine (takes first a isFirst).bind within (fun follows stops => ?_) ?_
            · cases areOthers with
              | nil => exact ending _ stops
              | cons isNext _ =>
                  obtain ⟨token, rest, rfl, isOf⟩ := begins _ _ isNext
                  exact (onward _ isOf).2
            · have length : 0 < first.length := by simp [isText]
              exact (ih (by omega) (Nat.le_trans (Nat.sub_le _ _) within)).done (Nat.le_refl _)
                (fun _ => id) .pure

section Bodies

variable {declaration : Parser (Option Stmt)} {limit bound : Nat}
  (takes : TakesDecl declaration limit)
include takes

theorem takes_blockBody {text : Text} {body : List Stmt} (isBody : Sequence IsDecl text body)
    {closing : Reference} (closes : closing.kind = .rightBrace) {fuel : Nat} (enough : bound ≤ fuel)
    (within : bound ≤ limit) :
    Takes (blockBody declaration fuel) bound (text ++ [closing]) Anything body := by
  unfold blockBody
  have items : Takes (manyUntil closesBlock declaration fuel) bound text _ body :=
    takes_manyUntil takes (fun _ _ => IsDecl.begins) (by unfold EndsStmt; decide)
      (by rintro _ stops - rfl; cases stops) isBody enough within
  exact items.bind (Nat.le_refl _) (fun _ _ => by simp [opens, closes, closesBlock])
    (.expect closes .pure)

theorem takes_function (kind : FunKind) {text : Text} {decl : FunDecl} (isFun : IsFun text decl)
    (within : bound ≤ limit + 1) :
    Takes (function kind declaration bound) bound text Anything decl := by
  unfold function
  cases isFun with
  | @decl name opening closing start stop inside text params body isName opens areParams closes
      starts isBody stops =>
      have params : Takes (commaSeparated parameter bound) bound inside Closes params :=
        takes_commaSeparated takes_parameter (fun _ _ => IsParam.begins) (by decide) areParams
          (Nat.le_refl bound)
      refine .expect isName (.expect opens ?_)
      refine params.bind (by omega) (fun _ _ => congrArg some closes) ?_
      refine .expect closes (.expect starts ?_)
      exact (takes_blockBody takes isBody stops (by omega) (by omega)).done (Nat.le_refl _)
        (fun _ => id) .pure

theorem takes_classDeclaration {name opening closing : Reference} {inherits text : Text}
    {superclass : Option Reference} {methods : List FunDecl} (isName : name.kind = .identifier)
    (isSuperclass : IsSuperclass inherits superclass) (opened : opening.kind = .leftBrace)
    (areMethods : Sequence IsFun text methods) (closes : closing.kind = .rightBrace)
    (within : bound ≤ limit + 1) :
    Takes (classDeclaration declaration bound) bound
      (name :: (inherits ++ opening :: (text ++ [closing]))) Anything
      (.classDecl name.name superclass methods) := by
  have body : ∀ {bound'}, bound' ≤ bound → Takes
      (do let _ ← expect .leftBrace .classBodyStart
          let methods ← manyUntil closesBlock (some <$> function .method declaration bound) bound
          let _ ← expect .rightBrace .classBodyEnd
          pure (Stmt.classDecl name.name superclass methods))
      bound' (opening :: (text ++ [closing])) Anything (.classDecl name.name superclass methods) := by
    intro bound' fewer
    have items : Takes (manyUntil closesBlock (some <$> function .method declaration bound) bound)
        bound text _ methods :=
      takes_manyUntil (fun _ _ isFun => (takes_function takes .method isFun within).map)
        (fun _ _ => IsFun.begins) (by unfold Anything; decide) (fun _ _ => trivial) areMethods
        (Nat.le_refl bound) (Nat.le_refl bound)
    refine .expect opened ?_
    exact items.bind (by omega) (fun _ _ => by simp [opens, closes, closesBlock])
      (.expect closes .pure)
  unfold classDeclaration
  refine .expect isName ?_
  cases isSuperclass with
  | none => exact .pass (.one opened) (by decide) (body (Nat.sub_le _ _))
  | some isLess isSuper =>
      refine .accept (List.mem_singleton.mpr isLess) ?_
      exact (Takes.one isSuper).map.bind (Nat.le_refl _) (fun _ _ => trivial) (body (by omega))

end Bodies

/-! ## Statements -/

section Statements

variable {statement : Parser Stmt} {limit bound : Nat} (takes : TakesStmt statement limit)
  (within : bound ≤ limit + 1) {closed : Bool} {opening closing : Reference} {inside text : Text}
  {condition : Expr} {body : Stmt}
include takes within

theorem takes_whileStatement (opens : opening.kind = .leftParen)
    (isCondition : IsExpr inside condition) (closes : closing.kind = .rightParen)
    (isBody : IsStmt closed text body) :
    Takes (whileStatement statement bound) bound (opening :: (inside ++ closing :: text))
      (EndsStmt closed) (.whileLoop condition body) := by
  unfold whileStatement
  refine .expect opens ?_
  refine (takes_expression bound _ _ isCondition).bind (by omega)
    (fun _ _ => .inr (.inr (congrArg some closes))) (.expect closes ?_)
  exact (takes _ _ _ isBody).done (by omega) (fun _ => id) .pure

theorem takes_forStatement {first second third : Text} {semicolon : Reference}
    {init : Option Stmt} {condition increment : Option Expr} (opens : opening.kind = .leftParen)
    (isInit : IsInitializer first init) (isCondition : Optional IsExpr second condition)
    (ends : semicolon.kind = .semicolon) (isIncrement : Optional IsExpr third increment)
    (closes : closing.kind = .rightParen) (isBody : IsStmt closed text body) :
    Takes (forStatement statement bound) bound
      (opening :: (first ++ (second ++ semicolon :: (third ++ closing :: text)))) (EndsStmt closed)
      (forLoop init condition increment body) := by
  unfold forStatement
  refine .expect opens ((takes_forInitializer isInit).bind (Nat.sub_le _ _) (fun _ _ => trivial) ?_)
  refine (takes_optionalExpression isCondition (by decide)).bind (by omega)
    (fun _ _ => congrArg some ends) (.expect ends ?_)
  refine (takes_optionalExpression isIncrement (by decide)).bind (by omega)
    (fun _ _ => congrArg some closes) (.expect closes ?_)
  exact (takes _ _ _ isBody).done (by omega) (fun _ => id) .pure

theorem takes_ifThen (opens : opening.kind = .leftParen) (isCondition : IsExpr inside condition)
    (closes : closing.kind = .rightParen) (isThen : IsStmt false text body) :
    Takes (ifStatement statement bound) bound (opening :: (inside ++ closing :: text))
      (EndsStmt false) (.ifElse condition body none) := by
  unfold ifStatement
  refine .expect opens ?_
  refine (takes_expression bound _ _ isCondition).bind (by omega)
    (fun _ _ => .inr (.inr (congrArg some closes))) (.expect closes ?_)
  refine (takes _ _ _ isThen).done (by omega) (fun _ => id) ?_
  exact .skip (by decide) (fun follows ends kind listed => List.mem_singleton.mp listed ▸ ends rfl)
    .pure

theorem takes_ifElse {separator : Reference} {others : Text} {other : Stmt}
    (opens : opening.kind = .leftParen) (isCondition : IsExpr inside condition)
    (closes : closing.kind = .rightParen) (isThen : IsStmt true text body)
    (isElse : separator.kind = .elseWord) (isOther : IsStmt closed others other) :
    Takes (ifStatement statement bound) bound
      (opening :: (inside ++ closing :: (text ++ separator :: others))) (EndsStmt closed)
      (.ifElse condition body (some other)) := by
  unfold ifStatement
  refine .expect opens ?_
  refine (takes_expression bound _ _ isCondition).bind (by omega)
    (fun _ _ => .inr (.inr (congrArg some closes))) (.expect closes ?_)
  refine (takes _ _ _ isThen).bind (by omega) (fun _ _ => by simp [EndsStmt]) ?_
  refine .accept (List.mem_singleton.mpr isElse) ?_
  exact (takes _ _ _ isOther).map.done (by omega) (fun _ => id) .pure

end Statements

theorem takes_returnStatement {keyword semicolon : Reference} {text : Text} {value : Option Expr}
    (isValue : Optional IsExpr text value) (ends : semicolon.kind = .semicolon) {bound : Nat} :
    Takes (returnStatement keyword.name bound) bound (text ++ [semicolon]) Anything
      (.ret keyword.name value) := by
  unfold returnStatement
  cases isValue with
  | none =>
      refine .check true (fun _ _ => by simp [opens, ends]) ?_
      exact .expect ends .pure
  | some isExpr =>
      refine .check false
        (fun _ _ => front_ne (isExpr.begins.append _) (by decide) _) ?_
      exact (takes_expression bound _ _ isExpr).map.bind (Nat.le_refl _)
        (fun _ _ => .inl (congrArg some ends)) (.expect ends .pure)

section Forms

variable {statement : Parser Stmt} {declaration : Parser (Option Stmt)} {limit bound : Nat}
  (takes : TakesStmt statement limit) (takesDecl : TakesDecl declaration limit)
  (within : bound ≤ limit + 1)
include takes takesDecl within

theorem takes_statementForms : TakesStmt (statementForms statement declaration bound) bound := by
  intro closed text stmt isStmt
  unfold statementForms
  cases isStmt with
  | forLoop isFor opens isInit isCondition ends isIncrement closes isBody isLoop =>
      refine .accept (List.mem_singleton.mpr isFor) ?_
      obtain rfl := isLoop_iff.mp isLoop
      exact (takes_forStatement takes within opens isInit isCondition ends isIncrement closes
        isBody).mono (Nat.sub_le _ _) fun _ => id
  | ifThen isIf opens isCondition closes isThen =>
      refine .pass (.one isIf) (by decide) (.accept (List.mem_singleton.mpr isIf) ?_)
      exact (takes_ifThen takes within opens isCondition closes isThen).mono (Nat.sub_le _ _)
        fun _ => id
  | ifElse isIf opens isCondition closes isThen isElse isOther =>
      refine .pass (.one isIf) (by decide) (.accept (List.mem_singleton.mpr isIf) ?_)
      exact (takes_ifElse takes within opens isCondition closes isThen isElse isOther).mono
        (Nat.sub_le _ _) fun _ => id
  | inclusion isInclude isPath ends =>
      refine .pass (.one isInclude) (by decide) (.pass (.one isInclude) (by decide) ?_)
      refine .accept (List.mem_singleton.mpr isInclude) ?_
      exact .accept (List.mem_singleton.mpr isPath) (.expect ends .pure)
  | print isPrint isRest =>
      refine .pass (.one isPrint) (by decide) (.pass (.one isPrint) (by decide) ?_)
      refine .pass (.one isPrint) (by decide) ?_
      refine .accept (List.mem_singleton.mpr isPrint) ?_
      exact (takes_printStatement isRest).mono (Nat.sub_le _ _) fun _ _ => trivial
  | ret isReturn isValue ends =>
      refine .pass (.one isReturn) (by decide) (.pass (.one isReturn) (by decide) ?_)
      refine .pass (.one isReturn) (by decide) ?_
      refine .pass (.one isReturn) (by decide) (.accept (List.mem_singleton.mpr isReturn) ?_)
      exact (takes_returnStatement isValue ends).mono (Nat.sub_le _ _) fun _ _ => trivial
  | whileLoop isWhile opens isCondition closes isBody =>
      refine .pass (.one isWhile) (by decide) (.pass (.one isWhile) (by decide) ?_)
      refine .pass (.one isWhile) (by decide) ?_
      refine .pass (.one isWhile) (by decide) (.pass (.one isWhile) (by decide) ?_)
      refine .accept (List.mem_singleton.mpr isWhile) ?_
      exact (takes_whileStatement takes within opens isCondition closes isBody).mono
        (Nat.sub_le _ _) fun _ => id
  | block opens isBody closes =>
      refine .pass (.one opens) (by decide) (.pass (.one opens) (by decide) ?_)
      refine .pass (.one opens) (by decide) ?_
      refine .pass (.one opens) (by decide) (.pass (.one opens) (by decide) ?_)
      refine .pass (.one opens) (by decide) ?_
      refine .accept (List.mem_singleton.mpr opens) ?_
      exact (takes_blockBody takesDecl isBody closes (Nat.sub_le _ _) (by omega)).done
        (Nat.le_refl _) (fun _ _ => trivial) .pure
  | expression plain isStatement =>
      have begins := isStatement.begins
      refine .pass begins (by decide) (.pass begins (by decide) (.pass begins (by decide) ?_))
      refine .skip (by decide) (fun follows _ kind listed same => ?_) ?_
      · obtain ⟨token, others, rfl, _⟩ := begins
        exact plain token rfl ((Option.some.inj same).trans (List.mem_singleton.mp listed))
      refine .pass begins (by decide) (.pass begins (by decide) (.pass begins (by decide) ?_))
      exact (takes_expressionStatement isStatement).mono (Nat.le_refl _) fun _ _ => trivial

/-- The declaration is read, and recovery has nothing to do. -/
theorem takes_declarationForms :
    TakesDecl (recovering
      (declarationForms (statementForms statement declaration bound) declaration bound)) bound := by
  have recovered : ∀ {read : Parser Stmt} {text decl},
      Takes read bound text (EndsStmt false) decl →
        Takes (recovering read) bound text (EndsStmt false) (some decl) := by
    intro read text decl reads s t unseeded consumes few ends
    rw [recovering, reads s t unseeded consumes few ends]
  intro text decl isDecl
  apply recovered
  unfold declarationForms
  cases isDecl with
  | classDecl isClass isName isSuperclass opens areMethods closes =>
      refine .accept (List.mem_singleton.mpr isClass) ?_
      exact (takes_classDeclaration takesDecl isName isSuperclass opens areMethods closes
        within).mono (Nat.sub_le _ _) fun _ _ => trivial
  | funDecl isFun isDecl =>
      refine .pass (.one isFun) (by decide) (.accept (List.mem_singleton.mpr isFun) ?_)
      exact (takes_function takesDecl .function isDecl within).done (Nat.sub_le _ _)
        (fun _ _ => trivial) .pure
  | varDecl isVar isVariable =>
      refine .pass (.one isVar) (by decide) (.pass (.one isVar) (by decide) ?_)
      refine .accept (List.mem_singleton.mpr isVar) ?_
      exact (takes_varDeclaration isVariable).mono (Nat.sub_le _ _) fun _ _ => trivial
  | stmt isStmt =>
      have begins := isStmt.begins
      refine .pass begins (by decide) (.pass begins (by decide) (.pass begins (by decide) ?_))
      exact takes_statementForms takes takesDecl within _ _ _ isStmt

end Forms

theorem takes_statement_and_declaration (bound : Nat) :
    TakesStmt (statement bound) bound ∧ TakesDecl (declaration bound) bound := by
  induction bound with
  | zero =>
      exact ⟨fun _ _ _ isStmt => .of_zero isStmt.begins.ne_nil,
        fun _ _ isDecl => .of_zero isDecl.begins.ne_nil⟩
  | succ bound ih =>
      exact ⟨takes_statementForms ih.1 ih.2 (Nat.le_refl _),
        takes_declarationForms ih.1 ih.2 (Nat.le_refl _)⟩

end Lox.Parse
