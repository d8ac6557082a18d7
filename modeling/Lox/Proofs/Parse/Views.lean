import Lox.Proofs.Parse.Grammar

/-!
# Phrases from left to right

What phrases start with, and the phrases that nest to the left taken apart from the left: a chain
of calls is its first expression with links behind it, an operation its first operand with operators
and further operands behind it.
-/

namespace Lox.Grammar

/-! ## What texts start with -/

/-- The first token of a text is of one of the kinds. -/
def Begins (kinds : List Kind) (text : Text) : Prop :=
  ∃ token others, text = token :: others ∧ token.kind ∈ kinds

namespace Begins

variable {kinds others : List Kind} {text : Text}

theorem cons {token : Reference} (isOf : token.kind ∈ kinds) : Begins kinds (token :: text) :=
  ⟨token, text, rfl, isOf⟩

theorem mono (begins : Begins kinds text) (listed : kinds ⊆ others) : Begins others text := by
  obtain ⟨token, rest, rfl, isOf⟩ := begins
  exact .cons (listed isOf)

theorem append (begins : Begins kinds text) (more : Text) : Begins kinds (text ++ more) := by
  obtain ⟨token, rest, rfl, isOf⟩ := begins
  exact .cons isOf

theorem ne_nil (begins : Begins kinds text) : text ≠ [] := by
  obtain ⟨token, rest, rfl, _⟩ := begins
  exact List.cons_ne_nil token rest

/-- The first token is of the kind. -/
theorem one {kind : Kind} {token : Reference} (isOf : token.kind = kind) :
    Begins [kind] (token :: text) :=
  .cons (List.mem_singleton.mpr isOf)

end Begins

/-- The kinds of the tokens that an expression without operators starts with. -/
def primaryStarts : List Kind :=
  [.falseWord, .trueWord, .nilWord, .number, .string] ++
    [.superWord, .thisWord, .identifier, .printWord, .leftParen]

/-- The kinds of the tokens that an expression starts with. -/
def expressionStarts : List Kind := primaryStarts ++ [.bang, .minus]

theorem IsPrimary.begins {text : Text} {expr : Expr} (isPrimary : IsPrimary text expr) :
    Begins primaryStarts text := by
  cases isPrimary with
  | literal isLiteral => exact .cons (List.mem_append_left _ isLiteral)
  | super isSuper _ _ => exact .cons (by rw [isSuper]; decide)
  | this isThis => exact .cons (by rw [isThis]; decide)
  | var isName =>
      have listed : [Kind.identifier, .printWord] ⊆ primaryStarts := by decide
      exact .cons (listed isName)
  | grouping opens _ _ => exact .cons (by rw [opens]; decide)

theorem Chain.begins {expr first : Text → Expr → Prop} {starts : List Kind}
    (begins : ∀ text e, first text e → Begins starts text) {text : Text} {e : Expr}
    (isChain : Chain expr first text e) : Begins starts text := by
  induction isChain with
  | first isFirst => exact begins _ _ isFirst
  | call _ _ _ _ ih => exact ih.append _
  | get _ _ _ ih => exact ih.append _

theorem IsUnary.begins {text : Text} {expr : Expr} (isUnary : IsUnary text expr) :
    Begins expressionStarts text := by
  cases isUnary with
  | chain isChain =>
      exact (Chain.begins (fun _ _ => IsPrimary.begins) isChain).mono (List.subset_append_left _ _)
  | unary isOperator _ => exact .cons (List.mem_append_right _ isOperator)

theorem Operation.begins {tiers : List Tier} {text : Text} {expr : Expr}
    (isOperation : Operation IsUnary tiers text expr) : Begins expressionStarts text := by
  induction isOperation with
  | operand isOperand => exact IsUnary.begins isOperand
  | tighter _ ih => exact ih
  | join _ _ _ ih _ => exact ih.append _

theorem IsExpr.begins {text : Text} {expr : Expr} (isExpr : IsExpr text expr) :
    Begins expressionStarts text := by
  cases isExpr with
  | operation isOperation => exact Operation.begins isOperation
  | assign isName _ _ =>
      have listed : [Kind.identifier, .printWord] ⊆ expressionStarts := by decide
      exact .cons (listed isName)
  | set isTarget _ _ => exact (IsUnary.begins (.chain isTarget)).append _

/-- The kinds of the tokens that a statement starts with. -/
def statementStarts : List Kind :=
  expressionStarts ++ [.forWord, .ifWord, .includeWord, .returnWord, .whileWord, .leftBrace]

/-- The kinds of the tokens that a declaration starts with. -/
def declarationStarts : List Kind := statementStarts ++ [.classWord, .funWord, .varWord]

theorem IsExpressionStatement.begins {text : Text} {stmt : Stmt}
    (isStatement : IsExpressionStatement text stmt) : Begins expressionStarts text := by
  cases isStatement with
  | expression isExpr _ => exact isExpr.begins.append _

theorem IsStmt.begins {closed : Bool} {text : Text} {stmt : Stmt} (isStmt : IsStmt closed text stmt) :
    Begins statementStarts text := by
  cases isStmt with
  | forLoop isFor _ _ _ _ _ _ _ _ => exact .cons (by rw [isFor]; decide)
  | ifThen isIf _ _ _ _ => exact .cons (by rw [isIf]; decide)
  | ifElse isIf _ _ _ _ _ _ => exact .cons (by rw [isIf]; decide)
  | inclusion isInclude _ _ => exact .cons (by rw [isInclude]; decide)
  | print isPrint _ => exact .cons (by rw [isPrint]; decide)
  | ret isReturn _ _ => exact .cons (by rw [isReturn]; decide)
  | whileLoop isWhile _ _ _ _ => exact .cons (by rw [isWhile]; decide)
  | block opens _ _ => exact .cons (by rw [opens]; decide)
  | expression _ isStatement => exact isStatement.begins.mono (List.subset_append_left _ _)

theorem IsDecl.begins {text : Text} {decl : Stmt} (isDecl : IsDecl text decl) :
    Begins declarationStarts text := by
  cases isDecl with
  | classDecl isClass _ _ _ _ _ => exact .cons (by rw [isClass]; decide)
  | funDecl isFun _ => exact .cons (by rw [isFun]; decide)
  | varDecl isVar _ => exact .cons (by rw [isVar]; decide)
  | stmt isStmt => exact isStmt.begins.mono (List.subset_append_left _ _)

theorem IsFun.begins {text : Text} {decl : FunDecl} (isFun : IsFun text decl) :
    Begins [.identifier] text := by
  cases isFun with
  | decl isName _ _ _ _ _ _ => exact .one isName

theorem IsParam.begins {text : Text} {param : Token} (isParam : IsParam text param) :
    Begins [.identifier] text := by
  cases isParam with
  | name isName => exact .one isName

/-! ### Calls and property accesses -/

/-- Calls and property accesses from an expression that was read before to the whole one. -/
inductive Links (expr : Text → Expr → Prop) : Expr → Text → Expr → Prop where
  | nil {callee : Expr} : Links expr callee [] callee
  | call {inside text : Text} {callee result : Expr} {args : List Expr}
      {opening closing : Reference} (opens : opening.kind = .leftParen)
      (areArgs : Listed expr inside args) (closes : closing.kind = .rightParen)
      (others : Links expr (.call callee closing.name args) text result) :
      Links expr callee (opening :: (inside ++ closing :: text)) result
  | get {text : Text} {object result : Expr} {dot name : Reference} (isDot : dot.kind = .dot)
      (isName : name.kind = .identifier) (others : Links expr (.get object name.name) text result) :
      Links expr object (dot :: name :: text) result

namespace Links

variable {expr first : Text → Expr → Prop} {callee middle result : Expr} {text more : Text}

theorem append (links : Links expr callee text middle) (others : Links expr middle more result) :
    Links expr callee (text ++ more) result := by
  induction links with
  | nil => exact others
  | call opens areArgs closes _ ih => simpa using Links.call opens areArgs closes (ih others)
  | get isDot isName _ ih => exact .get isDot isName (ih others)

/-- A chain is its first expression, and what follows that. -/
theorem of_chain (isChain : Chain expr first text result) :
    ∃ front callee others, text = front ++ others ∧ first front callee ∧
      Links expr callee others result := by
  induction isChain with
  | first isFirst => exact ⟨_, _, [], (List.append_nil _).symm, isFirst, .nil⟩
  | call _ opens areArgs closes ih =>
      obtain ⟨front, callee, others, rfl, isFirst, links⟩ := ih
      refine ⟨front, callee, _, List.append_assoc _ _ _, isFirst, links.append ?_⟩
      exact .call opens areArgs closes .nil
  | get _ isDot isName ih =>
      obtain ⟨front, callee, others, rfl, isFirst, links⟩ := ih
      refine ⟨front, callee, _, List.append_assoc _ _ _, isFirst, links.append ?_⟩
      exact .get isDot isName .nil

theorem nil_or_begins (links : Links expr callee text result) :
    (text = [] ∧ result = callee) ∨ Begins [.leftParen, .dot] text := by
  cases links with
  | nil => exact .inl ⟨rfl, rfl⟩
  | call opens _ _ _ => exact .inr (.cons (by rw [opens]; decide))
  | get isDot _ _ => exact .inr (.cons (by rw [isDot]; decide))

end Links

/-! ### Operators of one level -/

/-- Operators of a level, and operands of the tighter ones, from a left operand to the whole. -/
inductive Joins (operand : Text → Expr → Prop) (tier : Tier) (tiers : List Tier) :
    Expr → Text → Expr → Prop where
  | nil {left : Expr} : Joins operand tier tiers left [] left
  | join {after text : Text} {operator : Reference} {left right result : Expr}
      (joins : operator.kind ∈ tier.operators) (isRight : Operation operand tiers after right)
      (others : Joins operand tier tiers (tier.node left operator.name right) text result) :
      Joins operand tier tiers left (operator :: (after ++ text)) result

namespace Joins

variable {operand : Text → Expr → Prop} {tier : Tier} {tiers : List Tier}
  {left middle result : Expr} {text more : Text}

theorem append (joined : Joins operand tier tiers left text middle)
    (others : Joins operand tier tiers middle more result) :
    Joins operand tier tiers left (text ++ more) result := by
  induction joined with
  | nil => exact others
  | join joins isRight _ ih => simpa using Joins.join joins isRight (ih others)

/-- An operation is its first operand of the tighter levels, and what follows that. -/
theorem of_operation {levels : List Tier} (isOperation : Operation operand levels text result)
    (same : levels = tier :: tiers) :
    ∃ front left others, text = front ++ others ∧ Operation operand tiers front left ∧
      Joins operand tier tiers left others result := by
  induction isOperation with
  | operand _ => cases same
  | tighter isTighter _ =>
      cases same
      exact ⟨_, _, [], (List.append_nil _).symm, isTighter, .nil⟩
  | @join _ _ before after operator _ _ _ joins isRight ih _ =>
      cases same
      obtain ⟨front, left, others, rfl, isFirst, joined⟩ := ih rfl
      refine ⟨front, left, _, List.append_assoc _ _ _, isFirst, joined.append ?_⟩
      rw [← List.append_nil after]
      exact .join joins isRight .nil

end Joins

/-! ### Assignments -/

/-- The assignment of a value to what an expression names. -/
inductive Assigns (value : Expr) : Expr → Expr → Prop where
  | var {name : Reference} : Assigns value (.var name) (.assign name value)
  | set {object : Expr} {name : Token} : Assigns value (.get object name) (.set object name value)

/-- What may follow an operation that stands in front of an expression. -/
inductive Assignment (target : Expr) : Text → Expr → Prop where
  | none : Assignment target [] target
  | some {equals : Reference} {text : Text} {value result : Expr} (isEqual : equals.kind = .equal)
      (isValue : IsExpr text value) (assigns : Assigns value target result) :
      Assignment target (equals :: text) result

theorem Operation.of_unary {tiers : List Tier} {text : Text} {expr : Expr}
    (isUnary : IsUnary text expr) : Operation IsUnary tiers text expr := by
  induction tiers with
  | nil => exact .operand isUnary
  | cons tier tiers ih => exact .tighter ih

/-- An expression is an operation, or an assignment to one. -/
theorem Assignment.of_expr {text : Text} {result : Expr} (isExpr : IsExpr text result) :
    ∃ front target others, text = front ++ others ∧ Operation IsUnary Tier.all front target ∧
      Assignment target others result := by
  cases isExpr with
  | operation isOperation => exact ⟨_, _, [], (List.append_nil _).symm, isOperation, .none⟩
  | assign isName isEqual isValue =>
      refine ⟨[_], _, _, rfl, .of_unary (.chain (.first (.var isName))), ?_⟩
      exact .some isEqual isValue .var
  | set isTarget isEqual isValue =>
      exact ⟨_, _, _, rfl, .of_unary (.chain isTarget), .some isEqual isValue .set⟩

/-! ### Leftmost operands -/

theorem LeadsWith.ne_var {inner target : Expr} (leads : LeadsWith (.grouping inner) target)
    (name : Reference) : target ≠ .var name := by
  cases leads with
  | node tier _ => cases tier <;> exact Expr.noConfusion
  | _ => exact Expr.noConfusion

theorem LeadsWith.of_get {inner object target : Expr} {name : Token}
    (leads : LeadsWith (.grouping inner) target) (isGet : target = .get object name) :
    LeadsWith (.grouping inner) object := by
  cases leads with
  | get leads =>
      cases isGet
      exact leads
  | node tier _ => cases tier <;> cases isGet
  | _ => cases isGet

end Lox.Grammar
