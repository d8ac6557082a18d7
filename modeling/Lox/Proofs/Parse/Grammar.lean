import Lox.Tree

/-!
# The grammar

Which texts are phrases of the language, and of which trees.  A text is a list of numbered tokens;
a token whose name is looked up stands in the tree with its number.

The levels of binary operators associate to the left, chains of calls and property accesses nest to
the left, and assignment associates to the right.  An `else` belongs to the nearest `if`: what
stands before it must be a closed statement, which no `else` can follow as a part of it.
-/

namespace Lox

/-- The kind of a numbered token. -/
def Reference.kind (token : Reference) : Kind := token.name.kind

namespace Grammar

/-- Tokens with their numbers. -/
abbrev Text := List Reference

/-! ## Lists -/

section Lists

variable {α : Type}

/-- Items after each other. -/
inductive Sequence (item : Text → α → Prop) : Text → List α → Prop where
  | nil : Sequence item [] []
  | cons {first others : Text} {a : α} {as : List α} (isFirst : item first a)
      (areOthers : Sequence item others as) : Sequence item (first ++ others) (a :: as)

/-- One item or more, with commas between them. -/
inductive Separated (item : Text → α → Prop) : Text → List α → Prop where
  | one {text : Text} {a : α} (isItem : item text a) : Separated item text [a]
  | more {first others : Text} {comma : Reference} {a : α} {as : List α} (isFirst : item first a)
      (isComma : comma.kind = .comma) (areOthers : Separated item others as) :
      Separated item (first ++ comma :: others) (a :: as)

/-- What may stand between parentheses: at most 255 items. -/
inductive Listed (item : Text → α → Prop) : Text → List α → Prop where
  | none : Listed item [] []
  | some {text : Text} {as : List α} (items : Separated item text as) (few : as.length ≤ 255) :
      Listed item text as

/-- An item that may be left out. -/
inductive Optional (item : Text → α → Prop) : Text → Option α → Prop where
  | none : Optional item [] none
  | some {text : Text} {a : α} (isItem : item text a) : Optional item text (some a)

end Lists

/-! ## Expressions -/

/-- The levels of binary operators. -/
inductive Tier where
  | disjunction | conjunction | equality | comparison | sum | product
deriving DecidableEq

namespace Tier

/-- All levels, the loosest first. -/
def all : List Tier := [disjunction, conjunction, equality, comparison, sum, product]

def operators : Tier → List Kind
  | disjunction => [.orWord]
  | conjunction => [.andWord]
  | equality => [.bangEqual, .equalEqual]
  | comparison => [.greater, .greaterEqual, .less, .lessEqual]
  | sum => [.minus, .plus]
  | product => [.star, .slash]

def node : Tier → Expr → Token → Expr → Expr
  | disjunction => .logical
  | conjunction => .logical
  | _ => .binary

end Tier

/-- Expressions whose leftmost operand is the given one. -/
inductive LeadsWith (operand : Expr) : Expr → Prop where
  | refl : LeadsWith operand operand
  | call {callee : Expr} {paren : Token} {args : List Expr} (leads : LeadsWith operand callee) :
      LeadsWith operand (.call callee paren args)
  | get {object : Expr} {name : Token} (leads : LeadsWith operand object) :
      LeadsWith operand (.get object name)
  | node (tier : Tier) {left right : Expr} {operator : Token} (leads : LeadsWith operand left) :
      LeadsWith operand (tier.node left operator right)
  | set {object value : Expr} {name : Token} (leads : LeadsWith operand object) :
      LeadsWith operand (.set object name value)

/-- Operands with operators of the given levels, loosest first, between them. -/
inductive Operation (operand : Text → Expr → Prop) : List Tier → Text → Expr → Prop where
  | operand {text : Text} {expr : Expr} (isOperand : operand text expr) :
      Operation operand [] text expr
  | tighter {tier : Tier} {tiers : List Tier} {text : Text} {expr : Expr}
      (isTighter : Operation operand tiers text expr) : Operation operand (tier :: tiers) text expr
  | join {tier : Tier} {tiers : List Tier} {before after : Text} {operator : Reference}
      {left right : Expr} (isLeft : Operation operand (tier :: tiers) before left)
      (joins : operator.kind ∈ tier.operators) (isRight : Operation operand tiers after right) :
      Operation operand (tier :: tiers) (before ++ operator :: after)
        (tier.node left operator.name right)

/-- Calls and property accesses that follow an expression. -/
inductive Chain (expr first : Text → Expr → Prop) : Text → Expr → Prop where
  | first {text : Text} {callee : Expr} (isFirst : first text callee) : Chain expr first text callee
  | call {text inside : Text} {callee : Expr} {args : List Expr} {opening closing : Reference}
      (isCallee : Chain expr first text callee) (opens : opening.kind = .leftParen)
      (areArgs : Listed expr inside args) (closes : closing.kind = .rightParen) :
      Chain expr first (text ++ opening :: (inside ++ [closing])) (.call callee closing.name args)
  | get {text : Text} {object : Expr} {dot name : Reference}
      (isObject : Chain expr first text object) (isDot : dot.kind = .dot)
      (isName : name.kind = .identifier) :
      Chain expr first (text ++ [dot, name]) (.get object name.name)

mutual
/-- An expression without operators; `print` names the native function of that name. -/
inductive IsPrimary : Text → Expr → Prop where
  | literal {token : Reference}
      (isLiteral : token.kind ∈ [.falseWord, .trueWord, .nilWord, .number, .string]) :
      IsPrimary [token] (.literal token.name.value)
  | super {keyword dot method : Reference} (isSuper : keyword.kind = .superWord)
      (isDot : dot.kind = .dot) (isMethod : method.kind = .identifier) :
      IsPrimary [keyword, dot, method] (.super keyword method.name)
  | this {keyword : Reference} (isThis : keyword.kind = .thisWord) :
      IsPrimary [keyword] (.this keyword)
  | var {name : Reference} (isName : name.kind ∈ [.identifier, .printWord]) :
      IsPrimary [name] (.var name)
  | grouping {opening closing : Reference} {text : Text} {inner : Expr}
      (opens : opening.kind = .leftParen) (isInner : IsExpr text inner)
      (closes : closing.kind = .rightParen) :
      IsPrimary (opening :: (text ++ [closing])) (.grouping inner)

/-- Unary operators before a chain of calls. -/
inductive IsUnary : Text → Expr → Prop where
  | chain {text : Text} {expr : Expr} (isChain : Chain IsExpr IsPrimary text expr) :
      IsUnary text expr
  | unary {operator : Reference} {text : Text} {operand : Expr}
      (isOperator : operator.kind ∈ [.bang, .minus]) (isOperand : IsUnary text operand) :
      IsUnary (operator :: text) (.unary operator.name operand)

/-- An expression: an operation, or an assignment to a variable or to a property. -/
inductive IsExpr : Text → Expr → Prop where
  | operation {text : Text} {expr : Expr} (isOperation : Operation IsUnary Tier.all text expr) :
      IsExpr text expr
  | assign {name equals : Reference} {text : Text} {value : Expr}
      (isName : name.kind ∈ [.identifier, .printWord]) (isEqual : equals.kind = .equal)
      (isValue : IsExpr text value) : IsExpr (name :: equals :: text) (.assign name value)
  | set {target text : Text} {object value : Expr} {name : Token} {equals : Reference}
      (isTarget : Chain IsExpr IsPrimary target (.get object name))
      (isEqual : equals.kind = .equal) (isValue : IsExpr text value) :
      IsExpr (target ++ equals :: text) (.set object name value)
end

/-! ## Statements -/

/-- A parameter of a function. -/
inductive IsParam : Text → Token → Prop where
  | name {name : Reference} (isName : name.kind = .identifier) : IsParam [name] name.name

/-- A variable declaration from its name on. -/
inductive IsVariable : Text → Stmt → Prop where
  | bare {name semicolon : Reference} (isName : name.kind = .identifier)
      (ends : semicolon.kind = .semicolon) : IsVariable [name, semicolon] (.varDecl name.name none)
  | initialized {name equals semicolon : Reference} {text : Text} {init : Expr}
      (isName : name.kind = .identifier) (isEqual : equals.kind = .equal)
      (isInit : IsExpr text init) (ends : semicolon.kind = .semicolon) :
      IsVariable (name :: equals :: (text ++ [semicolon])) (.varDecl name.name (some init))

/-- An expression and the semicolon that makes it a statement. -/
inductive IsExpressionStatement : Text → Stmt → Prop where
  | expression {text : Text} {expr : Expr} {semicolon : Reference} (isExpr : IsExpr text expr)
      (ends : semicolon.kind = .semicolon) :
      IsExpressionStatement (text ++ [semicolon]) (.expression expr)

/-- The first clause of a `for`, with the semicolon that ends it. -/
inductive IsInitializer : Text → Option Stmt → Prop where
  | none {semicolon : Reference} (ends : semicolon.kind = .semicolon) :
      IsInitializer [semicolon] none
  | declared {keyword : Reference} {text : Text} {init : Stmt} (isVar : keyword.kind = .varWord)
      (isVariable : IsVariable text init) : IsInitializer (keyword :: text) (some init)
  | expression {text : Text} {init : Stmt} (isStatement : IsExpressionStatement text init) :
      IsInitializer text (some init)

/-- The tree of a `for` by its clauses and its body: statements around a `while`. -/
inductive IsLoop : Option Stmt → Option Expr → Option Expr → Stmt → Stmt → Prop where
  | endless {body : Stmt} : IsLoop none none none body (.whileLoop (.literal (.bool true)) body)
  | conditional {condition : Expr} {body : Stmt} :
      IsLoop none (some condition) none body (.whileLoop condition body)
  /-- The increment comes behind the body, each time. -/
  | incremented {condition : Option Expr} {increment : Expr} {body loop : Stmt}
      (isLoop : IsLoop none condition none (.block [body, .expression increment]) loop) :
      IsLoop none condition (some increment) body loop
  /-- The first clause comes before the loop, in a block with it. -/
  | initialized {init : Stmt} {condition increment : Option Expr} {body loop : Stmt}
      (isLoop : IsLoop none condition increment body loop) :
      IsLoop (some init) condition increment body (.block [init, loop])

/-- The superclass that a class may name. -/
inductive IsSuperclass : Text → Option Reference → Prop where
  | none : IsSuperclass [] none
  | some {less name : Reference} (isLess : less.kind = .less) (isName : name.kind = .identifier) :
      IsSuperclass [less, name] (some name)

/--
Statements that start with `print`, from the token after it on.  A list in parentheses directly
before the semicolon is that of a call of the native function, and so is one that holds no
expression or several of them.  One expression in parentheses before anything else is a grouping,
with which the printed expression starts.
-/
inductive IsPrint (keyword : Reference) : Text → Stmt → Prop where
  | call {opening closing semicolon : Reference} {inside : Text} {args : List Expr}
      (opens : opening.kind = .leftParen) (areArgs : Listed IsExpr inside args)
      (closes : closing.kind = .rightParen) (ends : semicolon.kind = .semicolon) :
      IsPrint keyword (opening :: (inside ++ [closing, semicolon]))
        (.expression (.call (.var keyword) closing.name args))
  | chain {opening closing semicolon : Reference} {inside text : Text} {args : List Expr}
      {expr : Expr} (opens : opening.kind = .leftParen) (areArgs : Listed IsExpr inside args)
      (closes : closing.kind = .rightParen) (several : args.length ≠ 1)
      (isChain : Chain IsExpr
        (fun text callee => text = [] ∧ callee = .call (.var keyword) closing.name args) text expr)
      (ends : semicolon.kind = .semicolon) :
      IsPrint keyword (opening :: (inside ++ closing :: (text ++ [semicolon]))) (.expression expr)
  | grouped {opening closing semicolon : Reference} {inside text : Text} {inner value : Expr}
      (opens : opening.kind = .leftParen) (isInner : IsExpr inside inner)
      (closes : closing.kind = .rightParen)
      (isValue : IsExpr (opening :: (inside ++ closing :: text)) value)
      (leads : LeadsWith (.grouping inner) value) (more : text ≠ [])
      (ends : semicolon.kind = .semicolon) :
      IsPrint keyword (opening :: (inside ++ closing :: (text ++ [semicolon]))) (.print value)
  | value {text : Text} {value : Expr} {semicolon : Reference} (isValue : IsExpr text value)
      (plain : ∀ token, text.head? = some token → token.kind ≠ .leftParen)
      (ends : semicolon.kind = .semicolon) : IsPrint keyword (text ++ [semicolon]) (.print value)

mutual
/-- A statement; one that is closed is not continued by an `else` that follows. -/
inductive IsStmt : Bool → Text → Stmt → Prop where
  | forLoop {closed : Bool} {keyword opening semicolon closing : Reference}
      {first second third text : Text} {init : Option Stmt} {condition increment : Option Expr}
      {body loop : Stmt} (isFor : keyword.kind = .forWord) (opens : opening.kind = .leftParen)
      (isInit : IsInitializer first init) (isCondition : Optional IsExpr second condition)
      (ends : semicolon.kind = .semicolon) (isIncrement : Optional IsExpr third increment)
      (closes : closing.kind = .rightParen) (isBody : IsStmt closed text body)
      (isLoop : IsLoop init condition increment body loop) :
      IsStmt closed
        (keyword :: opening :: (first ++ (second ++ semicolon :: (third ++ closing :: text)))) loop
  | ifThen {keyword opening closing : Reference} {inside text : Text} {condition : Expr}
      {thenBranch : Stmt} (isIf : keyword.kind = .ifWord) (opens : opening.kind = .leftParen)
      (isCondition : IsExpr inside condition) (closes : closing.kind = .rightParen)
      (isThen : IsStmt false text thenBranch) :
      IsStmt false (keyword :: opening :: (inside ++ closing :: text))
        (.ifElse condition thenBranch none)
  | ifElse {closed : Bool} {keyword opening closing separator : Reference}
      {inside text others : Text} {condition : Expr} {thenBranch elseBranch : Stmt}
      (isIf : keyword.kind = .ifWord) (opens : opening.kind = .leftParen)
      (isCondition : IsExpr inside condition) (closes : closing.kind = .rightParen)
      (isThen : IsStmt true text thenBranch) (isElse : separator.kind = .elseWord)
      (isOther : IsStmt closed others elseBranch) :
      IsStmt closed (keyword :: opening :: (inside ++ closing :: (text ++ separator :: others)))
        (.ifElse condition thenBranch (some elseBranch))
  | inclusion {closed : Bool} {keyword path semicolon : Reference}
      (isInclude : keyword.kind = .includeWord) (isPath : path.kind = .string)
      (ends : semicolon.kind = .semicolon) :
      IsStmt closed [keyword, path, semicolon] (.inclusion path.name)
  | print {closed : Bool} {keyword : Reference} {text : Text} {stmt : Stmt}
      (isPrint : keyword.kind = .printWord) (isRest : IsPrint keyword text stmt) :
      IsStmt closed (keyword :: text) stmt
  | ret {closed : Bool} {keyword semicolon : Reference} {text : Text} {value : Option Expr}
      (isReturn : keyword.kind = .returnWord) (isValue : Optional IsExpr text value)
      (ends : semicolon.kind = .semicolon) :
      IsStmt closed (keyword :: (text ++ [semicolon])) (.ret keyword.name value)
  | whileLoop {closed : Bool} {keyword opening closing : Reference} {inside text : Text}
      {condition : Expr} {body : Stmt} (isWhile : keyword.kind = .whileWord)
      (opens : opening.kind = .leftParen) (isCondition : IsExpr inside condition)
      (closes : closing.kind = .rightParen) (isBody : IsStmt closed text body) :
      IsStmt closed (keyword :: opening :: (inside ++ closing :: text)) (.whileLoop condition body)
  | block {closed : Bool} {opening closing : Reference} {text : Text} {body : List Stmt}
      (opens : opening.kind = .leftBrace) (isBody : Sequence IsDecl text body)
      (closes : closing.kind = .rightBrace) :
      IsStmt closed (opening :: (text ++ [closing])) (.block body)
  | expression {closed : Bool} {text : Text} {stmt : Stmt}
      (plain : ∀ token, text.head? = some token → token.kind ≠ .printWord)
      (isStatement : IsExpressionStatement text stmt) : IsStmt closed text stmt

/-- A statement, or the declaration of a class, a function or a variable. -/
inductive IsDecl : Text → Stmt → Prop where
  | classDecl {keyword name opening closing : Reference} {inherits text : Text}
      {superclass : Option Reference} {methods : List FunDecl}
      (isClass : keyword.kind = .classWord) (isName : name.kind = .identifier)
      (isSuperclass : IsSuperclass inherits superclass) (opens : opening.kind = .leftBrace)
      (areMethods : Sequence IsFun text methods) (closes : closing.kind = .rightBrace) :
      IsDecl (keyword :: name :: (inherits ++ opening :: (text ++ [closing])))
        (.classDecl name.name superclass methods)
  | funDecl {keyword : Reference} {text : Text} {decl : FunDecl} (isFun : keyword.kind = .funWord)
      (isDecl : IsFun text decl) : IsDecl (keyword :: text) (.funDecl decl)
  | varDecl {keyword : Reference} {text : Text} {decl : Stmt} (isVar : keyword.kind = .varWord)
      (isVariable : IsVariable text decl) : IsDecl (keyword :: text) decl
  | stmt {text : Text} {stmt : Stmt} (isStmt : IsStmt false text stmt) : IsDecl text stmt

/-- A function or a method from its name on. -/
inductive IsFun : Text → FunDecl → Prop where
  | decl {name opening closing start stop : Reference} {inside text : Text} {params : List Token}
      {body : List Stmt} (isName : name.kind = .identifier) (opens : opening.kind = .leftParen)
      (areParams : Listed IsParam inside params) (closes : closing.kind = .rightParen)
      (starts : start.kind = .leftBrace) (isBody : Sequence IsDecl text body)
      (stops : stop.kind = .rightBrace) :
      IsFun (name :: opening :: (inside ++ closing :: start :: (text ++ [stop])))
        ⟨name.name, params, body⟩
end

/-- A whole program. -/
def IsProgram : Text → List Stmt → Prop := Sequence IsDecl

end Grammar

end Lox
