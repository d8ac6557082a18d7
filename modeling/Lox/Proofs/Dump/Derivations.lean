import Lox.Proofs.Dump.Spelled
import Lox.Proofs.Parse.Grammar

/-!
# Derived trees are spelled

The grammar puts into a tree only tokens of the kinds that may stand there.
-/

namespace Lox

open Token Grammar

/-! ## Clear texts -/

/-- A token that is written as its kind tells, is not named as a block, and is no infinity. -/
structure Token.Clear (token : Token) : Prop where
  written : token.IsWritten
  noBlock : token.lexeme ≠ "block"
  finite : ∀ x, token.literal = some (.number x) → Decimal.IsFinite x

/-- All tokens of a text are clear. -/
def Clear (text : Text) : Prop := ∀ token ∈ text, token.name.Clear

@[simp] theorem clear_cons {token : Reference} {text : Text} :
    Clear (token :: text) ↔ token.name.Clear ∧ Clear text := List.forall_mem_cons

@[simp] theorem clear_append {first others : Text} :
    Clear (first ++ others) ↔ Clear first ∧ Clear others := List.forall_mem_append

@[simp] theorem clear_nil : Clear [] := fun _ none => (List.not_mem_nil none).elim

namespace Token.Clear

variable {token : Token}

theorem among (clear : token.Clear) {kinds : List Kind} (kind : token.kind ∈ kinds) :
    token.Stands kinds := ⟨kind, clear.written, clear.noBlock⟩

theorem stands (clear : token.Clear) {kind : Kind} (isKind : token.kind = kind) :
    token.Stands [kind] := clear.among (List.mem_singleton.mpr isKind)

/-- The value of a token is one whose text can be read. -/
theorem shown (clear : token.Clear) : token.value.Shown := by
  obtain ⟨written, _, finite⟩ := clear
  unfold value
  have lexeme : Lexeme token.kind token.lexeme.toList token.literal := written
  generalize token.kind = kind, token.lexeme.toList = text, token.literal = literal at lexeme finite
  cases lexeme with
  | symbol written => trivial
  | reserved isWord => cases kind <;> trivial
  | identifier isWord unreserved => trivial
  | whole areDigits => exact finite _ rfl
  | decimal beforePoint afterPoint => exact finite _ rfl
  | string closed => simpa [Literal.Shown] using closed

end Token.Clear

/-! ## Expressions -/

theorem Grammar.Tier.spelled_node {tier : Tier} {left right : Expr} {operator : Token}
    (isLeft : left.Spelled) (clear : operator.Clear) (joins : operator.kind ∈ tier.operators)
    (isRight : right.Spelled) : (tier.node left operator right).Spelled := by
  have among {kinds : List Kind} (inTable : tier.operators ⊆ kinds) : operator.Stands kinds :=
    clear.among (inTable joins)
  cases tier with
  | disjunction => exact ⟨isLeft, among (by decide), isRight⟩
  | conjunction => exact ⟨isLeft, among (by decide), isRight⟩
  | equality => exact ⟨isLeft, among (by decide), isRight⟩
  | comparison => exact ⟨isLeft, among (by decide), isRight⟩
  | sum => exact ⟨isLeft, among (by decide), isRight⟩
  | product => exact ⟨isLeft, among (by decide), isRight⟩

/-! Induction is on the derivation, whose subderivations belong to parts of the text. -/

mutual
theorem Grammar.IsPrimary.spelled : ∀ {text : Text} {expr : Expr},
    IsPrimary text expr → Clear text → expr.Spelled
  | _, _, .literal _, clear => (clear_cons.mp clear).1.shown
  | _, _, .super isSuper _ isMethod, clear => by
      obtain ⟨keyword, _, method⟩ := by simpa using clear
      exact ⟨keyword.stands isSuper, method.stands isMethod⟩
  | _, _, .this isThis, clear => (clear_cons.mp clear).1.stands isThis
  | _, _, .var isName, clear => (clear_cons.mp clear).1.among isName
  | _, _, .grouping _ isInner _, clear => by
      obtain ⟨_, inside, _⟩ := by simpa using clear
      exact isInner.spelled inside

theorem Grammar.IsUnary.spelled : ∀ {text : Text} {expr : Expr},
    IsUnary text expr → Clear text → expr.Spelled
  | _, _, .chain isChain, clear => isChain.spelled clear
  | _, _, .unary isOperator isOperand, clear => by
      obtain ⟨operator, operand⟩ := clear_cons.mp clear
      exact ⟨operator.among isOperator, isOperand.spelled operand⟩

theorem Grammar.IsExpr.spelled : ∀ {text : Text} {expr : Expr},
    IsExpr text expr → Clear text → expr.Spelled
  | _, _, .operation isOperation, clear => isOperation.spelled clear
  | _, _, .assign isName _ isValue, clear => by
      obtain ⟨name, _, value⟩ := by simpa using clear
      exact ⟨name.among isName, isValue.spelled value⟩
  | _, _, .set isTarget _ isValue, clear => by
      obtain ⟨target, _, value⟩ := by simpa using clear
      obtain ⟨object, name⟩ := isTarget.spelled target
      exact ⟨object, name, isValue.spelled value⟩

theorem Grammar.Chain.spelled : ∀ {text : Text} {expr : Expr},
    Chain IsExpr IsPrimary text expr → Clear text → expr.Spelled
  | _, _, .first isFirst, clear => isFirst.spelled clear
  | _, _, .call isCallee _ areArgs closes, clear => by
      obtain ⟨callee, _, inside, closing⟩ := by simpa using clear
      exact ⟨isCallee.spelled callee, closing.stands closes, areArgs.spelled inside⟩
  | _, _, .get isObject _ isName, clear => by
      obtain ⟨object, _, name⟩ := by simpa using clear
      exact ⟨isObject.spelled object, name.stands isName⟩

theorem Grammar.Operation.spelled : ∀ {tiers : List Tier} {text : Text} {expr : Expr},
    Operation IsUnary tiers text expr → Clear text → expr.Spelled
  | _, _, _, .operand isOperand, clear => isOperand.spelled clear
  | _, _, _, .tighter isTighter, clear => isTighter.spelled clear
  | _, _, _, .join isLeft joins isRight, clear => by
      obtain ⟨left, operator, right⟩ := by simpa using clear
      exact Tier.spelled_node (isLeft.spelled left) operator joins (isRight.spelled right)

theorem Grammar.Listed.spelled : ∀ {text : Text} {exprs : List Expr},
    Listed IsExpr text exprs → Clear text → SpelledAll exprs
  | _, _, .none, _ => trivial
  | _, _, .some items _, clear => items.spelled clear

theorem Grammar.Separated.spelled : ∀ {text : Text} {exprs : List Expr},
    Separated IsExpr text exprs → Clear text → SpelledAll exprs
  | _, _, .one isItem, clear => ⟨isItem.spelled clear, trivial⟩
  | _, _, .more isFirst _ areOthers, clear => by
      obtain ⟨first, _, others⟩ := by simpa using clear
      exact ⟨isFirst.spelled first, areOthers.spelled others⟩
end

theorem Grammar.Optional.spelled {text : Text} {expr : Option Expr}
    (isOptional : Optional IsExpr text expr) (clear : Clear text) : SpelledOptional expr := by
  cases isOptional with
  | none => trivial
  | some isItem => exact isItem.spelled clear

/-! ## Statements -/

theorem Grammar.IsVariable.spelled {text : Text} {stmt : Stmt} (isVariable : IsVariable text stmt)
    (clear : Clear text) : stmt.Spelled := by
  cases isVariable with
  | bare isName ends => exact ⟨(clear_cons.mp clear).1.stands isName, trivial⟩
  | initialized isName isEqual isInit ends =>
      obtain ⟨name, _, init, _⟩ := by simpa using clear
      exact ⟨name.stands isName, isInit.spelled init⟩

theorem Grammar.IsExpressionStatement.spelled {text : Text} {stmt : Stmt}
    (isStatement : IsExpressionStatement text stmt) (clear : Clear text) : stmt.Spelled := by
  cases isStatement with
  | expression isExpr ends => exact isExpr.spelled (clear_append.mp clear).1

theorem Grammar.IsPrint.spelled {keyword : Reference} {text : Text} {stmt : Stmt}
    (isPrint : IsPrint keyword text stmt) (isWord : keyword.name.Stands nameKinds)
    (clear : Clear text) : stmt.Spelled := by
  cases isPrint with
  | call opens areArgs closes ends =>
      obtain ⟨_, inside, closing, _⟩ := by simpa using clear
      exact ⟨isWord, closing.stands closes, areArgs.spelled inside⟩
  | chain opens areArgs closes several isChain ends =>
      obtain ⟨_, inside, closing, after, _⟩ := by simpa using clear
      have native := And.intro isWord (And.intro (closing.stands closes) (areArgs.spelled inside))
      clear clear several ends
      induction isChain with
      | first isFirst => exact isFirst.2 ▸ native
      | call isCallee opens' areMore closes' ih =>
          obtain ⟨callee, _, more, closing'⟩ := by simpa using after
          exact ⟨ih callee, closing'.stands closes', areMore.spelled more⟩
      | get isObject isDot isName ih =>
          obtain ⟨object, _, name⟩ := by simpa using after
          exact ⟨ih object, name.stands isName⟩
  | grouped opens isInner closes isValue leads more ends =>
      refine isValue.spelled ?_
      obtain ⟨opening, inside, closing, after, _⟩ := by simpa using clear
      simpa using ⟨opening, inside, closing, after⟩
  | value isValue plain ends => exact isValue.spelled (clear_append.mp clear).1

theorem Grammar.IsParam.stands {text : Text} {param : Token} (isParam : IsParam text param)
    (clear : Clear text) : param.Stands [.identifier] := by
  cases isParam with
  | name isName => exact (clear_cons.mp clear).1.stands isName

theorem Grammar.stands_params {text : Text} {params : List Token}
    (areParams : Listed IsParam text params) (clear : Clear text) :
    ∀ param ∈ params, param.Stands [.identifier] := by
  cases areParams with
  | none => exact fun _ none => (List.not_mem_nil none).elim
  | some items few =>
      clear few
      induction items with
      | one isItem => exact List.forall_mem_singleton.mpr (isItem.stands clear)
      | more isFirst isComma areOthers ih =>
          obtain ⟨first, _, others⟩ := by simpa using clear
          exact List.forall_mem_cons.mpr ⟨isFirst.stands first, ih others⟩

/-- The statements around the loop that a `for` stands for hold nothing that was not written. -/
theorem Grammar.IsLoop.spelled {init : Option Stmt} {condition increment : Option Expr}
    {body loop : Stmt} (isLoop : IsLoop init condition increment body loop)
    (isInit : ∀ stmt ∈ init, stmt.Spelled) (isCondition : SpelledOptional condition)
    (isIncrement : SpelledOptional increment) (isBody : body.Spelled) : loop.Spelled := by
  induction isLoop with
  | endless => exact ⟨trivial, isBody⟩
  | conditional => exact ⟨isCondition, isBody⟩
  | incremented _ ih => exact ih nofun isCondition trivial ⟨isBody, isIncrement, trivial⟩
  | initialized _ ih =>
      exact ⟨isInit _ rfl, ih nofun isCondition isIncrement isBody, trivial⟩

theorem Grammar.IsInitializer.spelled {text : Text} {init : Option Stmt}
    (isInit : IsInitializer text init) (clear : Clear text) : ∀ stmt ∈ init, stmt.Spelled := by
  rintro stmt ⟨⟩
  cases isInit with
  | declared isVar isVariable => exact isVariable.spelled (clear_cons.mp clear).2
  | expression isStatement => exact isStatement.spelled clear

mutual
theorem Grammar.IsStmt.spelled : ∀ {closed : Bool} {text : Text} {stmt : Stmt},
    IsStmt closed text stmt → Clear text → stmt.Spelled
  | _, _, _, .forLoop _ _ isInit isCondition _ isIncrement _ isBody isLoop, clear => by
      obtain ⟨_, _, first, second, _, third, _, body⟩ := by simpa using clear
      exact isLoop.spelled (isInit.spelled first) (isCondition.spelled second)
        (isIncrement.spelled third) (isBody.spelled body)
  | _, _, _, .ifThen _ _ isCondition _ isThen, clear => by
      obtain ⟨_, _, condition, _, thenBranch⟩ := by simpa using clear
      exact ⟨isCondition.spelled condition, isThen.spelled thenBranch⟩
  | _, _, _, .ifElse _ _ isCondition _ isThen _ isOther, clear => by
      obtain ⟨_, _, condition, _, thenBranch, _, others⟩ := by simpa using clear
      exact ⟨isCondition.spelled condition, isThen.spelled thenBranch, isOther.spelled others⟩
  | _, _, _, .inclusion _ isPath _, clear => by
      obtain ⟨_, path, _⟩ := by simpa using clear
      exact path.stands isPath
  | _, _, _, .print isPrint isRest, clear => by
      obtain ⟨keyword, rest⟩ := clear_cons.mp clear
      have isName := List.mem_cons_of_mem Kind.identifier (List.mem_singleton.mpr isPrint)
      exact isRest.spelled (keyword.among isName) rest
  | _, _, _, .ret isReturn isValue _, clear => by
      obtain ⟨keyword, value, _⟩ := by simpa using clear
      exact ⟨keyword.stands isReturn, isValue.spelled value⟩
  | _, _, _, .whileLoop _ _ isCondition _ isBody, clear => by
      obtain ⟨_, _, condition, _, body⟩ := by simpa using clear
      exact ⟨isCondition.spelled condition, isBody.spelled body⟩
  | _, _, _, .block _ isBody _, clear => by
      obtain ⟨_, body, _⟩ := by simpa using clear
      exact isBody.spelledBody body
  | _, _, _, .expression _ isStatement, clear => isStatement.spelled clear

theorem Grammar.IsDecl.spelled : ∀ {text : Text} {stmt : Stmt},
    IsDecl text stmt → Clear text → stmt.Spelled
  | _, _, .classDecl _ isName isSuperclass _ areMethods _, clear => by
      obtain ⟨_, name, inherits, _, methods, _⟩ := by simpa using clear
      cases isSuperclass with
      | none => exact ⟨name.stands isName, areMethods.spelledMethods methods⟩
      | some isLess isSuper =>
          obtain ⟨_, superclass⟩ := by simpa using inherits
          exact ⟨name.stands isName, superclass.stands isSuper, areMethods.spelledMethods methods⟩
  | _, _, .funDecl _ isDecl, clear => isDecl.spelled (clear_cons.mp clear).2
  | _, _, .varDecl _ isVariable, clear => isVariable.spelled (clear_cons.mp clear).2
  | _, _, .stmt isStmt, clear => isStmt.spelled clear

theorem Grammar.IsFun.spelled : ∀ {text : Text} {decl : FunDecl},
    IsFun text decl → Clear text → decl.Spelled
  | _, _, .decl isName _ areParams _ _ isBody _, clear => by
      obtain ⟨name, _, params, _, _, body, _⟩ := by simpa using clear
      exact ⟨name.stands isName, stands_params areParams params, isBody.spelledBody body⟩

theorem Grammar.Sequence.spelledBody : ∀ {text : Text} {stmts : List Stmt},
    Sequence IsDecl text stmts → Clear text → SpelledBody stmts
  | _, _, .nil, _ => trivial
  | _, _, .cons isFirst areOthers, clear => by
      obtain ⟨first, others⟩ := clear_append.mp clear
      exact ⟨isFirst.spelled first, areOthers.spelledBody others⟩

theorem Grammar.Sequence.spelledMethods : ∀ {text : Text} {methods : List FunDecl},
    Sequence IsFun text methods → Clear text → SpelledMethods methods
  | _, _, .nil, _ => trivial
  | _, _, .cons isFirst areOthers, clear => by
      obtain ⟨first, others⟩ := clear_append.mp clear
      exact ⟨isFirst.spelled first, areOthers.spelledMethods others⟩
end

end Lox
