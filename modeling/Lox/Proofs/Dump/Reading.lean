import Lox.Proofs.Dump.Spelled

/-!
# Reading trees back

A tree is read off the shape that is dumped of it, but for what is not dumped: the lines of tokens
and the numbers of references.
-/

namespace Lox

open Token

/-! ## Tokens and numbers -/

/-- The token that is written so, apart from its line. -/
def Token.ofText (text : List Char) : Token :=
  ((ofSource (String.ofList text)).headD (.endOn 0)).bare

theorem Token.ofText_lexeme {token : Token} (written : token.IsWritten) :
    ofText token.lexeme.toList = token.bare := by
  obtain ⟨segments, covers, placed, read⟩ := exists_placed 1 token.lexeme.toList [] rfl
  have placed' : Placed [] (spacedSegments [] [token]) :=
    placed_spacedSegments [] [token] (List.forall_mem_singleton.mpr written)
  obtain rfl : segments = spacedSegments [] [token] :=
    placed_unique placed placed' (covers.trans (by simp [spacedSegments]))
  rw [ofText, String.ofList_toList, ofSource, scan, read]
  rfl

/-- A finite double that is shown so. -/
noncomputable def numberOf (text : List Char) : Float :=
  Function.invFunOn (fun x => (Decimal.text Literal.numberNames x).toList) {x | Decimal.IsFinite x}
    text

theorem numberOf_text {x : Float} (finite : Decimal.IsFinite x) :
    numberOf (Decimal.text Literal.numberNames x).toList = x := by
  have injective : Set.InjOn (fun x => (Decimal.text Literal.numberNames x).toList)
      {x | Decimal.IsFinite x} :=
    fun x finite y finite' same =>
      Decimal.text_injective finite finite' (String.toList_injective same)
  exact injective.leftInvOn_invFunOn finite

/-! ## Expressions -/

/-- The text of a shape that stands alone. -/
def Shape.label : Shape → List Char
  | .leaf text [] => text
  | _ => []

def Shape.token (shape : Shape) : Token := ofText shape.label

def Shape.reference (shape : Shape) : Reference := ⟨0, shape.token⟩

/-- What stands without parentheses and without names behind it. -/
noncomputable def leafExpr (text : List Char) : Expr :=
  if text = "nil".toList then .literal .nil
  else if text = "true".toList then .literal (.bool true)
  else if text = "false".toList then .literal (.bool false)
  else if text = "this".toList then .this ⟨0, ofText text⟩
  else if text.head? = some '"' then .literal (.string (String.ofList text.tail.dropLast))
  else if text.head?.any (fun c => c == '-' || Unicode.isDigit c) then
    .literal (.number (numberOf text))
  else .var ⟨0, ofText text⟩

/-- What stands without parentheses, with names behind it. -/
noncomputable def namedExpr (text : List Char) : List (List Char) → Expr
  | [] => leafExpr text
  | [name] =>
      if text = "super".toList then .super ⟨0, ofText text⟩ (ofText name)
      else .get (leafExpr text) (ofText name)
  | name :: names => .get (namedExpr text names) (ofText name)

/-- The form with a head, whose parts have been read as expressions. -/
def formExpr (head : List Char) (parts : List Shape) (exprs : List Expr) : Expr :=
  if head = "=".toList then
    match parts, exprs with
    | target :: _, [_, value] => .assign target.reference value
    | _, _ => default
  else if head = "call".toList then
    match exprs with
    | callee :: args => .call callee (ofText [')']) args
    | [] => default
  else if head = "group".toList then
    match exprs with
    | [inner] => .grouping inner
    | _ => default
  else if head = "set".toList then
    match exprs with
    | [.get object name, value] => .set object name value
    | _ => default
  else
    match exprs with
    | [operand] => .unary (ofText head) operand
    | [left, right] =>
        if head = "and".toList ∨ head = "or".toList then .logical left (ofText head) right
        else .binary left (ofText head) right
    | _ => default

mutual
/-- The expression that is dumped so. -/
noncomputable def Shape.expr : Shape → Expr
  | .leaf text names => namedExpr text names
  | .form head parts names =>
      names.foldr (fun name object => .get object (ofText name))
        (formExpr head.label parts (exprsOf parts))

noncomputable def exprsOf : List Shape → List Expr
  | [] => []
  | part :: parts => part.expr :: exprsOf parts
end

theorem exprsOf_eq_map (parts : List Shape) : exprsOf parts = parts.map Shape.expr := by
  induction parts with
  | nil => rfl
  | cons part parts ih => rw [exprsOf, ih, List.map_cons]

/-! ## The expression that is read is the one that was dumped -/

/-- How the tokens of a kind are written, if they all are written alike. -/
def Kind.text (kind : Kind) : List Char := kind.symbol ++ kind.spelling

/-- A token of a kind that is written in one way is written so. -/
theorem Token.Lexeme.eq_of_fixed {kind : Kind} {text : List Char} {literal : Option Literal}
    (lexeme : Lexeme kind text literal) (fixed : kind.text ≠ []) :
    text = kind.text := by
  cases lexeme with
  | symbol written => cases kind <;> first | rfl | exact absurd rfl written
  | reserved isWord => cases kind <;> first | rfl | cases isWord
  | _ => exact absurd rfl fixed

theorem Token.Stands.token_shape {kinds : List Kind} {token : Token}
    (stands : token.Stands kinds) : token.shape.token = token.bare := ofText_lexeme stands.written

theorem Token.Stands.lexeme_mem {kinds : List Kind} {token : Token} (stands : token.Stands kinds)
    (fixed : ∀ kind ∈ kinds, kind.text ≠ []) :
    token.lexeme.toList ∈ kinds.map Kind.text := by
  have lexeme : Lexeme token.kind token.lexeme.toList token.literal := stands.written
  rw [lexeme.eq_of_fixed (fixed _ stands.kind)]
  exact List.mem_map_of_mem stands.kind

theorem expr_dot {shape : Shape} (name : String) (other : shape ≠ .word "super") :
    (shape.dot name).expr = .get shape.expr (ofText name.toList) := by
  cases shape with
  | leaf text names =>
      cases names with
      | nil =>
          have isOther : text ≠ "super".toList := by
            rintro rfl
            exact other rfl
          rw [Shape.dot, Shape.expr, namedExpr, if_neg isOther]
          rfl
      | cons _ _ => rfl
  | form head parts names =>
      rw [Shape.dot, Shape.expr, Shape.expr]
      rfl

/-- A name is a word, and no reserved one but `print`. -/
theorem Token.Stands.unreserved {token : Token} (stands : token.Stands nameKinds) :
    IsWord token.lexeme.toList ∧ ∀ kind : Kind, kind.isWord = true → kind ≠ .printWord →
      token.lexeme.toList ≠ kind.spelling := by
  have lexeme : Lexeme token.kind token.lexeme.toList token.literal := stands.written
  have isName := stands.kind
  generalize token.lexeme.toList = text, token.literal = literal, token.kind = kind
    at lexeme isName
  have isName : kind = .identifier ∨ kind = .printWord := by simpa [nameKinds] using isName
  cases lexeme with
  | symbol written => rcases isName with rfl | rfl <;> exact absurd rfl written
  | reserved isWord =>
      refine ⟨isWord_spelling isWord, fun other reserved notPrint => ?_⟩
      rcases isName with rfl | rfl
      · cases isWord
      · cases other <;> first | decide | exact absurd rfl notPrint
  | identifier isWord unreserved => exact ⟨isWord, fun kind reserved _ => unreserved kind reserved⟩
  | _ => rcases isName with isName | isName <;> cases isName

/-- What does not start with a letter is no word. -/
theorem leafExpr_of_plain {text : List Char} (plain : text.head?.any isWordStart = false) :
    leafExpr text =
      if text.head? = some '"' then .literal (.string (String.ofList text.tail.dropLast))
      else if text.head?.any (fun c => c == '-' || Unicode.isDigit c) then
        .literal (.number (numberOf text))
      else .var ⟨0, ofText text⟩ := by
  have apart : ∀ word : List Char, word.head?.any isWordStart = true → text ≠ word := by
    rintro word starts rfl
    rw [plain] at starts
    cases starts
  rw [leafExpr, if_neg (apart _ rfl), if_neg (apart _ rfl), if_neg (apart _ rfl),
    if_neg (apart _ rfl)]

/-- A number is dumped with a digit or with the sign in front. -/
theorem starts_number {x : Float} (finite : Decimal.IsFinite x) :
    ∃ c rest, (Decimal.text Literal.numberNames x).toList = c :: rest ∧
      (c = '-' ∨ Unicode.isDigit c = true) := by
  obtain ⟨_, numeral, _⟩ := Decimal.numeral_magnitudeText (Decimal.finite_magnitude finite)
  obtain ⟨c, rest, starts, isDigit⟩ := numeral.starts
  rw [Decimal.toList_text _ finite, starts]
  split
  · exact ⟨'-', c :: rest, rfl, .inl rfl⟩
  · exact ⟨c, rest, rfl, .inr isDigit⟩

theorem Literal.Shown.leafExpr_dump {value : Literal} (shown : value.Shown) :
    leafExpr value.dump.toList = .literal value := by
  cases value with
  | nil => rfl
  | bool b => cases b <;> rfl
  | number x =>
      obtain ⟨c, rest, starts, isSign⟩ := starts_number shown
      have plain : isWordStart c = false := by
        rcases isSign with rfl | isDigit
        · decide
        · exact Bool.eq_false_iff.mpr fun isStart => by
            rw [isDigit_of_isWordStart isStart] at isDigit
            cases isDigit
      have notQuote : c ≠ '"' := by
        rintro rfl
        exact absurd isSign (by decide)
      show leafExpr (Decimal.text numberNames x).toList = _
      rw [leafExpr_of_plain (by rw [starts]; exact plain), numberOf_text shown, starts,
        if_neg (by simpa using notQuote), if_pos (by simpa using isSign)]
  | string s =>
      have starts : (Literal.string s).dump.toList = '"' :: (s.toList ++ ['"']) := by simp [dump]
      rw [leafExpr_of_plain (by rw [starts]; rfl), if_pos (by rw [starts]; rfl), starts]
      simp

theorem Token.Stands.leafExpr_lexeme {name : Token} (stands : name.Stands nameKinds) :
    leafExpr name.lexeme.toList = .var ⟨0, name.bare⟩ := by
  obtain ⟨isWord, unreserved⟩ := stands.unreserved
  have noNil : name.lexeme.toList ≠ "nil".toList := unreserved .nilWord rfl (by decide)
  have noTrue : name.lexeme.toList ≠ "true".toList := unreserved .trueWord rfl (by decide)
  have noFalse : name.lexeme.toList ≠ "false".toList := unreserved .falseWord rfl (by decide)
  have noThis : name.lexeme.toList ≠ "this".toList := unreserved .thisWord rfl (by decide)
  have plain : ∀ c ∈ name.lexeme.toList.head?,
      c ≠ '"' ∧ (c == '-' || Unicode.isDigit c) = false := by
    intro c isFirst
    have start := isWord.start
    rw [isFirst, Option.any_some] at start
    refine ⟨isWordStart_ne start rfl, ?_⟩
    rw [isDigit_of_isWordStart start, Bool.or_false]
    exact beq_false_of_ne (isWordStart_ne start rfl)
  rw [leafExpr, if_neg noNil, if_neg noTrue, if_neg noFalse, if_neg noThis,
    if_neg, if_neg, ofText_lexeme stands.written]
  · intro isNumber
    obtain ⟨c, isFirst, isSign⟩ := (Option.any_eq_true _ _).mp isNumber
    rw [(plain c isFirst).2] at isSign
    cases isSign
  · exact fun quoted => (plain _ quoted).1 rfl

theorem expr_form (head : Shape) (parts : List Shape) :
    (Shape.form head parts []).expr = formExpr head.label parts (parts.map Shape.expr) := by
  rw [Shape.expr, exprsOf_eq_map]
  rfl

/-- The fixed texts that head the forms of expressions. -/
def exprLabels : List (List Char) :=
  ["=".toList, "call".toList, "group".toList, "set".toList]

/-- A form that is headed by an operator. -/
theorem Token.Stands.formExpr_eq {kinds : List Kind} {operator : Token}
    (stands : operator.Stands kinds) (fixed : ∀ kind ∈ kinds, kind.text ≠ [])
    (other : ∀ text ∈ kinds.map Kind.text, text ∉ exprLabels) (parts : List Shape)
    (exprs : List Expr) :
    formExpr operator.lexeme.toList parts exprs =
      match exprs with
      | [operand] => .unary operator.bare operand
      | [left, right] =>
          if operator.lexeme.toList = "and".toList ∨ operator.lexeme.toList = "or".toList then
            .logical left operator.bare right
          else .binary left operator.bare right
      | _ => default := by
  have noLabel := other _ (stands.lexeme_mem fixed)
  simp only [exprLabels, List.mem_cons, List.not_mem_nil, or_false, not_or] at noLabel
  obtain ⟨noAssign, noCall, noGroup, noSet⟩ := noLabel
  unfold formExpr
  rw [if_neg noAssign, if_neg noCall, if_neg noGroup, if_neg noSet,
    ofText_lexeme stands.written]

/-- The texts that stand alone in a dump but are no expressions. -/
def otherLabels : List (List Char) := ["super".toList, "block".toList, "return".toList]

theorem label_dot (shape : Shape) (name : String) : (shape.dot name).label = [] := by
  cases shape <;> rfl

theorem Literal.Shown.label {value : Literal} (shown : value.Shown) :
    value.dump.toList ∉ otherLabels := by
  have others : ∀ text ∈ otherLabels, text.head?.any isWordStart = true := by decide
  cases value with
  | nil => decide
  | bool b => cases b <;> decide
  | number x =>
      obtain ⟨c, rest, starts, isSign⟩ := starts_number shown
      intro listed
      have start := others _ listed
      rw [show (Literal.number x).dump.toList = c :: rest from starts, List.head?_cons,
        Option.any_some] at start
      rcases isSign with rfl | isDigit
      · cases start
      · rw [isDigit_of_isWordStart start] at isDigit
        cases isDigit
  | string s =>
      intro listed
      have start := others _ listed
      simp [dump, isWordStart, Unicode.isAlphabetic, Unicode.isAsciiLetter] at start

/-- No expression is dumped as a text that stands for something else. -/
theorem Expr.Spelled.label {expr : Expr} (spelled : expr.Spelled) :
    expr.shape.label ∉ otherLabels := by
  have noForm : [] ∉ otherLabels := by decide
  cases expr with
  | get object name =>
      rw [Expr.shape, label_dot]
      exact noForm
  | literal value => exact Literal.Shown.label spelled
  | super keyword method => exact noForm
  | this keyword =>
      have noThis : "this".toList ∉ otherLabels := by decide
      exact noThis
  | var name =>
      obtain ⟨_, unreserved⟩ := Token.Stands.unreserved spelled
      intro listed
      have listed : name.name.lexeme.toList ∈ otherLabels := listed
      simp only [otherLabels, List.mem_cons, List.not_mem_nil, or_false] at listed
      rcases listed with isSuper | isBlock | isReturn
      · exact unreserved .superWord rfl (by decide) isSuper
      · exact spelled.noBlock (String.toList_injective isBlock)
      · exact unreserved .returnWord rfl (by decide) isReturn
  | _ => exact noForm

theorem Expr.Spelled.shape_ne_super {expr : Expr} (spelled : expr.Spelled) :
    expr.shape ≠ .word "super" := by
  intro isSuper
  have label := spelled.label
  rw [isSuper] at label
  exact label (by decide)

mutual
/-- The expression that is read off the shape of an expression is that expression. -/
theorem Expr.expr_shape (expr : Expr) (spelled : expr.Spelled) : expr.shape.expr = expr.bare := by
  cases expr with
  | assign target value =>
      obtain ⟨stands, spelled⟩ := spelled
      rw [Expr.shape, expr_form, List.map_cons, List.map_singleton, value.expr_shape spelled]
      show Expr.assign ⟨0, target.name.shape.token⟩ _ = _
      rw [stands.token_shape]
      rfl
  | binary left operator right =>
      obtain ⟨spelledLeft, stands, spelledRight⟩ := spelled
      have joins : ∀ text ∈ binaryKinds.map Kind.text,
          ¬ (text = "and".toList ∨ text = "or".toList) := by decide
      rw [Expr.shape, expr_form, List.map_cons, List.map_singleton, left.expr_shape spelledLeft,
        right.expr_shape spelledRight]
      refine (stands.formExpr_eq (by decide) (by decide) _ _).trans ?_
      exact if_neg (joins _ (stands.lexeme_mem (by decide)))
  | call callee paren args =>
      obtain ⟨spelledCallee, stands, spelledArgs⟩ := spelled
      have isParen : paren.lexeme.toList = [')'] :=
        List.mem_singleton.mp (stands.lexeme_mem (by decide))
      rw [Expr.shape, expr_form, List.map_cons, callee.expr_shape spelledCallee,
        ← exprsOf_eq_map, exprsOf_shapesAll args spelledArgs]
      show Expr.call _ (ofText [')']) _ = _
      rw [← isParen, ofText_lexeme stands.written]
      rfl
  | get object name =>
      obtain ⟨spelled, stands⟩ := spelled
      rw [Expr.shape, expr_dot _ spelled.shape_ne_super, object.expr_shape spelled,
        ofText_lexeme stands.written]
      rfl
  | grouping inner =>
      rw [Expr.shape, expr_form, List.map_singleton, inner.expr_shape spelled]
      rfl
  | literal value => exact spelled.leafExpr_dump
  | logical left operator right =>
      obtain ⟨spelledLeft, stands, spelledRight⟩ := spelled
      have decides : ∀ text ∈ [Kind.andWord, .orWord].map Kind.text,
          text = "and".toList ∨ text = "or".toList := by decide
      rw [Expr.shape, expr_form, List.map_cons, List.map_singleton, left.expr_shape spelledLeft,
        right.expr_shape spelledRight]
      refine (stands.formExpr_eq (by decide) (by decide) _ _).trans ?_
      exact if_pos (decides _ (stands.lexeme_mem (by decide)))
  | set object name value =>
      obtain ⟨spelledObject, stands, spelledValue⟩ := spelled
      rw [Expr.shape, expr_form, List.map_cons, List.map_singleton,
        expr_dot _ spelledObject.shape_ne_super, object.expr_shape spelledObject,
        value.expr_shape spelledValue, ofText_lexeme stands.written]
      rfl
  | super keyword method =>
      obtain ⟨stands, standsMethod⟩ := spelled
      have isSuper : keyword.name.lexeme.toList = "super".toList :=
        List.mem_singleton.mp (stands.lexeme_mem (by decide))
      show Expr.super ⟨0, ofText "super".toList⟩ (ofText method.lexeme.toList) = _
      rw [← isSuper, ofText_lexeme stands.written, ofText_lexeme standsMethod.written]
      rfl
  | this keyword =>
      have isThis : keyword.name.lexeme.toList = "this".toList :=
        List.mem_singleton.mp (Token.Stands.lexeme_mem spelled (by decide))
      show Expr.this ⟨0, ofText "this".toList⟩ = _
      rw [← isThis, ofText_lexeme spelled.written]
      rfl
  | unary operator operand =>
      obtain ⟨stands, spelled⟩ := spelled
      rw [Expr.shape, expr_form, List.map_singleton, operand.expr_shape spelled]
      exact stands.formExpr_eq (by decide) (by decide) _ _
  | var name => exact spelled.leafExpr_lexeme

theorem exprsOf_shapesAll (exprs : List Expr) (spelled : SpelledAll exprs) :
    exprsOf (shapesAll exprs) = bareAll exprs := by
  cases exprs with
  | nil => rfl
  | cons expr exprs =>
      rw [shapesAll, exprsOf, expr.expr_shape spelled.1, exprsOf_shapesAll exprs spelled.2, bareAll]
end

/-! ## Statements -/

/-- The declaration that a statement is, if it declares a function. -/
def Stmt.decl? : Stmt → Option FunDecl
  | .funDecl decl => some decl
  | _ => none

/-- The statements in a block. -/
def Stmt.inside : Stmt → List Stmt
  | .block body => body
  | _ => []

/-- The form with a head and some parts, which have been read as statements as well. -/
noncomputable def formStmt (head : Shape) (parts : List Shape) (stmts : List Stmt) : Stmt :=
  if head.label = "block".toList then .block stmts
  else if head.label = "return".toList then
    .ret (ofText "return".toList) (parts.map Shape.expr).head?
  else
    match parts with
    | [] => .expression head.expr
    | first :: others =>
        if head.label = "class".toList then
          if others.head?.map Shape.label = some "<".toList then
            .classDecl first.token (others[1]?.map Shape.reference)
              ((stmts.drop 3).filterMap Stmt.decl?)
          else .classDecl first.token none ((stmts.drop 1).filterMap Stmt.decl?)
        else if head.label = "fun".toList then
          .funDecl ⟨first.token, others.dropLast.map Shape.token, (stmts.getLastD default).inside⟩
        else if head.label = "if".toList then
          .ifElse first.expr (stmts.getD 1 default) stmts[2]?
        else if head.label = "include".toList then .inclusion first.token
        else if head.label = "print".toList then .print first.expr
        else if head.label = "var".toList then
          .varDecl first.token (others.map Shape.expr).head?
        else .whileLoop first.expr (stmts.getD 1 default)

mutual
/-- The statement that is dumped so. -/
noncomputable def Shape.stmt : Shape → Stmt
  | .leaf _ _ => default
  | .form head parts _ => formStmt head parts (stmtsOf parts)

noncomputable def stmtsOf : List Shape → List Stmt
  | [] => []
  | part :: parts => part.stmt :: stmtsOf parts
end

theorem stmtsOf_eq_map (parts : List Shape) : stmtsOf parts = parts.map Shape.stmt := by
  induction parts with
  | nil => rfl
  | cons part parts ih => rw [stmtsOf, ih, List.map_cons]

theorem head?_optional (expr : Option Expr) (spelled : SpelledOptional expr) :
    ((expr.toList.map Expr.shape).map Shape.expr).head? = expr.map Expr.bare := by
  cases expr with
  | none => rfl
  | some expr => exact congrArg some (expr.expr_shape spelled)

/-- No method is dumped as the sign in front of a superclass. -/
theorem label_methodShapes (methods : List FunDecl) :
    (methodShapes methods).head?.map Shape.label ≠ some "<".toList := by
  cases methods with
  | nil => exact nofun
  | cons method methods =>
      obtain ⟨name, params, body⟩ := method
      exact fun same => absurd (Option.some.inj same) (List.cons_ne_nil _ _).symm

mutual
/-- The statement that is read off the shape of a statement is that statement. -/
theorem Stmt.stmt_shape (stmt : Stmt) (spelled : stmt.Spelled) : stmt.shape.stmt = stmt.bare := by
  cases stmt with
  | block body =>
      show Stmt.block (stmtsOf (bodyShapes body)) = _
      rw [stmtsOf_bodyShapes body spelled, Stmt.bare]
  | classDecl name superclass methods =>
      cases superclass with
      | none =>
          obtain ⟨stands, spelled⟩ := spelled
          show (if (methodShapes methods).head?.map Shape.label = some "<".toList then _
            else Stmt.classDecl name.shape.token none
              ((stmtsOf (methodShapes methods)).filterMap Stmt.decl?)) = _
          rw [if_neg (label_methodShapes methods), stands.token_shape,
            stmtsOf_methodShapes methods spelled]
          rfl
      | some reference =>
          obtain ⟨stands, standsSuper, spelled⟩ := spelled
          show Stmt.classDecl name.shape.token (some ⟨0, reference.name.shape.token⟩)
            ((stmtsOf (methodShapes methods)).filterMap Stmt.decl?) = _
          rw [stands.token_shape, standsSuper.token_shape, stmtsOf_methodShapes methods spelled]
          rfl
  | expression expr =>
      have label := Expr.Spelled.label spelled
      simp only [otherLabels, List.mem_cons, List.not_mem_nil, or_false, not_or] at label
      show formStmt expr.shape [] [] = _
      unfold formStmt
      rw [if_neg label.2.1, if_neg label.2.2]
      show Stmt.expression expr.shape.expr = _
      rw [expr.expr_shape spelled, Stmt.bare]
  | funDecl decl => exact decl.stmt_shape spelled
  | ifElse condition thenBranch elseBranch =>
      cases elseBranch with
      | none =>
          show Stmt.ifElse condition.shape.expr thenBranch.shape.stmt none = _
          rw [condition.expr_shape spelled.1, thenBranch.stmt_shape spelled.2, Stmt.bare]
      | some elseBranch =>
          obtain ⟨spelledCondition, spelledThen, spelledElse⟩ := spelled
          show Stmt.ifElse condition.shape.expr thenBranch.shape.stmt
            (some elseBranch.shape.stmt) = _
          rw [condition.expr_shape spelledCondition, thenBranch.stmt_shape spelledThen,
            elseBranch.stmt_shape spelledElse, Stmt.bare]
  | inclusion path =>
      show Stmt.inclusion path.shape.token = _
      rw [Token.Stands.token_shape spelled, Stmt.bare]
  | print value =>
      show Stmt.print value.shape.expr = _
      rw [value.expr_shape spelled, Stmt.bare]
  | ret keyword value =>
      obtain ⟨stands, spelled⟩ := spelled
      have isReturn : keyword.lexeme.toList = "return".toList :=
        List.mem_singleton.mp (stands.lexeme_mem (by decide))
      show Stmt.ret (ofText "return".toList) _ = _
      rw [← isReturn, ofText_lexeme stands.written, head?_optional value spelled, Stmt.bare]
  | varDecl name init =>
      obtain ⟨stands, spelled⟩ := spelled
      show Stmt.varDecl name.shape.token _ = _
      rw [stands.token_shape, head?_optional init spelled, Stmt.bare]
  | whileLoop condition body =>
      show Stmt.whileLoop condition.shape.expr body.shape.stmt = _
      rw [condition.expr_shape spelled.1, body.stmt_shape spelled.2, Stmt.bare]

theorem FunDecl.stmt_shape (decl : FunDecl) (spelled : decl.Spelled) :
    decl.shape.stmt = .funDecl decl.bare := by
  obtain ⟨name, params, body⟩ := decl
  obtain ⟨stands, areParams, spelledBody⟩ := spelled
  have tokens : (params.map Token.shape).map Shape.token = params.map Token.bare := by
    rw [List.map_map]
    exact List.map_congr_left fun param held => (areParams param held).token_shape
  have isBody : (Shape.form (.word "block") (bodyShapes body) []).stmt =
      .block (bareBody body) := by
    show Stmt.block (stmtsOf (bodyShapes body)) = _
    rw [stmtsOf_bodyShapes body spelledBody]
  show Stmt.funDecl ⟨name.shape.token, (params.map Token.shape ++ [_]).dropLast.map Shape.token,
    ((name.shape.stmt :: stmtsOf (params.map Token.shape ++ [_])).getLastD default).inside⟩ = _
  rw [stands.token_shape, List.dropLast_concat, tokens, stmtsOf_eq_map, List.map_append,
    List.map_singleton, isBody, ← List.cons_append, List.getLastD_concat]
  rfl

theorem stmtsOf_bodyShapes (stmts : List Stmt) (spelled : SpelledBody stmts) :
    stmtsOf (bodyShapes stmts) = bareBody stmts := by
  cases stmts with
  | nil => rfl
  | cons stmt stmts =>
      rw [bodyShapes, stmtsOf, stmt.stmt_shape spelled.1, stmtsOf_bodyShapes stmts spelled.2,
        bareBody]

theorem stmtsOf_methodShapes (methods : List FunDecl) (spelled : SpelledMethods methods) :
    (stmtsOf (methodShapes methods)).filterMap Stmt.decl? = bareMethods methods := by
  cases methods with
  | nil => rfl
  | cons method methods =>
      rw [methodShapes, stmtsOf, method.stmt_shape spelled.1, List.filterMap_cons,
        stmtsOf_methodShapes methods spelled.2, bareMethods]
      rfl
end

end Lox
