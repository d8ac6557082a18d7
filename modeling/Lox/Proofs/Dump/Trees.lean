import Lox.Tree.Dump
import Lox.Proofs.Dump.Shapes

/-!
# The shapes of trees

What is dumped of a tree is the text of a shape.
-/

namespace Lox

open Token

/-! ## Trees without lines and numbers -/

/-- A token but for its line. -/
def Token.bare (token : Token) : Token := { token with line := 0 }

/-- A reference but for its number and its line. -/
def Reference.bare (reference : Reference) : Reference := ⟨0, reference.name.bare⟩

mutual
/-- An expression but for the lines of its tokens and the numbers of its references. -/
def Expr.bare : Expr → Expr
  | .assign target value => .assign target.bare value.bare
  | .binary left operator right => .binary left.bare operator.bare right.bare
  | .call callee paren args => .call callee.bare paren.bare (bareAll args)
  | .get object name => .get object.bare name.bare
  | .grouping inner => .grouping inner.bare
  | .literal value => .literal value
  | .logical left operator right => .logical left.bare operator.bare right.bare
  | .set object name value => .set object.bare name.bare value.bare
  | .super keyword method => .super keyword.bare method.bare
  | .this keyword => .this keyword.bare
  | .unary operator operand => .unary operator.bare operand.bare
  | .var name => .var name.bare

def bareAll : List Expr → List Expr
  | [] => []
  | expr :: exprs => expr.bare :: bareAll exprs
end

mutual
/-- A statement but for the lines of its tokens and the numbers of its references. -/
def Stmt.bare : Stmt → Stmt
  | .block body => .block (bareBody body)
  | .classDecl name superclass methods =>
      .classDecl name.bare (superclass.map Reference.bare) (bareMethods methods)
  | .expression expr => .expression expr.bare
  | .funDecl decl => .funDecl decl.bare
  | .ifElse condition thenBranch none => .ifElse condition.bare thenBranch.bare none
  | .ifElse condition thenBranch (some elseBranch) =>
      .ifElse condition.bare thenBranch.bare (some elseBranch.bare)
  | .inclusion path => .inclusion path.bare
  | .print value => .print value.bare
  | .ret keyword value => .ret keyword.bare (value.map Expr.bare)
  | .varDecl name init => .varDecl name.bare (init.map Expr.bare)
  | .whileLoop condition body => .whileLoop condition.bare body.bare

def FunDecl.bare : FunDecl → FunDecl
  | ⟨name, params, body⟩ => ⟨name.bare, params.map Token.bare, bareBody body⟩

def bareBody : List Stmt → List Stmt
  | [] => []
  | stmt :: stmts => stmt.bare :: bareBody stmts

def bareMethods : List FunDecl → List FunDecl
  | [] => []
  | method :: methods => method.bare :: bareMethods methods
end

/-! ## Shapes -/

/-- A text that stands alone. -/
def Shape.word (text : String) : Shape := .leaf text.toList []

/-- A shape with one more name behind it. -/
def Shape.dot : Shape → String → Shape
  | .leaf text names, name => .leaf text (name.toList :: names)
  | .form head parts names, name => .form head parts (name.toList :: names)

def Token.shape (token : Token) : Shape := .word token.lexeme

mutual
/-- The shape that is dumped of an expression. -/
def Expr.shape : Expr → Shape
  | .assign target value => .form (.word "=") [target.name.shape, value.shape] []
  | .binary left operator right => .form operator.shape [left.shape, right.shape] []
  | .call callee _ args => .form (.word "call") (callee.shape :: shapesAll args) []
  | .get object name => object.shape.dot name.lexeme
  | .grouping inner => .form (.word "group") [inner.shape] []
  | .literal value => .word value.dump
  | .logical left operator right => .form operator.shape [left.shape, right.shape] []
  | .set object name value => .form (.word "set") [object.shape.dot name.lexeme, value.shape] []
  | .super _ method => (Shape.word "super").dot method.lexeme
  | .this _ => .word "this"
  | .unary operator operand => .form operator.shape [operand.shape] []
  | .var name => name.name.shape

def shapesAll : List Expr → List Shape
  | [] => []
  | expr :: exprs => expr.shape :: shapesAll exprs
end

mutual
/-- The shape that is dumped of a statement. -/
def Stmt.shape : Stmt → Shape
  | .block body => .form (.word "block") (bodyShapes body) []
  | .classDecl name none methods =>
      .form (.word "class") (name.shape :: methodShapes methods) []
  | .classDecl name (some reference) methods =>
      .form (.word "class")
        (name.shape :: .word "<" :: reference.name.shape :: methodShapes methods) []
  | .expression expr => .form expr.shape [] []
  | .funDecl decl => decl.shape
  | .ifElse condition thenBranch none =>
      .form (.word "if") [condition.shape, thenBranch.shape] []
  | .ifElse condition thenBranch (some elseBranch) =>
      .form (.word "if") [condition.shape, thenBranch.shape, elseBranch.shape] []
  | .inclusion path => .form (.word "include") [path.shape] []
  | .print value => .form (.word "print") [value.shape] []
  | .ret _ value => .form (.word "return") (value.toList.map Expr.shape) []
  | .varDecl name init => .form (.word "var") (name.shape :: init.toList.map Expr.shape) []
  | .whileLoop condition body => .form (.word "while") [condition.shape, body.shape] []

def FunDecl.shape : FunDecl → Shape
  | ⟨name, params, body⟩ =>
      .form (.word "fun")
        (name.shape :: (params.map Token.shape ++ [.form (.word "block") (bodyShapes body) []])) []

def bodyShapes : List Stmt → List Shape
  | [] => []
  | stmt :: stmts => stmt.shape :: bodyShapes stmts

def methodShapes : List FunDecl → List Shape
  | [] => []
  | method :: methods => method.shape :: methodShapes methods
end

/-! ## What is dumped is the text of the shape -/

theorem text_word (text : String) : (Shape.word text).text = text.toList := List.append_nil _

theorem Token.text_shape (token : Token) : token.shape.text = token.lexeme.toList := text_word _

theorem text_dot (shape : Shape) (name : String) :
    (shape.dot name).text = shape.text ++ '.' :: name.toList := by
  cases shape <;> simp [Shape.dot, Shape.text, namesText]

theorem partsText_eq (parts : List Shape) :
    partsText parts = parts.flatMap fun part => ' ' :: part.text := by
  induction parts with
  | nil => rfl
  | cons part parts ih => rw [partsText, ih, List.flatMap_cons, List.cons_append]

/-- A form is dumped as its head, with some parts that belong to it, and its other parts are. -/
theorem text_labelled {head : Shape} {label : String} (first : List Shape) {others : List Shape}
    {texts : List String} (isHead : head.text ++ partsText first = label.toList)
    (areParts : others.map Shape.text = texts.map String.toList) :
    (Shape.form head (first ++ others) []).text = (parenthesize label texts).toList := by
  have joined : (String.join (texts.map fun part => " " ++ part)).toList =
      (texts.map String.toList).flatMap (' ' :: ·) := by
    simp [List.flatMap_map]
  have split : partsText (first ++ others) =
      partsText first ++ (others.map Shape.text).flatMap (' ' :: ·) := by
    simp [partsText_eq, List.flatMap_map]
  rw [Shape.text, split, ← List.append_assoc, ← List.append_assoc, isHead, areParts, ← joined]
  simp [parenthesize, namesText]

theorem text_form {head : Shape} {label : String} {parts : List Shape} {texts : List String}
    (isHead : head.text = label.toList)
    (areParts : parts.map Shape.text = texts.map String.toList) :
    (Shape.form head parts []).text = (parenthesize label texts).toList :=
  text_labelled [] ((List.append_nil _).trans isHead) areParts

mutual
theorem Expr.text_shape (expr : Expr) : expr.shape.text = expr.dump.toList := by
  cases expr with
  | assign target value =>
      exact text_form (text_word "=") (by simp [target.name.text_shape, value.text_shape])
  | binary left operator right =>
      exact text_form operator.text_shape (by simp [left.text_shape, right.text_shape])
  | call callee paren args =>
      exact text_form (text_word "call") (by simp [callee.text_shape, text_shapesAll])
  | get object name =>
      rw [Expr.shape, text_dot, object.text_shape, Expr.dump]
      simp
  | grouping inner => exact text_form (text_word "group") (by simp [inner.text_shape])
  | literal value => exact text_word _
  | logical left operator right =>
      exact text_form operator.text_shape (by simp [left.text_shape, right.text_shape])
  | set object name value =>
      refine text_form (text_word "set") ?_
      simp [text_dot, object.text_shape, value.text_shape]
  | super keyword method =>
      rw [Expr.shape, text_dot, text_word, Expr.dump]
      simp
  | this keyword => exact text_word "this"
  | unary operator operand => exact text_form operator.text_shape (by simp [operand.text_shape])
  | var name => exact name.name.text_shape

theorem text_shapesAll (exprs : List Expr) :
    (shapesAll exprs).map Shape.text = (Expr.dumpAll exprs).map String.toList := by
  cases exprs with
  | nil => rfl
  | cons expr exprs =>
      rw [shapesAll, Expr.dumpAll, List.map_cons, List.map_cons, expr.text_shape, text_shapesAll]
end

theorem text_shapesOptional (expr : Option Expr) :
    (expr.toList.map Expr.shape).map Shape.text =
      (expr.toList.map Expr.dump).map String.toList := by
  cases expr with
  | none => rfl
  | some expr => simp [expr.text_shape]

mutual
theorem Stmt.text_shape (stmt : Stmt) : stmt.shape.text = stmt.dump.toList := by
  cases stmt with
  | block body => exact text_form (text_word "block") (text_bodyShapes body)
  | classDecl name superclass methods =>
      cases superclass with
      | none =>
          exact text_labelled [name.shape] (by simp [partsText, text_word, name.text_shape])
            (text_methodShapes methods)
      | some reference =>
          refine text_labelled [name.shape, .word "<", reference.name.shape] ?_
            (text_methodShapes methods)
          simp [partsText, text_word, Token.text_shape]
  | expression expr => exact text_form expr.text_shape rfl
  | funDecl decl => exact decl.text_shape
  | ifElse condition thenBranch elseBranch =>
      cases elseBranch with
      | none =>
          exact text_form (text_word "if") (by simp [condition.text_shape, thenBranch.text_shape])
      | some elseBranch =>
          refine text_form (text_word "if") ?_
          simp [condition.text_shape, thenBranch.text_shape, elseBranch.text_shape]
  | inclusion path => exact text_form (text_word "include") (by simp [path.text_shape])
  | print value => exact text_form (text_word "print") (by simp [value.text_shape])
  | ret keyword value => exact text_form (text_word "return") (text_shapesOptional value)
  | varDecl name init =>
      exact text_labelled [name.shape] (by simp [partsText, text_word, name.text_shape])
        (text_shapesOptional init)
  | whileLoop condition body =>
      exact text_form (text_word "while") (by simp [condition.text_shape, body.text_shape])

theorem FunDecl.text_shape (decl : FunDecl) : decl.shape.text = decl.dump.toList := by
  obtain ⟨name, params, body⟩ := decl
  have isBlock := text_form (text_word "block") (text_bodyShapes body)
  have areParts : (params.map Token.shape ++
      [Shape.form (.word "block") (bodyShapes body) []]).map Shape.text =
      (params.map Token.lexeme ++ [parenthesize "block" (dumpBody body)]).map String.toList := by
    simp [isBlock, Token.text_shape]
  exact text_labelled [name.shape] (by simp [partsText, text_word, name.text_shape]) areParts

theorem text_bodyShapes (stmts : List Stmt) :
    (bodyShapes stmts).map Shape.text = (dumpBody stmts).map String.toList := by
  cases stmts with
  | nil => rfl
  | cons stmt stmts =>
      rw [bodyShapes, dumpBody, List.map_cons, List.map_cons, stmt.text_shape, text_bodyShapes]

theorem text_methodShapes (methods : List FunDecl) :
    (methodShapes methods).map Shape.text = (dumpMethods methods).map String.toList := by
  cases methods with
  | nil => rfl
  | cons method methods =>
      rw [methodShapes, dumpMethods, List.map_cons, List.map_cons, method.text_shape,
        text_methodShapes]
end

end Lox
