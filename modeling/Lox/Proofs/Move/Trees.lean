import Lox.Scope
import Lox.Parse.Statement

/-!
# Trees of texts that are moved

A text may stand below other lines, and its tokens may be numbered after those of other texts.
What is read of it then is the same, but for the lines of tokens and the numbers of references.
-/

namespace Lox

/-- What becomes of the lines of a text, and how far the numbers of its tokens are raised. -/
structure Move where
  line : Nat → Nat
  offset : Nat

/-- The numbers of a text are raised, and its lines stay. -/
def Move.renumber (offset : Nat) : Move := ⟨id, offset⟩

/-- A text is put below some lines. -/
def Move.down (lines : Nat) : Move := ⟨fun line => line + lines, 0⟩

/--
A text is put below some lines, with the numbers of its tokens raised.  Line 0, on which nothing
stands, is left alone.
-/
def Move.under (lines offset : Nat) : Move :=
  ⟨fun line => if line = 0 then 0 else line + lines, offset⟩

def Token.move (m : Move) (token : Token) : Token := { token with line := m.line token.line }

def Reference.move (m : Move) (reference : Reference) : Reference :=
  ⟨reference.id + m.offset, reference.name.move m⟩

/-- Only static errors tell of the text itself. -/
def Error.move (m : Move) : Error → Error
  | .static line place fault => .static (m.line line) place fault
  | error => error

mutual
def Expr.move (m : Move) : Expr → Expr
  | .assign target value => .assign (target.move m) (value.move m)
  | .binary left operator right => .binary (left.move m) (operator.move m) (right.move m)
  | .call callee paren args => .call (callee.move m) (paren.move m) (moveAll m args)
  | .get object name => .get (object.move m) (name.move m)
  | .grouping inner => .grouping (inner.move m)
  | .literal value => .literal value
  | .logical left operator right => .logical (left.move m) (operator.move m) (right.move m)
  | .set object name value => .set (object.move m) (name.move m) (value.move m)
  | .super keyword method => .super (keyword.move m) (method.move m)
  | .this keyword => .this (keyword.move m)
  | .unary operator operand => .unary (operator.move m) (operand.move m)
  | .var name => .var (name.move m)

def moveAll (m : Move) : List Expr → List Expr
  | [] => []
  | expr :: exprs => expr.move m :: moveAll m exprs
end

mutual
def Stmt.move (m : Move) : Stmt → Stmt
  | .block body => .block (moveBody m body)
  | .classDecl name superclass methods =>
      .classDecl (name.move m) (superclass.map (Reference.move m)) (moveMethods m methods)
  | .expression expr => .expression (expr.move m)
  | .funDecl decl => .funDecl (decl.move m)
  | .ifElse condition thenBranch none => .ifElse (condition.move m) (thenBranch.move m) none
  | .ifElse condition thenBranch (some elseBranch) =>
      .ifElse (condition.move m) (thenBranch.move m) (some (elseBranch.move m))
  | .inclusion path => .inclusion (path.move m)
  | .print value => .print (value.move m)
  | .ret keyword value => .ret (keyword.move m) (value.map (Expr.move m))
  | .varDecl name init => .varDecl (name.move m) (init.map (Expr.move m))
  | .whileLoop condition body => .whileLoop (condition.move m) (body.move m)

def FunDecl.move (m : Move) : FunDecl → FunDecl
  | ⟨name, params, body⟩ => ⟨name.move m, params.map (Token.move m), moveBody m body⟩

def moveBody (m : Move) : List Stmt → List Stmt
  | [] => []
  | stmt :: stmts => stmt.move m :: moveBody m stmts

def moveMethods (m : Move) : List FunDecl → List FunDecl
  | [] => []
  | method :: methods => method.move m :: moveMethods m methods
end

variable {m : Move}

@[simp] theorem Token.move_kind (token : Token) : (token.move m).kind = token.kind := rfl

@[simp] theorem Token.move_lexeme (token : Token) : (token.move m).lexeme = token.lexeme := rfl

@[simp] theorem Token.move_value (token : Token) : (token.move m).value = token.value := rfl

/-- A fault at a token moves with the token. -/
theorem Error.move_staticAt (token : Token) (fault : StaticFault) :
    (Error.staticAt token fault).move m = .staticAt (token.move m) fault := rfl

theorem moveAll_eq_map (exprs : List Expr) : moveAll m exprs = exprs.map (Expr.move m) := by
  induction exprs with
  | nil => rfl
  | cons expr exprs ih => rw [moveAll, ih, List.map_cons]

theorem moveBody_eq_map (stmts : List Stmt) : moveBody m stmts = stmts.map (Stmt.move m) := by
  induction stmts with
  | nil => rfl
  | cons stmt stmts ih => rw [moveBody, ih, List.map_cons]

theorem moveMethods_eq_map (methods : List FunDecl) :
    moveMethods m methods = methods.map (FunDecl.move m) := by
  induction methods with
  | nil => rfl
  | cons method methods ih => rw [moveMethods, ih, List.map_cons]

theorem moveBody_append (stmts others : List Stmt) :
    moveBody m (stmts ++ others) = moveBody m stmts ++ moveBody m others := by
  simp only [moveBody_eq_map, List.map_append]

/-! ## Analysis -/

/-- What analysis has found out so far, moved. -/
def Analysis.move (m : Move) (a : Analysis) : Analysis :=
  ⟨a.scopes, a.hops.map fun entry => (entry.1 + m.offset, entry.2), a.errors.map (Error.move m)⟩

namespace Analysis

variable (a : Analysis)

theorem move_enter (name : String) (ready : Bool) :
    (a.move m).enter name ready = (a.enter name ready).move m := by
  obtain ⟨scopes, hops, errors⟩ := a
  cases scopes <;> rfl

theorem move_declare (name : String) : (a.move m).declare name = (a.declare name).move m :=
  a.move_enter name false

theorem move_define (name : String) : (a.move m).define name = (a.define name).move m :=
  a.move_enter name true

theorem move_introduce (name : String) :
    (a.move m).introduce name = (a.introduce name).move m := by
  rw [introduce, move_declare, move_define, introduce]

theorem move_push : (a.move m).push = a.push.move m := rfl

theorem move_pop : (a.move m).pop = a.pop.move m := rfl

theorem move_start : start.move m = start := by simp [start, move]

theorem move_report (token : Token) (fault : StaticFault) :
    (a.move m).report (token.move m) fault = (a.report token fault).move m := by
  simp [report, move, Error.move_staticAt]

theorem move_locate (reference : Reference) (name : String) :
    (a.move m).locate (reference.move m) name = (a.locate reference name).move m := by
  unfold locate
  rw [show (a.move m).scopes = a.scopes from rfl]
  cases hops? name a.scopes with
  | none => rfl
  | some distance => simp [move, Reference.move]

theorem move_read (reference : Reference) :
    (a.move m).read (reference.move m) = (a.read reference).move m := by
  have same : (a.move m).isUnready (reference.move m).name.lexeme =
      a.isUnready reference.name.lexeme := rfl
  unfold read
  rw [same]
  split
  · exact a.move_report reference.name .ownInitializer
  · exact a.move_locate reference reference.name.lexeme

theorem move_readThis (s : Surroundings) (keyword : Reference) :
    (a.move m).readThis s (keyword.move m) = (a.readThis s keyword).move m := by
  unfold readThis
  cases s.inClass with
  | outside => exact a.move_report keyword.name .thisOutsideClass
  | _ => exact a.move_locate keyword "this"

theorem move_readSuper (s : Surroundings) (keyword : Reference) :
    (a.move m).readSuper s (keyword.move m) = (a.readSuper s keyword).move m := by
  unfold readSuper
  cases s.inClass with
  | outside => exact a.move_report keyword.name .superOutsideClass
  | plain => exact a.move_report keyword.name .superWithoutSuperclass
  | derived => exact a.move_locate keyword "super"

theorem move_parameters (seen : List String) (params : List Token) :
    (a.move m).parameters seen (params.map (Token.move m)) =
      (a.parameters seen params).move m := by
  induction params generalizing seen a with
  | nil => rfl
  | cons param params ih =>
      rw [List.map_cons, parameters, parameters, Token.move_lexeme]
      split
      · rw [move_report, move_introduce, ih]
      · rw [move_introduce, ih]

theorem move_superclass (name : Token) (reference : Reference) :
    (a.move m).superclass (name.move m) (reference.move m) =
      (a.superclass name reference).move m := by
  unfold superclass
  dsimp only
  rw [Token.move_lexeme, show (reference.move m).name.lexeme = reference.name.lexeme from rfl]
  split
  · rw [show (reference.move m).name = reference.name.move m from rfl, move_report, move_read,
      move_push, move_define]
  · rw [move_read, move_push, move_define]

theorem move_returned (s : Surroundings) (keyword : Token) :
    (a.move m).returned s (keyword.move m) = (a.returned s keyword).move m := by
  unfold returned
  split
  · rfl
  · exact a.move_report keyword .topLevelReturn

end Analysis

open Analysis

mutual
/-- A moved expression is analyzed as the expression is. -/
theorem Expr.analyze_move (s : Surroundings) (expr : Expr) (a : Analysis) :
    (expr.move m).analyze s (a.move m) = (expr.analyze s a).move m := by
  cases expr with
  | assign target value =>
      rw [Expr.move, Expr.analyze, value.analyze_move]
      exact move_locate _ target target.name.lexeme
  | binary left operator right =>
      rw [Expr.move, Expr.analyze, left.analyze_move, right.analyze_move, Expr.analyze]
  | call callee paren args =>
      rw [Expr.move, Expr.analyze, callee.analyze_move, analyzeAll_move, Expr.analyze]
  | get object name => rw [Expr.move, Expr.analyze, object.analyze_move, Expr.analyze]
  | grouping inner => rw [Expr.move, Expr.analyze, inner.analyze_move, Expr.analyze]
  | literal value => rfl
  | logical left operator right =>
      rw [Expr.move, Expr.analyze, left.analyze_move, right.analyze_move, Expr.analyze]
  | set object name value =>
      rw [Expr.move, Expr.analyze, value.analyze_move, object.analyze_move, Expr.analyze]
  | super keyword method => exact a.move_readSuper s keyword
  | this keyword => exact a.move_readThis s keyword
  | unary operator operand => rw [Expr.move, Expr.analyze, operand.analyze_move, Expr.analyze]
  | var name => exact a.move_read name

theorem analyzeAll_move (s : Surroundings) (exprs : List Expr) (a : Analysis) :
    analyzeAll s (moveAll m exprs) (a.move m) = (analyzeAll s exprs a).move m := by
  cases exprs with
  | nil => rfl
  | cons expr exprs =>
      rw [moveAll, analyzeAll, expr.analyze_move, analyzeAll_move s exprs, analyzeAll]
end

theorem analyzeOptional_move (s : Surroundings) (expr : Option Expr) (a : Analysis) :
    analyzeOptional s (expr.map (Expr.move m)) (a.move m) = (analyzeOptional s expr a).move m := by
  cases expr with
  | none => rfl
  | some expr => exact expr.analyze_move s a

mutual
/-- A moved statement is analyzed as the statement is. -/
theorem Stmt.analyze_move (s : Surroundings) (stmt : Stmt) (a : Analysis) :
    (stmt.move m).analyze s (a.move m) = (stmt.analyze s a).move m := by
  cases stmt with
  | block body =>
      rw [Stmt.move, Stmt.analyze, move_push, analyzeBody_move, move_pop, Stmt.analyze]
  | classDecl name superclass methods =>
      cases superclass with
      | none =>
          rw [Stmt.move, Option.map_none, Stmt.analyze, Token.move_lexeme, move_introduce, move_push,
            move_define, analyzeMethods_move, move_pop, Stmt.analyze]
      | some reference =>
          rw [Stmt.move, Option.map_some, Stmt.analyze, Token.move_lexeme, move_introduce,
            move_superclass, move_push, move_define, analyzeMethods_move, move_pop, move_pop,
            Stmt.analyze]
  | expression expr => exact expr.analyze_move s a
  | funDecl decl =>
      have same : (decl.move m).name.lexeme = decl.name.lexeme := by
        obtain ⟨name, params, body⟩ := decl
        rfl
      rw [Stmt.move, Stmt.analyze, Stmt.analyze, same, move_introduce, decl.analyze_move]
  | ifElse condition thenBranch elseBranch =>
      cases elseBranch with
      | none =>
          rw [Stmt.move, Stmt.analyze, condition.analyze_move, thenBranch.analyze_move,
            Stmt.analyze]
      | some elseBranch =>
          rw [Stmt.move, Stmt.analyze, condition.analyze_move, thenBranch.analyze_move,
            elseBranch.analyze_move, Stmt.analyze]
  | inclusion path => rfl
  | print value => exact value.analyze_move s a
  | ret keyword value =>
      rw [Stmt.move, Stmt.analyze, move_returned, analyzeOptional_move, Stmt.analyze]
  | varDecl name init =>
      rw [Stmt.move, Stmt.analyze, Token.move_lexeme, move_declare, analyzeOptional_move,
        move_define, Stmt.analyze]
  | whileLoop condition body =>
      rw [Stmt.move, Stmt.analyze, condition.analyze_move, body.analyze_move, Stmt.analyze]

theorem FunDecl.analyze_move (inClass : ClassSurroundings) (decl : FunDecl) (a : Analysis) :
    (decl.move m).analyze inClass (a.move m) = (decl.analyze inClass a).move m := by
  obtain ⟨name, params, body⟩ := decl
  rw [FunDecl.move, FunDecl.analyze, move_push, move_parameters, analyzeBody_move, move_pop,
    FunDecl.analyze]

theorem analyzeBody_move (s : Surroundings) (stmts : List Stmt) (a : Analysis) :
    analyzeBody s (moveBody m stmts) (a.move m) = (analyzeBody s stmts a).move m := by
  cases stmts with
  | nil => rfl
  | cons stmt stmts =>
      rw [moveBody, analyzeBody, stmt.analyze_move, analyzeBody_move s stmts, analyzeBody]

theorem analyzeMethods_move (methods : List FunDecl) (inClass : ClassSurroundings)
    (a : Analysis) :
    analyzeMethods (moveMethods m methods) inClass (a.move m) =
      (analyzeMethods methods inClass a).move m := by
  cases methods with
  | nil => rfl
  | cons method methods =>
      rw [moveMethods, analyzeMethods, method.analyze_move, analyzeMethods_move methods,
        analyzeMethods]
end

/-- A moved program is analyzed as the program is. -/
theorem analyze_move (stmts : List Stmt) :
    analyze (moveBody m stmts) = (analyze stmts).move m := by
  rw [analyze, analyze, ← analyzeBody_move, move_start]

end Lox
