import Lox.Proofs.Scope.Exactness

/-!
# Analysis restores what it changes

A pass over a program that keeps the function and the class around it as a part of its state, sets
them where a body starts and puts the former ones back where it ends, does what analysis does.  It
leaves a statement with the surroundings that it entered it with, and with the same scopes, except
that the innermost one knows the names that the statement declares there.
-/

namespace Lox

/-- A pass over a program, at some point of it. -/
structure Pass where
  analysis : Analysis
  around : Surroundings

namespace Pass

def start : Pass := ⟨.start, .topLevel⟩

def apply (act : Analysis → Analysis) (pass : Pass) : Pass :=
  { pass with analysis := act pass.analysis }

def setClass (kind : ClassSurroundings) (pass : Pass) : Pass :=
  { pass with around := { pass.around with inClass := kind } }

def setFunction (inside : Bool) (pass : Pass) : Pass :=
  { pass with around := { pass.around with inFunction := inside } }

end Pass

def Expr.pass (expr : Expr) (pass : Pass) : Pass := pass.apply (expr.analyze pass.around)

def passOptional (expr : Option Expr) (pass : Pass) : Pass :=
  pass.apply (analyzeOptional pass.around expr)

mutual
def Stmt.pass : Stmt → Pass → Pass
  | .block body, pass => (passBody body (pass.apply .push)).apply .pop
  | .classDecl name none methods, pass =>
      let enclosing := pass.around.inClass
      let declared := (pass.setClass .plain).apply (.introduce name.lexeme)
      let inside := passMethods methods (declared.apply fun a => a.push.define "this")
      (inside.apply .pop).setClass enclosing
  | .classDecl name (some reference) methods, pass =>
      let enclosing := pass.around.inClass
      let declared := (pass.setClass .plain).apply (.introduce name.lexeme)
      let derived := (declared.setClass .derived).apply (.superclass name reference)
      let inside := passMethods methods (derived.apply fun a => a.push.define "this")
      ((inside.apply .pop).apply .pop).setClass enclosing
  | .expression expr, pass => expr.pass pass
  | .funDecl decl, pass => decl.pass (pass.apply (.introduce decl.name.lexeme))
  | .ifElse condition thenBranch none, pass => thenBranch.pass (condition.pass pass)
  | .ifElse condition thenBranch (some elseBranch), pass =>
      elseBranch.pass (thenBranch.pass (condition.pass pass))
  | .inclusion _, pass => pass
  | .print value, pass => value.pass pass
  | .ret keyword value, pass =>
      passOptional value (pass.apply (.returned pass.around keyword))
  | .varDecl name init, pass =>
      (passOptional init (pass.apply (.declare name.lexeme))).apply (.define name.lexeme)
  | .whileLoop condition body, pass => body.pass (condition.pass pass)

def FunDecl.pass : FunDecl → Pass → Pass
  | ⟨_, params, body⟩, pass =>
      let enclosing := pass.around.inFunction
      let inside := (pass.setFunction true).apply fun a => a.push.parameters [] params
      ((passBody body inside).apply .pop).setFunction enclosing

def passBody : List Stmt → Pass → Pass
  | [], pass => pass
  | stmt :: stmts, pass => passBody stmts (stmt.pass pass)

def passMethods : List FunDecl → Pass → Pass
  | [], pass => pass
  | method :: methods, pass => passMethods methods (method.pass pass)
end

/-! ## What surrounds a statement -/

mutual
/-- A pass over a statement restores what was around it, and analyzes it as it stands there. -/
theorem Stmt.pass_eq (stmt : Stmt) (a : Analysis) (s : Surroundings) :
    stmt.pass ⟨a, s⟩ = ⟨stmt.analyze s a, s⟩ := by
  cases stmt with
  | block body => exact congrArg (Pass.apply .pop) (passBody_eq body a.push s)
  | classDecl name superclass methods =>
      cases superclass with
      | none =>
          exact congrArg (fun inside => (inside.apply .pop).setClass s.inClass)
            (passMethods_eq methods ((a.introduce name.lexeme).push.define "this")
              { s with inClass := .plain })
      | some reference =>
          exact congrArg (fun inside => ((inside.apply .pop).apply .pop).setClass s.inClass)
            (passMethods_eq methods
              (((a.introduce name.lexeme).superclass name reference).push.define "this")
              { s with inClass := .derived })
  | expression expr => rfl
  | funDecl decl => exact decl.pass_eq (a.introduce decl.name.lexeme) s
  | ifElse condition thenBranch elseBranch =>
      have first := thenBranch.pass_eq (condition.analyze s a) s
      cases elseBranch with
      | none => exact first
      | some elseBranch =>
          exact (congrArg elseBranch.pass first).trans (elseBranch.pass_eq _ s)
  | inclusion path => rfl
  | print value => rfl
  | ret keyword value => rfl
  | varDecl name init => rfl
  | whileLoop condition body => exact body.pass_eq (condition.analyze s a) s

theorem FunDecl.pass_eq (decl : FunDecl) (a : Analysis) (s : Surroundings) :
    decl.pass ⟨a, s⟩ = ⟨decl.analyze s.inClass a, s⟩ := by
  obtain ⟨name, params, body⟩ := decl
  exact congrArg (fun inside => (inside.apply .pop).setFunction s.inFunction)
    (passBody_eq body (a.push.parameters [] params) { s with inFunction := true })

theorem passBody_eq (stmts : List Stmt) (a : Analysis) (s : Surroundings) :
    passBody stmts ⟨a, s⟩ = ⟨analyzeBody s stmts a, s⟩ := by
  cases stmts with
  | nil => rfl
  | cons stmt stmts =>
      exact (congrArg (passBody stmts) (stmt.pass_eq a s)).trans (passBody_eq stmts _ s)

theorem passMethods_eq (methods : List FunDecl) (a : Analysis) (s : Surroundings) :
    passMethods methods ⟨a, s⟩ = ⟨analyzeMethods methods s.inClass a, s⟩ := by
  cases methods with
  | nil => rfl
  | cons method methods =>
      exact (congrArg (passMethods methods) (method.pass_eq a s)).trans
        (passMethods_eq methods _ s)
end

/-! ## The scopes around a statement -/

/-- Every analysis is at some spot. -/
theorem Analysis.exists_atSpot (a : Analysis) (s : Surroundings) :
    ∃ p : Spot, p.around = s ∧ p.names = a.scopes ∧ a.atSpot p = a := by
  refine ⟨⟨a.scopes.map fun names => ⟨⟨.globals, []⟩, names⟩, s⟩, rfl, ?_, ?_⟩
  · simp [Spot.names, Function.comp_def]
  · simp [Analysis.atSpot, Spot.names, Function.comp_def]

/-- A statement adds the names that it declares to the innermost scope, and changes no other. -/
theorem Stmt.analyze_scopes (stmt : Stmt) (s : Surroundings) (a : Analysis) :
    (stmt.analyze s a).scopes = a.scopes.modifyHead (Scope.introduceAll stmt.declares) := by
  obtain ⟨p, rfl, names, isAt⟩ := a.exists_atSpot s
  rw [← isAt, stmt.analyze_atSpot [] p a, isAt, ← names]
  exact p.names_introduceAll stmt.declares

/-! ## Exactness -/

/-- Analysis visits each reference of a program once.  In the order of its visits, it records the
distance of each sound reference to the innermost scope that has declared its name by then, and
reports each fault, and nothing else.  Whatever was found in a statement, a pass leaves it with the
surroundings that were there before, and with the scopes that were there before, the innermost of
which knows in addition the names that the statement declares. -/
theorem analysis_is_exact (stmts : List Stmt) :
    ((visitsProgram stmts).filterMap Visit.use?).Perm (bodyUses stmts) ∧
      (analyze stmts).hops.toList = (visitsProgram stmts).filterMap Visit.entry? ∧
      (analyze stmts).errors.toList = (visitsProgram stmts).filterMap Visit.fault? ∧
      passBody stmts .start = ⟨analyze stmts, .topLevel⟩ ∧
      ∀ (stmt : Stmt) (pass : Pass),
        (stmt.pass pass).around = pass.around ∧
          (stmt.pass pass).analysis.scopes =
            pass.analysis.scopes.modifyHead (Scope.introduceAll stmt.declares) := by
  have told : Tells (walkProgram 0 stmts) (visitsProgram stmts) :=
    visitsBody_tell .root rfl [0] 0 stmts
  refine ⟨uses_visitsBody .root stmts, ?_, ?_, passBody_eq stmts .start .topLevel, ?_⟩
  · rw [analyze_hops 0, told.hops]
  · rw [analyze_errors 0, told.faults]
  · rintro stmt ⟨a, s⟩
    rw [stmt.pass_eq a s]
    exact ⟨rfl, stmt.analyze_scopes s a⟩

end Lox
