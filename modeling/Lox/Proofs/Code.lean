import Lox.Proofs.Resolution
import Lox.Tree.References

/-!
# The code of a machine

A machine executes phrases, waits to go on with what is left of others, and may call the functions
and methods that it holds.  Steps take these trees apart and keep their parts, and make no others.
-/

namespace Lox

/-- A tree that can be executed, or what is left of one. -/
inductive Code where
  | expr (expr : Expr)
  | exprs (exprs : List Expr)
  | stmt (stmt : Stmt)
  | stmts (stmts : List Stmt)
  | function (decl : FunDecl)
  /-- The target of an assignment whose value is being evaluated. -/
  | target (target : Reference)

namespace Code

/-- What happens in the walk of the tree. -/
def acts : Code → List Act
  | expr e => e.acts
  | exprs es => actsAll es
  | stmt s => s.acts
  | stmts ss => actsBody ss
  | function decl => decl.acts
  | target reference => [.assign reference]

/-- The references of the tree. -/
def uses : Code → List Use
  | expr e => e.uses
  | exprs es => usesAll es
  | stmt s => s.uses
  | stmts ss => bodyUses ss
  | function decl => decl.uses
  | target reference => [⟨.assigned, reference⟩]

end Code

/-- The functions and methods that can be called once a value is at hand. -/
inductive Value.Runs : Value → FunDecl → Prop where
  | closure (closure : Closure) : Runs (.closure closure) closure.decl
  | cls {cls : Class} {method : Method} (held : cls.HasMethod method) : Runs (.cls cls) method.decl
  | inst {inst : Instance} {method : Method} (held : inst.cls.HasMethod method) :
      Runs (.inst inst) method.decl

/-- The trees that a task will go on with. -/
inductive Task.Holds : Task → Code → Prop where
  | assign (target : Reference) : Holds (.assign target) (.target target)
  | rightOperand (operator : Token) (right : Expr) : Holds (.rightOperand operator right) (.expr right)
  | decide (operator : Token) (right : Expr) : Holds (.decide operator right) (.expr right)
  | firstArgument (paren : Token) (args : List Expr) : Holds (.firstArgument paren args) (.exprs args)
  | nextArgument (callee : Value) (before : List Value) (paren : Token) (args : List Expr) :
      Holds (.nextArgument callee before paren args) (.exprs args)
  | storedValue (name : Token) (value : Expr) : Holds (.storedValue name value) (.expr value)
  | chosen (thenBranch : Stmt) (elseBranch : Option Stmt) :
      Holds (.choose thenBranch elseBranch) (.stmt thenBranch)
  | chosenElse (thenBranch elseBranch : Stmt) :
      Holds (.choose thenBranch (some elseBranch)) (.stmt elseBranch)
  | tested (condition : Expr) (body : Stmt) : Holds (.loopBody condition body) (.expr condition)
  | repeated (condition : Expr) (body : Stmt) : Holds (.loopBody condition body) (.stmt body)
  | testedAgain (condition : Expr) (body : Stmt) : Holds (.loopAgain condition body) (.expr condition)
  | repeatedAgain (condition : Expr) (body : Stmt) : Holds (.loopAgain condition body) (.stmt body)
  | body (stmts : List Stmt) : Holds (.body stmts) (.stmts stmts)
  | program (stmts : List Stmt) : Holds (.program stmts) (.stmts stmts)

/-- The trees that a machine may still execute. -/
inductive Machine.Executes (m : Machine) : Code → Prop where
  | eval {expr : Expr} (now : m.control = .eval expr) : Executes m (.expr expr)
  | exec {stmt : Stmt} (now : m.control = .exec stmt) : Executes m (.stmt stmt)
  | waiting {task : Task} {code : Code} (waits : task ∈ m.tasks) (held : task.Holds code) :
      Executes m code
  | callable {value : Value} {decl : FunDecl} (carries : m.Carries value) (runs : value.Runs decl) :
      Executes m (.function decl)

/-! ## Phrases -/

/-- What is walked in the code of a machine, with the names that it has yet to declare. -/
inductive Machine.Phrase (m : Machine) : List Act → Prop where
  | code {code : Code} (executes : m.Executes code) : Phrase m code.acts
  | define {name : Token} (waits : .define name ∈ m.tasks) : Phrase m [.declare name]

/-- The parts of what a machine may walk, and of the program that its next step loads. -/
inductive Machine.Parts (m : Machine) (files : String → Except Failure String) : List Act → Prop where
  | phrase {acts : List Act} (held : m.Phrase acts) : Parts m files acts
  | loaded {loaded : Loaded} (loads : m.loads? files = some loaded) :
      Parts m files (actsBody loaded.program.stmts)
  | left {before after : List Act} (whole : Parts m files (before ++ after)) : Parts m files before
  | right {before after : List Act} (whole : Parts m files (before ++ after)) : Parts m files after

/-- A property of phrases that their parts have too. -/
structure Divides (K : List Act → Prop) : Prop where
  left : ∀ {before after : List Act}, K (before ++ after) → K before
  right : ∀ {before after : List Act}, K (before ++ after) → K after

/-- The phrases that a task goes on with have a property. -/
def Task.Within (K : List Act → Prop) : Task → Prop
  | .assign target => K [.assign target]
  | .rightOperand _ right => K right.acts
  | .decide _ right => K right.acts
  | .firstArgument _ args => K (actsAll args)
  | .nextArgument _ _ _ args => K (actsAll args)
  | .storedValue _ value => K value.acts
  | .define name => K [.declare name]
  | .choose thenBranch elseBranch => K thenBranch.acts ∧ ∀ stmt ∈ elseBranch, K stmt.acts
  | .loopBody condition repeated => K condition.acts ∧ K repeated.acts
  | .loopAgain condition repeated => K condition.acts ∧ K repeated.acts
  | .body stmts => K (actsBody stmts)
  | .program stmts => K (actsBody stmts)
  | _ => True

section Parts

variable {K : List Act → Prop} {files : String → Except Failure String} {m : Machine}

theorem Task.Within.holds {task : Task} (within : task.Within K) {code : Code}
    (held : task.Holds code) : K code.acts := by
  cases held with
  | assign => exact within
  | rightOperand => exact within
  | decide => exact within
  | firstArgument => exact within
  | nextArgument => exact within
  | storedValue => exact within
  | chosen => exact within.1
  | chosenElse => exact within.2 _ rfl
  | tested => exact within.1
  | repeated => exact within.2
  | testedAgain => exact within.1
  | repeatedAgain => exact within.2
  | body => exact within
  | program => exact within

namespace Machine

/-- What a machine waits for is among its parts. -/
theorem within_waiting {task : Task} (waits : task ∈ m.tasks) : task.Within (m.Parts files) := by
  have part {code : Code} (held : task.Holds code) : m.Parts files code.acts :=
    .phrase (.code (.waiting waits held))
  cases task with
  | assign target => exact part (.assign target)
  | rightOperand operator right => exact part (.rightOperand operator right)
  | decide operator right => exact part (.decide operator right)
  | firstArgument paren args => exact part (.firstArgument paren args)
  | nextArgument callee before paren args => exact part (.nextArgument callee before paren args)
  | storedValue name value => exact part (.storedValue name value)
  | define name => exact .phrase (.define waits)
  | choose thenBranch elseBranch =>
      refine ⟨part (.chosen thenBranch elseBranch), fun stmt isElse => ?_⟩
      cases isElse
      exact part (.chosenElse thenBranch stmt)
  | loopBody condition body => exact ⟨part (.tested condition body), part (.repeated condition body)⟩
  | loopAgain condition body =>
      exact ⟨part (.testedAgain condition body), part (.repeatedAgain condition body)⟩
  | body stmts => exact part (.body stmts)
  | program stmts => exact part (.program stmts)
  | _ => trivial

namespace Parts

/-- The parts have the properties of the whole that go over to parts. -/
theorem within (divides : Divides K) (held : ∀ {acts}, m.Phrase acts → K acts)
    (loads : ∀ loaded, m.loads? files = some loaded → K (actsBody loaded.program.stmts))
    {acts : List Act} (part : m.Parts files acts) : K acts := by
  induction part with
  | phrase phrase => exact held phrase
  | loaded isLoaded => exact loads _ isLoaded
  | left _ ih => exact divides.left ih
  | right _ ih => exact divides.right ih

theorem body {decl : FunDecl} (whole : m.Parts files decl.acts) :
    m.Parts files (actsBody decl.body) := by
  cases decl
  exact .right whole

theorem method {methods : List FunDecl} (whole : m.Parts files (actsMethods methods))
    {decl : FunDecl} (listed : decl ∈ methods) : m.Parts files decl.acts := by
  induction methods with
  | nil => cases listed
  | cons first rest ih =>
      rcases List.mem_cons.mp listed with rfl | later
      · exact .left whole
      · exact ih (.right whole) later

end Parts

end Machine

end Parts

end Lox
