import Lox.Machine.Task
import Lox.Path

/-!
# Steps

One step of the machine looks at one node of a tree or at one task.  Steps are total: with
nothing left to do, or while a file is awaited, a step changes nothing.
-/

namespace Lox

/-- The answer of a comparison or of arithmetic on numbers. -/
def onNumbers (operator : Token) (compute : Float → Float → Value) : Value → Value → Outcome
  | .number a, .number b => .value (compute a b)
  | _, _ => .failAt operator .operandsNotNumbers

/-- The answer of a binary operator; `+` also joins strings. -/
def operate (operator : Token) (left right : Value) : Outcome :=
  match operator.kind with
  | .bangEqual => .value (.bool (!left.equals right))
  | .equalEqual => .value (.bool (left.equals right))
  | .greater => onNumbers operator (fun a b => .bool (b < a)) left right
  | .greaterEqual => onNumbers operator (fun a b => .bool (b ≤ a)) left right
  | .less => onNumbers operator (fun a b => .bool (a < b)) left right
  | .lessEqual => onNumbers operator (fun a b => .bool (a ≤ b)) left right
  | .minus => onNumbers operator (fun a b => .number (a - b)) left right
  | .slash => onNumbers operator (fun a b => .number (a / b)) left right
  | .star => onNumbers operator (fun a b => .number (a * b)) left right
  | .plus =>
    match left, right with
    | .number a, .number b => .value (.number (a + b))
    | .string a, .string b => .value (.string (a ++ b))
    | _, _ => .failAt operator .operandsNotAddable
  | _ => .failAt operator (.unknownBinaryOperator operator.lexeme)

def operateUnary (operator : Token) (operand : Value) : Outcome :=
  match operator.kind with
  | .minus =>
    match operand with
    | .number x => .value (.number (-x))
    | _ => .failAt operator .operandNotNumber
  | .bang => .value (.bool (!operand.isTruthy))
  | _ => .failAt operator (.unknownUnaryOperator operator.lexeme)

/-- Whether the left operand of a logical operator is its answer already. -/
def decidesAlone (operator : Token) (left : Value) : Bool :=
  match operator.kind with
  | .orWord => left.isTruthy
  | .andWord => !left.isTruthy
  | _ => false

/-- The status that a program ends with: the number without its fraction, by its low eight bits. -/
def exitCode (x : Float) : UInt8 := x.toInt32.toUInt32.toUInt8

namespace State

def read (reference : Reference) (s : State) : Outcome :=
  match s.valueOf? reference with
  | some value => .value value
  | none => .failAt reference.name (.undefinedVariable reference.name.lexeme)

/-- The class that `super` stands for and the receiver of the method around it. -/
def superOf? (keyword : Reference) (s : State) : Option (Class × Instance) :=
  match s.hops[keyword.id]? with
  | some (distance + 1) =>
    match s.store.getAt? s.context.env (distance + 1) "super",
        s.store.getAt? s.context.env distance "this" with
    | some (.cls superclass), some (.inst receiver) => some (superclass, receiver)
    | _, _ => none
  | _ => none

end State

namespace Machine

/-- Read a property: a field, or else a method bound to the instance. -/
def getProperty (object : Value) (name : Token) (tasks : List Task) (s : State) : Machine :=
  match object with
  | .inst receiver =>
    match s.store.field? receiver.object name.lexeme with
    | some value => giving (.value value) tasks s
    | none =>
      match receiver.cls.findMethod? name.lexeme with
      | some method =>
        let (closure, s) := s.bindMethod method receiver
        giving (.value (.closure closure)) tasks s
      | none =>
        giving (.failAt name (.undefinedProperty name.lexeme receiver.cls.name)) tasks s
  | _ => giving (.failAt name .noProperties) tasks s

/-- Read a method of the superclass, bound to the receiver at hand. -/
def getSuper (keyword : Reference) (method : Token) (tasks : List Task) (s : State) : Machine :=
  match s.superOf? keyword with
  | none => giving (.failAt keyword.name .superMisplaced) tasks s
  | some (superclass, receiver) =>
    match superclass.findMethod? method.lexeme with
    | some found =>
      let (closure, s) := s.bindMethod found receiver
      giving (.value (.closure closure)) tasks s
    | none =>
      giving (.failAt method (.undefinedSuperProperty method.lexeme superclass.name)) tasks s

/-- Run the body of a closure in a new frame that binds its parameters. -/
def enter (closure : Closure) (args : List Value) (line : Nat) (answer : Answer)
    (tasks : List Task) (s : State) : Machine :=
  let caller := s.context
  let (env, s) := s.extend closure.env (bindParameters closure.decl.params args)
  ⟨.give .nil, .body closure.decl.body :: .finishCall caller line answer :: tasks,
    s.setContext ⟨env, caller.base, caller.depth + 1⟩⟩

/-- Run a native function.  It does not know where it was called, so its errors have no line. -/
def runNative (native : Native) (args : List Value) (s : State) : Control × State :=
  match native with
  | .clock =>
    (.give
      (if s.now < 0 then .failed (.unplaced .clockBeforeEpoch) else .value (.number s.now)), s)
  | .exit =>
    match args.head?.bind Value.number? with
    | some x => (.exited (exitCode x), s)
    | none => (.give (.failed (.unplaced .exitCodeNotNumber)), s)
  | .print =>
    let (refusal, s) := s.writeLine (" ".intercalate (args.map Value.text))
    (.give (.written refusal), s)

/-- Call a native function.  An error without a line gets that of the call. -/
def callNative (native : Native) (args : List Value) (line : Nat) (tasks : List Task)
    (s : State) : Machine :=
  match runNative native args s with
  | (.give outcome, s) => giving (outcome.withLineIfMissing line) tasks s
  | (control, s) => ⟨control, tasks, s⟩

/-- Make an instance and run the initializer of its class on it, if there is one. -/
def instantiate (cls : Class) (args : List Value) (line : Nat) (tasks : List Task) (s : State) :
    Machine :=
  let (made, s) := s.newInstance cls
  match cls.initializer? with
  | none => giving (.value (.inst made)) tasks s
  | some init =>
    let (closure, s) := s.bindMethod init made
    enter closure args line (.made made) tasks s

/-- Call a value that takes the given number of arguments, one level deeper. -/
def invoke (callee : Value) (args : List Value) (paren : Token) (tasks : List Task) (s : State) :
    Machine :=
  match callee with
  | .native native => callNative native args paren.line tasks s
  | .closure closure =>
    let answer := if closure.isInitializer then .receiver closure.env else .result
    enter closure args paren.line answer tasks s
  | .cls cls => instantiate cls args paren.line tasks s
  | _ => giving (.failAt paren .notCallable) tasks s

/-- Call any value, after checking that it can be called so. -/
def call (callee : Value) (args : List Value) (paren : Token) (tasks : List Task) (s : State) :
    Machine :=
  match callee.arity? with
  | none => giving (.failAt paren .notCallable) tasks s
  | some (.fixed wanted) =>
    if wanted ≠ args.length then
      giving (.failAt paren (.wrongArgumentCount wanted args.length)) tasks s
    else if maxDepth ≤ s.context.depth then giving (.failAt paren .stackOverflow) tasks s
    else invoke callee args paren tasks s
  | some .variadic =>
    if maxDepth ≤ s.context.depth then giving (.failAt paren .stackOverflow) tasks s
    else invoke callee args paren tasks s

/-- Look at an expression. -/
def evaluate (expr : Expr) (tasks : List Task) (s : State) : Machine :=
  match expr with
  | .assign target value => ⟨.eval value, .assign target :: tasks, s⟩
  | .binary left operator right => ⟨.eval left, .rightOperand operator right :: tasks, s⟩
  | .call callee paren args => ⟨.eval callee, .firstArgument paren args :: tasks, s⟩
  | .get object name => ⟨.eval object, .get name :: tasks, s⟩
  | .grouping inner => ⟨.eval inner, tasks, s⟩
  | .literal value => giving (.value (.ofLiteral value)) tasks s
  | .logical left operator right => ⟨.eval left, .decide operator right :: tasks, s⟩
  | .set object name value => ⟨.eval object, .storedValue name value :: tasks, s⟩
  | .super keyword method => getSuper keyword method tasks s
  | .this keyword => giving (s.read keyword) tasks s
  | .unary operator operand => ⟨.eval operand, .operateUnary operator :: tasks, s⟩
  | .var name => giving (s.read name) tasks s

/-- Look at a statement. -/
def execute (stmt : Stmt) (tasks : List Task) (s : State) : Machine :=
  match stmt with
  | .block body =>
    let outside := s.context
    let (env, s) := s.extend outside.env []
    ⟨.give .nil, .body body :: .leave outside :: tasks, s.setContext { outside with env := env }⟩
  | .classDecl name none methods => giving .nil tasks (s.declareClass name none methods)
  | .classDecl name (some reference) methods =>
    match s.read reference with
    | .value (.cls superclass) => giving .nil tasks (s.declareClass name (some superclass) methods)
    | .value _ =>
      giving (.failAt reference.name (.superclassNotClass reference.name.lexeme)) tasks s
    | other => giving other tasks s
  | .expression expr => ⟨.eval expr, tasks, s⟩
  | .funDecl decl =>
    let (closure, s) := s.makeClosure decl s.context.env false
    giving .nil tasks (s.define decl.name.lexeme (.closure closure))
  | .ifElse condition thenBranch elseBranch =>
    ⟨.eval condition, .choose thenBranch elseBranch :: tasks, s⟩
  | .inclusion path => ⟨.awaitFile path (Path.join s.context.base path.pathText), tasks, s⟩
  | .print value => ⟨.eval value, .print value.mainLine :: tasks, s⟩
  | .ret _ none => giving (.returned .nil) tasks s
  | .ret _ (some value) => ⟨.eval value, .ret :: tasks, s⟩
  | .varDecl name none => giving .nil tasks (s.define name.lexeme .nil)
  | .varDecl name (some init) => ⟨.eval init, .define name :: tasks, s⟩
  | .whileLoop condition body => ⟨.eval condition, .loopBody condition body :: tasks, s⟩

/-- The value of a call whose body ended with the given result, if it returned one. -/
def answerValue (answer : Answer) (returned : Option Value) (s : State) : Value :=
  match answer with
  | .result => returned.getD .nil
  | .receiver env => (s.store.getAt? env 0 "this").getD .nil
  | .made inst => .inst inst

/-- Carry out a task with the value that it waited for. -/
def resume (value : Value) (task : Task) (tasks : List Task) (s : State) : Machine :=
  match task with
  | .assign target =>
    let (found, s) := s.assign target value
    giving
      (if found then .value value
        else .failAt target.name (.undefinedVariable target.name.lexeme)) tasks s
  | .rightOperand operator right => ⟨.eval right, .operate value operator :: tasks, s⟩
  | .operate left operator => giving (operate operator left value) tasks s
  | .operateUnary operator => giving (operateUnary operator value) tasks s
  | .decide operator right =>
    if decidesAlone operator value then giving (.value value) tasks s else ⟨.eval right, tasks, s⟩
  | .firstArgument paren [] => call value [] paren tasks s
  | .firstArgument paren (arg :: args) => ⟨.eval arg, .nextArgument value [] paren args :: tasks, s⟩
  | .nextArgument callee before paren [] => call callee (value :: before).reverse paren tasks s
  | .nextArgument callee before paren (arg :: args) =>
    ⟨.eval arg, .nextArgument callee (value :: before) paren args :: tasks, s⟩
  | .get name => getProperty value name tasks s
  | .storedValue name stored =>
    match value with
    | .inst inst => ⟨.eval stored, .set inst name :: tasks, s⟩
    | _ => giving (.failAt name .noFields) tasks s
  | .set inst name =>
    giving (.value value) tasks { s with store := s.store.setField inst.object name.lexeme value }
  | .define name => giving .nil tasks (s.define name.lexeme value)
  | .print line =>
    let (refusal, s) := s.writeLine value.text
    giving ((Outcome.written refusal).withLineIfMissing line) tasks s
  | .ret => giving (.returned value) tasks s
  | .choose thenBranch elseBranch =>
    if value.isTruthy then ⟨.exec thenBranch, tasks, s⟩
    else
      match elseBranch with
      | some stmt => ⟨.exec stmt, tasks, s⟩
      | none => giving .nil tasks s
  | .loopBody condition body =>
    if value.isTruthy then ⟨.exec body, .loopAgain condition body :: tasks, s⟩
    else giving .nil tasks s
  | .loopAgain condition body => ⟨.eval condition, .loopBody condition body :: tasks, s⟩
  | .body [] => giving .nil tasks s
  | .body (stmt :: stmts) => ⟨.exec stmt, .body stmts :: tasks, s⟩
  | .program [] => giving .nil tasks s
  | .program (stmt :: stmts) => ⟨.exec stmt, .program stmts :: tasks, s⟩
  | .leave context => giving .nil tasks (s.setContext context)
  | .finishCall context _ answer =>
    giving (.value (answerValue answer none s)) tasks (s.setContext context)
  | .finishInclusion context => giving .nil tasks (s.setContext context)

/-- Pass a return on to the call that it ends. -/
def unwind (value : Value) (task : Task) (tasks : List Task) (s : State) : Machine :=
  match task with
  | .program stmts => ⟨.give .nil, .program stmts :: tasks, s⟩
  | .leave context => giving (.returned value) tasks (s.setContext context)
  | .finishCall context _ answer =>
    giving (.value (answerValue answer (some value) s)) tasks (s.setContext context)
  | .finishInclusion context => giving (.returned value) tasks (s.setContext context)
  | _ => giving (.returned value) tasks s

/-- Pass an error outward through one task. -/
def abandon (error : Error) (task : Task) (tasks : List Task) (s : State) : Machine :=
  match task with
  | .leave context => giving (.failed error) tasks (s.setContext context)
  | .finishCall context line _ =>
    giving (.failed (error.withLineIfMissing line)) tasks (s.setContext context)
  | .finishInclusion context => giving (.failed error) tasks (s.setContext context)
  | _ => giving (.failed error) tasks s

/-- Go on with the text of the file that an inclusion asked for. -/
def provide (answer : Except Failure String) (path : Token) (place : String) (tasks : List Task)
    (s : State) : Machine :=
  match answer with
  | .error failure => giving (.failAt path (.unreadableInclude path.pathText failure)) tasks s
  | .ok source =>
    match Program.compile s.nextReference source with
    | .error errors => giving (.failed (.inclusion path.line path.pathText errors)) tasks s
    | .ok program =>
      let outside := s.context
      let s := s.load program
      if maxDepth ≤ outside.depth then giving (.failAt path .stackOverflow) tasks s
      else
        ⟨.give .nil, .program program.stmts :: .finishInclusion outside :: tasks,
          s.setContext ⟨State.globals, (Path.parent? place).getD "", outside.depth + 1⟩⟩

/-- One step. -/
def step (m : Machine) : Machine :=
  match m with
  | ⟨.eval expr, tasks, s⟩ => evaluate expr tasks s
  | ⟨.exec stmt, tasks, s⟩ => execute stmt tasks s
  | ⟨.give (.value value), task :: tasks, s⟩ => resume value task tasks s
  | ⟨.give (.returned value), task :: tasks, s⟩ => unwind value task tasks s
  | ⟨.give (.failed error), task :: tasks, s⟩ => abandon error task tasks s
  | m => m

end Machine

end Lox
