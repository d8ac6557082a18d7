import Std.Data.TreeMap
import Lox.Program
import Lox.Sink
import Lox.Store

/-!
# The state of a run

What evaluation reads and changes, apart from what it is busy with: the store, the dynamic
context, the table of located references, the output and the clock.  Frame 0 holds the globals;
references that analysis did not locate belong to it.
-/

namespace Lox

/-- What a block, a call or an inclusion changes for its own extent and restores at its end. -/
structure Context where
  env : Env
  /-- The directory that relative inclusions are read from. -/
  base : String
  /-- How many calls and inclusions are active. -/
  depth : Nat
deriving DecidableEq, Repr

/-- How many calls and inclusions may be active at once. -/
def maxDepth : Nat := 20000

structure State where
  store : Store
  context : Context
  /-- For each located reference the number of frames to leave. -/
  hops : Std.TreeMap Nat Nat
  /-- The number that the first token of the next program gets. -/
  nextReference : Nat
  output : Sink
  /-- What the clock shows: seconds since the start of 1970, negative before it. -/
  now : Float

namespace State

/-- The environment of the globals alone. -/
def globals : Env := ⟨0, []⟩

/-- The bindings that a program starts with. -/
def natives : Bindings Value :=
  Native.all.map fun native => (native.name, .native native)

def initial (output : Sink) (now : Float) : State :=
  ⟨(Store.empty.newFrame natives).2, ⟨globals, "", 0⟩, {}, 0, output, now⟩

/-- Make a compiled program's references known, and its numbers used. -/
def load (program : Program) (s : State) : State :=
  { s with
    hops := program.hops.foldl (fun hops entry => hops.insert entry.1 entry.2) s.hops
    nextReference := s.nextReference + program.width }

/-- The value that a reference reads, if its name is bound where it is looked for. -/
def valueOf? (reference : Reference) (s : State) : Option Value :=
  match s.hops[reference.id]? with
  | some distance => s.store.getAt? s.context.env distance reference.name.lexeme
  | none => s.store.lookup? globals reference.name.lexeme

/-- Store a value where a reference says, and answer whether there is such a place. -/
def assign (target : Reference) (value : Value) (s : State) : Bool × State :=
  match s with
  | ⟨store, context, hops, nextReference, output, now⟩ =>
    match hops[target.id]? with
    | some distance =>
      let (found, store) := store.assignAt context.env distance target.name.lexeme value
      (found, ⟨store, context, hops, nextReference, output, now⟩)
    | none =>
      let (found, store) := store.assign globals target.name.lexeme value
      (found, ⟨store, context, hops, nextReference, output, now⟩)

/-- Bind a name in the innermost frame. -/
def define (name : String) (value : Value) (s : State) : State :=
  { s with store := s.store.define s.context.env.frame name value }

def setContext (context : Context) (s : State) : State := { s with context := context }

/-- Put a new frame with the given bindings in front of an environment. -/
def extend (env : Env) (bindings : Bindings Value) : State → Env × State
  | ⟨store, context, hops, nextReference, output, now⟩ =>
    let (frame, store) := store.newFrame bindings
    (env.branch frame, ⟨store, context, hops, nextReference, output, now⟩)

def newIdentity : State → Nat × State
  | ⟨store, context, hops, nextReference, output, now⟩ =>
    let (identity, store) := store.newIdentity
    (identity, ⟨store, context, hops, nextReference, output, now⟩)

/-- Make an instance of a class, as yet without fields. -/
def newInstance (cls : Class) : State → Instance × State
  | ⟨store, context, hops, nextReference, output, now⟩ =>
    let (object, store) := store.newObject
    (⟨object, cls⟩, ⟨store, context, hops, nextReference, output, now⟩)

/-- A closure of a declaration in an environment, with an identity of its own. -/
def makeClosure (decl : FunDecl) (env : Env) (isInitializer : Bool) (s : State) :
    Closure × State :=
  let (identity, s) := s.newIdentity
  (⟨identity, decl, env, isInitializer⟩, s)

/-- A closure of a method in which `this` is the given instance for good. -/
def bindMethod (method : Method) (receiver : Instance) (s : State) : Closure × State :=
  let (env, s) := s.extend method.env [("this", .inst receiver)]
  s.makeClosure method.decl env method.isInitializer

/-- The methods of a class by name, of several with one name the last. -/
def methodTable (env : Env) (methods : List FunDecl) : Bindings Method :=
  methods.foldl
    (fun (table : Bindings Method) decl => Bindings.insert decl.name.lexeme ⟨decl, env⟩ table) []

/--
Make a class in the innermost environment, and bind its name there.  Below a superclass the
methods see one more frame, which binds `super`.
-/
def declareClass (name : Token) (superclass : Option Class) (methods : List FunDecl) (s : State) :
    State :=
  let (identity, s) := s.newIdentity
  match superclass with
  | none =>
    let table := methodTable s.context.env methods
    s.define name.lexeme (.cls (.mk identity name.lexeme none table))
  | some parent =>
    let (env, s) := s.extend s.context.env [("super", .cls parent)]
    let table := methodTable env methods
    s.define name.lexeme (.cls (.mk identity name.lexeme (some parent) table))

/-- Write a line of output and answer the error with which it was refused, if it was. -/
def writeLine (text : String) (s : State) : Option String × State :=
  match s with
  | ⟨store, context, hops, nextReference, output, now⟩ =>
    let (refusal, output) := output.writeLine text
    (refusal, ⟨store, context, hops, nextReference, output, now⟩)

/-! ## What the operations leave alone -/

/-- A new frame changes the store and nothing else. -/
theorem extend_eq (env : Env) (bindings : Bindings Value) (s : State) :
    s.extend env bindings =
      (env.branch s.store.frames.size, { s with store := (s.store.newFrame bindings).2 }) := by
  cases s
  rfl

theorem newIdentity_eq (s : State) :
    s.newIdentity = (s.store.nextIdentity, { s with store := s.store.newIdentity.2 }) := by
  cases s
  rfl

theorem newInstance_eq (cls : Class) (s : State) :
    s.newInstance cls = (⟨s.store.objects.size, cls⟩, { s with store := s.store.newObject.2 }) := by
  cases s
  rfl

theorem makeClosure_eq (decl : FunDecl) (env : Env) (isInitializer : Bool) (s : State) :
    s.makeClosure decl env isInitializer =
      (⟨s.store.nextIdentity, decl, env, isInitializer⟩,
        { s with store := s.store.newIdentity.2 }) := by
  simp only [makeClosure, newIdentity_eq]

/-- Binding a method makes one frame, which holds the receiver, and gives out one identity. -/
theorem bindMethod_eq (method : Method) (receiver : Instance) (s : State) :
    s.bindMethod method receiver =
      (⟨s.store.nextIdentity, method.decl, method.env.branch s.store.frames.size,
          method.isInitializer⟩,
        { s with store := (s.store.newFrame [("this", .inst receiver)]).2.newIdentity.2 }) := by
  cases s
  rfl

/-- Storing a value where a reference says changes the store at most. -/
theorem assign_eq (target : Reference) (value : Value) (s : State) :
    s.assign target value =
      ((match s.hops[target.id]? with
        | some distance => s.store.assignAt s.context.env distance target.name.lexeme value
        | none => s.store.assign globals target.name.lexeme value).1,
        { s with store :=
          (match s.hops[target.id]? with
            | some distance => s.store.assignAt s.context.env distance target.name.lexeme value
            | none => s.store.assign globals target.name.lexeme value).2 }) := by
  cases s
  simp only [assign]
  split <;> rfl

theorem writeLine_eq (text : String) (s : State) :
    s.writeLine text =
      ((s.output.writeLine text).1, { s with output := (s.output.writeLine text).2 }) := by
  cases s
  rfl

end State

/-- The bindings of parameters to arguments, pairwise from the left. -/
def bindParameters (params : List Token) (args : List Value) : Bindings Value :=
  (params.zip args).foldl (fun bindings pair => bindings.insert pair.1.lexeme pair.2) []

end Lox
