import Lox.Machine.Run
import Lox.Proofs.Compiled

/-!
# What the steps of a machine make and load

Most steps make no frame.  The others make one for each scope that they enter: a block, the
receiver of a method that is bound, the superclass of a class, or a function that is called.
An inclusion may load a program.
-/

namespace Lox

namespace Machine

/-- The scopes that a call enters; that of a class enters its initializer. -/
def opensInvoke (callee : Value) : List Opener :=
  match callee with
  | .closure closure => [.function closure.decl]
  | .cls cls =>
    match cls.initializer? with
    | some init => [.receiver init.decl, .function init.decl]
    | none => []
  | _ => []

/-- Why a call is refused, if it is: of a value that takes so many arguments, at some depth. -/
def refusal? (arity : Option Arity) (given depth : Nat) : Option RuntimeFault :=
  match arity with
  | none => some .notCallable
  | some (.fixed wanted) =>
    if wanted ≠ given then some (.wrongArgumentCount wanted given)
    else if maxDepth ≤ depth then some .stackOverflow
    else none
  | some .variadic => if maxDepth ≤ depth then some .stackOverflow else none

def opensCall (callee : Value) (args : List Value) (s : State) : List Opener :=
  match refusal? callee.arity? args.length s.context.depth with
  | some _ => []
  | none => opensInvoke callee

/-- The scope of the receiver, if a property is read that is a method. -/
def opensGet (object : Value) (name : Token) (s : State) : List Opener :=
  match object with
  | .inst receiver =>
    match s.store.field? receiver.object name.lexeme with
    | some _ => []
    | none =>
      match receiver.cls.findMethod? name.lexeme with
      | some method => [.receiver method.decl]
      | none => []
  | _ => []

/-- The scope of the receiver, if a method of the superclass is read. -/
def opensSuper (keyword : Reference) (name : Token) (s : State) : List Opener :=
  match s.superOf? keyword with
  | some (superclass, _) =>
    match superclass.findMethod? name.lexeme with
    | some method => [.receiver method.decl]
    | none => []
  | none => []

/-- The scope that a statement enters, or in which the methods of a derived class are made. -/
def opensExec (stmt : Stmt) (s : State) : List Opener :=
  match stmt with
  | .block body => [.block body]
  | .classDecl _ (some reference) methods =>
    match s.read reference with
    | .value (.cls _) => [.superclass methods]
    | _ => []
  | _ => []

/-- The scopes for which the next step makes frames, in their order. -/
def opens (m : Machine) : List Opener :=
  match m with
  | ⟨.exec stmt, _, s⟩ => opensExec stmt s
  | ⟨.eval (.super keyword name), _, s⟩ => opensSuper keyword name s
  | ⟨.give (.value object), .get name :: _, s⟩ => opensGet object name s
  | ⟨.give (.value callee), .firstArgument _ [] :: _, s⟩ => opensCall callee [] s
  | ⟨.give (.value value), .nextArgument callee before _ [] :: _, s⟩ =>
    opensCall callee (value :: before).reverse s
  | _ => []

theorem call_eq (callee : Value) (args : List Value) (paren : Token) (tasks : List Task)
    (s : State) :
    call callee args paren tasks s =
      match refusal? callee.arity? args.length s.context.depth with
      | some fault => giving (.failAt paren fault) tasks s
      | none => invoke callee args paren tasks s := by
  unfold call refusal?
  cases callee.arity? with
  | none => rfl
  | some arity =>
      cases arity with
      | fixed wanted =>
          dsimp only
          split
          · rfl
          · split <;> rfl
      | variadic =>
          dsimp only
          split <;> rfl

theorem call_of_accepted {callee : Value} {args : List Value} {s : State}
    (accepted : refusal? callee.arity? args.length s.context.depth = none) (paren : Token)
    (tasks : List Task) : call callee args paren tasks s = invoke callee args paren tasks s := by
  rw [call_eq, accepted]

/-- A call that is not refused has as many arguments as the callee takes. -/
theorem count_of_accepted {wanted given depth : Nat}
    (accepted : refusal? (some (.fixed wanted)) given depth = none) : given = wanted := by
  unfold refusal? at accepted
  dsimp only at accepted
  split at accepted
  · cases accepted
  · next same => exact (Decidable.not_not.mp same).symm

end Machine

/-- A program that was loaded, and the number of its first token. -/
structure Loaded where
  first : Nat
  program : Program

def Loaded.events (loaded : Loaded) : List Event := loaded.program.events loaded.first

/-- The program that the next step loads, if it goes on with a file that is one. -/
def Machine.loads? (files : String → Except Failure String) (m : Machine) : Option Loaded :=
  match m.control with
  | .awaitFile _ place =>
    match files place with
    | .ok source =>
      match Program.compile m.state.nextReference source with
      | .ok program => some ⟨m.state.nextReference, program⟩
      | .error _ => none
    | .error _ => none
  | _ => none

/-- A program that is loaded takes the next numbers. -/
theorem Machine.loads?_first {files : String → Except Failure String} {m : Machine}
    {loaded : Loaded} (loads : m.loads? files = some loaded) :
    loaded.first = m.state.nextReference := by
  unfold loads? at loads
  split at loads
  · split at loads
    · split at loads
      · cases loads
        rfl
      · cases loads
    · cases loads
  · cases loads

end Lox
