import Lox.Bindings
import Lox.Tree

/-!
# Values

What expressions evaluate to.  Strings and numbers are compared by content; functions, classes
and instances by identity, which is a number given out when they are made.

Scopes at run time are frames of bindings, known by their index.  An environment is the chain of
frames that a piece of program sees, innermost first; it never changes, while the frames do.
-/

namespace Lox

/-- A chain of frames: the innermost, and those around it. -/
structure Env where
  frame : Nat
  outer : List Nat
deriving DecidableEq, Repr

namespace Env

/-- The frames of the chain, innermost first. -/
def chain (env : Env) : List Nat := env.frame :: env.outer

/-- The frame that is `distance` hops up the chain. -/
def ancestor? (env : Env) (distance : Nat) : Option Nat := env.chain[distance]?

/-- The chain that starts with a frame put in front of this one. -/
def branch (env : Env) (frame : Nat) : Env := ⟨frame, env.chain⟩

@[simp] theorem chain_branch (env : Env) (frame : Nat) :
    (env.branch frame).chain = frame :: env.chain := rfl

@[simp] theorem ancestor?_zero (env : Env) : env.ancestor? 0 = some env.frame := rfl

@[simp] theorem ancestor?_branch_succ (env : Env) (frame distance : Nat) :
    (env.branch frame).ancestor? (distance + 1) = env.ancestor? distance := rfl

end Env

/-- The functions that every program finds among its globals. -/
inductive Native where
  | clock | exit | print
deriving DecidableEq, Repr

/-- How many arguments a callable takes. -/
inductive Arity where
  | fixed (count : Nat)
  | variadic
deriving DecidableEq, Repr

def Arity.accepts : Arity → Nat → Bool
  | fixed count, given => count == given
  | variadic, _ => true

namespace Native

def name : Native → String
  | clock => "clock"
  | exit => "exit"
  | print => "print"

def arity : Native → Arity
  | clock => .fixed 0
  | exit => .fixed 1
  | print => .variadic

def all : List Native := [clock, exit, print]

end Native

/-- A function together with the environment that it was declared in. -/
structure Closure where
  identity : Nat
  decl : FunDecl
  env : Env
  isInitializer : Bool

namespace Closure

def name (closure : Closure) : String := closure.decl.name.lexeme

def arity (closure : Closure) : Nat := closure.decl.params.length

end Closure

/--
A method as its class holds it.  It is no value: only binding it to a receiver makes a closure
of it, and with that a thing that has an identity.
-/
structure Method where
  decl : FunDecl
  env : Env

namespace Method

def name (method : Method) : String := method.decl.name.lexeme

def arity (method : Method) : Nat := method.decl.params.length

/-- The method that instantiation runs. -/
def isInitializer (method : Method) : Bool := method.name == "init"

end Method

/-- A class: its own methods, and the class it inherits the others from. -/
inductive Class where
  | mk (identity : Nat) (name : String) (superclass : Option Class) (methods : Bindings Method)

namespace Class

def identity : Class → Nat
  | mk identity _ _ _ => identity

def name : Class → String
  | mk _ name _ _ => name

def superclass : Class → Option Class
  | mk _ _ superclass _ => superclass

def methods : Class → Bindings Method
  | mk _ _ _ methods => methods

/-- The method of a name that is nearest on the way up the superclasses. -/
def findMethod? (name : String) : Class → Option Method
  | mk _ _ none methods => methods.find? name
  | mk _ _ (some superclass) methods =>
    match methods.find? name with
    | some method => some method
    | none => findMethod? name superclass

/-- The superclasses, the direct one first. -/
def ancestors : Class → List Class
  | mk _ _ none _ => []
  | mk _ _ (some superclass) _ => superclass :: ancestors superclass

def initializer? (cls : Class) : Option Method := cls.findMethod? "init"

/-- A class takes the arguments of its initializer. -/
def arity (cls : Class) : Nat :=
  match cls.initializer? with
  | some init => init.arity
  | none => 0

end Class

/-- A reference to an object, which has a class for good and fields that change. -/
structure Instance where
  object : Nat
  cls : Class

inductive Value where
  | nil
  | bool (b : Bool)
  | number (x : Float)
  | string (s : String)
  | native (native : Native)
  | closure (closure : Closure)
  | cls (cls : Class)
  | inst (inst : Instance)

instance : Inhabited Value := ⟨.nil⟩

namespace Value

/-- Only `nil` and `false` count as false. -/
def isTruthy : Value → Bool
  | nil => false
  | bool b => b
  | _ => true

def number? : Value → Option Float
  | number x => some x
  | _ => none

/-- Equality as programs see it: no conversions, and numbers compare as doubles do. -/
def equals : Value → Value → Bool
  | nil, nil => true
  | bool a, bool b => a == b
  | number a, number b => a == b
  | string a, string b => a == b
  | native a, native b => a == b
  | closure a, closure b => a.identity == b.identity
  | cls a, cls b => a.identity == b.identity
  | inst a, inst b => a.object == b.object
  | _, _ => false

/-- Overflowed and undefined results of arithmetic have names of their own. -/
def numberNames : Decimal.Names := ⟨"NaN", "+Inf", "-Inf"⟩

/-- What printing a value shows. -/
def text : Value → String
  | nil => "nil"
  | bool b => boolText b
  | number x => Decimal.text numberNames x
  | string s => s
  | native f => "<native fn " ++ f.name ++ ">"
  | closure f => "<fn " ++ f.name ++ ">"
  | cls c => c.name
  | inst i => i.cls.name ++ " instance"

/-- How many arguments a value takes, if it can be called at all. -/
def arity? : Value → Option Arity
  | native f => some f.arity
  | closure f => some (.fixed f.arity)
  | cls c => some (.fixed c.arity)
  | _ => none

def ofLiteral : Literal → Value
  | .nil => nil
  | .bool b => bool b
  | .number x => number x
  | .string s => string s

end Value

end Lox
