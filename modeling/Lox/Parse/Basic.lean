import Lox.Error
import Lox.Tree

/-!
# Reading token sequences

A parser consumes tokens from the front of a sequence.  It either answers or fails at a token;
in both cases the tokens it consumed stay consumed, and faults that do not stop the reading are
recorded beside.  Tokens are numbered as they are consumed, and the number of a name's token
becomes the identity of the reference made from it.

Nothing moves past an end token, and where the sequence has none, one is made up on the line of the
token that was consumed last.
-/

namespace Lox.Parse

structure State where
  /-- What is left of the sequence. -/
  tokens : List Token
  /-- The number of the next token. -/
  next : Nat
  /-- The end token that is seen where no token is left. -/
  eof : Token
  isEof : eof.kind = .eof
  /-- Faults recorded so far, in order. -/
  errors : Array Error
  /-- An operand that was read already and stands in for the next primary. -/
  seed : Option Expr

abbrev Parser := EStateM Error State

namespace State

/-- The state before any token is read, with tokens numbered from `first`. -/
def start (first : Nat) (tokens : List Token) : State :=
  ⟨tokens, first, .endOn 1, rfl, #[], none⟩

/-- The token at the front. -/
def peek (s : State) : Token :=
  s.tokens.headD s.eof

/-- Past the token at the front, unless that is an end token. -/
def advance (s : State) : State :=
  if s.peek.kind = .eof then s
  else
    match s.tokens with
    | [] => s
    | token :: rest =>
      { s with tokens := rest, next := s.next + 1, eof := .endOn token.line, isEof := rfl }

def record (s : State) (error : Error) : State :=
  { s with errors := s.errors.push error }

end State

def peek : Parser Token := fun s => .ok s.peek s

/-- Whether the token at the front is of the given kind. -/
def check (kind : Kind) : Parser Bool := fun s => .ok (s.peek.kind == kind) s

/-- Consume the token at the front. -/
def advance : Parser Reference := fun s => .ok ⟨s.next, s.peek⟩ s.advance

/-- Consume the token at the front if its kind is one of the given. -/
def accept? (kinds : List Kind) : Parser (Option Reference) := do
  if (← peek).kind ∈ kinds then some <$> advance
  else pure none

/-- Let an operand stand in for the next primary. -/
def plant (operand : Expr) : Parser Unit := fun s => .ok () { s with seed := some operand }

/-- Whether an operand stands in for the next primary. -/
def isSeeded : Parser Bool := fun s => .ok s.seed.isSome s

/-- Take the operand that stands in for the next primary, if there is one. -/
def takeSeed : Parser (Option Expr) := fun s => .ok s.seed { s with seed := none }

def failAt {α : Type} (token : Token) (fault : StaticFault) : Parser α := fun s =>
  .error (.staticAt token fault) s

/-- Fail at the token at the front. -/
def fail {α : Type} (fault : StaticFault) : Parser α := fun s =>
  .error (.staticAt s.peek fault) s

/-- Record a fault at a token and read on. -/
def recordAt (token : Token) (fault : StaticFault) : Parser Unit := fun s =>
  .ok () (s.record (.staticAt token fault))

/-- Consume a token of the given kind, or fail at the one that stands in its place. -/
def expect (kind : Kind) (what : Expected) : Parser Reference := do
  match ← accept? [kind] with
  | some taken => pure taken
  | none => fail (.expected what)

/-- The most parameters, or arguments, that are read without a fault. -/
def maxArguments : Nat := 255

/--
Items up to a token at which to stop.  There are no more items than tokens, so `bound` is the
number of tokens that may be left.
-/
def manyUntil {α : Type} (stop : Kind → Bool) (item : Parser (Option α)) : Nat → Parser (List α)
  | 0 => pure []
  | bound + 1 => do
    if stop (← peek).kind then pure []
    else
      let first ← item
      let others ← manyUntil stop item bound
      pure (first.toList ++ others)

/-- Further items of a list, each after a comma; `item` is told how many came before it. -/
def afterCommas {α : Type} (item : Nat → Parser α) : Nat → Nat → Parser (List α)
  | 0, _ => pure []
  | bound + 1, count => do
    match ← accept? [.comma] with
    | none => pure []
    | some _ =>
      let next ← item count
      let others ← afterCommas item bound (count + 1)
      pure (next :: others)

/-- The items of a list up to its closing parenthesis, which is left in place. -/
def commaSeparated {α : Type} (item : Nat → Parser α) (bound : Nat) : Parser (List α) := do
  if ← check .rightParen then pure []
  else
    let first ← item 0
    let others ← afterCommas item bound 1
    pure (first :: others)

end Lox.Parse
