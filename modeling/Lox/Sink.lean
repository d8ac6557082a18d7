/-!
# Sinks

Text is written to a sink in pieces.  A sink may refuse any piece, with an error of its own;
writing stops at the first piece that is refused.
-/

namespace Lox

structure Sink where
  /--
  The error with which a piece is refused, if it is, by how many pieces were offered before it and
  how many lines were complete by then.
  -/
  refusal? : Nat → Nat → Option String
  /-- How many pieces were offered. -/
  offered : Nat
  /-- How many lines are complete. -/
  lines : Nat
  /-- The pieces taken, latest first. -/
  pieces : List String

namespace Sink

def unlimited : Sink := ⟨fun _ _ => none, 0, 0, []⟩

/-- A sink that takes a number of complete lines and refuses every piece after them. -/
def limited (lines : Nat) : Sink :=
  ⟨fun _ complete => if lines ≤ complete then some "sink full" else none, 0, 0, []⟩

/-- Whether no piece is ever refused. -/
def Accepting (sink : Sink) : Prop := ∀ offered lines, sink.refusal? offered lines = none

/-- Write pieces in order, and answer the error with which one of them was refused. -/
def write (sink : Sink) : List String → Option String × Sink
  | [] => (none, sink)
  | piece :: others =>
    if piece.isEmpty then write sink others
    else
      match sink.refusal? sink.offered sink.lines with
      | some error => (some error, { sink with offered := sink.offered + 1 })
      | none =>
        write
          ⟨sink.refusal?, sink.offered + 1, sink.lines + piece.toList.count '\n',
            piece :: sink.pieces⟩
          others

/-- Write a text and the end of its line. -/
def writeLine (sink : Sink) (text : String) : Option String × Sink :=
  sink.write [text, "\n"]

/-- Write pieces as far as they are taken. -/
def put (sink : Sink) (pieces : List String) : Sink :=
  (sink.write pieces).2

/-- All text that was taken. -/
def text (sink : Sink) : String := String.join sink.pieces.reverse

/-- Forget the text, which was taken away, but not how many lines there were. -/
def drained (sink : Sink) : Sink := { sink with pieces := [] }

end Sink

end Lox
