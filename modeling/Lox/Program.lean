import Lox.Token.Scan
import Lox.Parse.Statement
import Lox.Scope

/-!
# Programs

A source text becomes a program if none of the three readings of it finds a fault: as tokens, as
statements, and as scopes.  Faults of tokens and of statements are reported together, the former
first; scopes are only looked at when there are none.
-/

namespace Lox

structure Program where
  stmts : List Stmt
  /-- For each reference to a local name, how many scopes are to be left to find it. -/
  hops : List (Nat × Nat)
  /-- How many numbers the program's tokens have used up. -/
  width : Nat

namespace Program

/-- Read a source text, with its tokens numbered from `first`, or report all that is wrong. -/
def compile (first : Nat) (source : String) : Except (List Error) Program :=
  let scanned := Token.scan source
  let tokens := scanned.filterMap Scanned.token?
  let parsed := Parse.program first tokens
  match scanned.filterMap Scanned.error? ++ parsed.errors with
  | [] =>
    let analysis := analyze parsed.stmts
    match analysis.errors.toList with
    | [] => .ok ⟨parsed.stmts, analysis.hops.toList, tokens.length⟩
    | errors => .error errors
  | errors => .error errors

end Program

end Lox
