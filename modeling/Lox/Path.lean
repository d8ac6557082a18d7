/-!
# Paths

Paths are texts with `/` between their parts.  A part that is empty, or a single point after the
first place, stands for nothing, and the parent of a path is found by dropping its last part.
-/

namespace Lox.Path

/-- A path read from a directory: an absolute path stays as it is. -/
def join (directory path : String) : String :=
  match path.toList with
  | '/' :: _ => path
  | _ =>
    if directory.isEmpty then path
    else if directory.toList.getLast? = some '/' then directory ++ path
    else directory ++ "/" ++ path

/-- A reversed path without the parts at its end that stand for nothing; a root stays. -/
def trimReversed : List Char → List Char
  | ['/'] => ['/']
  | '/' :: rest => trimReversed rest
  | '.' :: '/' :: rest => trimReversed ('/' :: rest)
  | path => path

/-- The path without its last part; the empty path and the root have none. -/
def parent? (path : String) : Option String :=
  match trimReversed path.toList.reverse with
  | [] => none
  | ['/'] => none
  | ['.'] => some ""
  | trimmed => some (String.ofList (trimReversed (trimmed.dropWhile (· != '/'))).reverse)

/-- The parts of a path, those that stand for nothing included. -/
def parts : List Char → List (List Char)
  | [] => [[]]
  | c :: rest =>
    if c = '/' then [] :: parts rest
    else
      match parts rest with
      | [] => [[c]]
      | part :: others => (c :: part) :: others

end Lox.Path
