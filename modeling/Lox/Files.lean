import Lox.Failure
import Lox.Path
import Lox.Utf8

/-!
# File trees

A working directory as a value: files with their bytes, and directories with their entries.
Reading a path walks the tree part by part and fails as a file system does.
-/

namespace Lox

inductive FileTree where
  | file (bytes : List UInt8)
  | directory (entries : List (String × FileTree))

namespace FileTree

def empty : FileTree := directory []

def child? (name : String) : List (String × FileTree) → Option FileTree
  | [] => none
  | (other, tree) :: rest => if other = name then some tree else child? name rest

def setEntry (name : String) (tree : FileTree) :
    List (String × FileTree) → List (String × FileTree)
  | [] => [(name, tree)]
  | (other, previous) :: rest =>
    if other = name then (name, tree) :: rest else (other, previous) :: setEntry name tree rest

/-- Change what stands at the end of a path, making the directories on the way to it. -/
def place (leaf : FileTree → FileTree) : List String → FileTree → FileTree
  | [], tree => leaf tree
  | name :: names, tree =>
    let entries :=
      match tree with
      | directory entries => entries
      | file _ => []
    directory (setEntry name (place leaf names ((child? name entries).getD empty)) entries)

/-- The names on the way to a place that is to be written. -/
def names (path : String) : List String :=
  (Path.parts path.toList).filterMap fun part =>
    if part = [] || part = ['.'] then none else some (String.ofList part)

/-- Write a file, or make a directory if the path ends in a slash. -/
def write (path : String) (bytes : List UInt8) (tree : FileTree) : FileTree :=
  if path.toList.getLast? = some '/' then place id (names path) tree
  else place (fun _ => file bytes) (names path) tree

/-- The longest name of an entry, and the longest path, in bytes. -/
def maxNameBytes : Nat := 255

def maxPathBytes : Nat := 4095

/--
Walk along the parts of a path.  `here` is the place reached and `above` the directories around
it, innermost first; what lies above the working directory is a directory without entries.
-/
def walk : List (List Char) → FileTree → List FileTree → Except Failure FileTree
  | [], here, _ => .ok here
  | part :: parts, here, above =>
    match here with
    | file _ => .error .notADirectory
    | directory entries =>
      if part = [] || part = ['.'] then walk parts here above
      else if part = ['.', '.'] then
        match above with
        | [] => walk parts empty []
        | outer :: others => walk parts outer others
      else if maxNameBytes < (String.ofList part).utf8ByteSize then .error .nameTooLong
      else
        match child? (String.ofList part) entries with
        | none => .error .missing
        | some next => walk parts next (here :: above)

/-- What stands at a path, read from the directory at the root of the tree. -/
def find (path : String) (tree : FileTree) : Except Failure FileTree :=
  if '\x00' ∈ path.toList then .error .nulInName
  else if maxPathBytes < path.utf8ByteSize then .error .nameTooLong
  else
    match path.toList with
    | [] => .error .missing
    | '/' :: rest => walk (Path.parts rest) empty []
    | relative => walk (Path.parts relative) tree []

/-- The text of the file at a path. -/
def read (path : String) (tree : FileTree) : Except Failure String :=
  match tree.find path with
  | .error failure => .error failure
  | .ok (directory _) => .error .isADirectory
  | .ok (file bytes) =>
    match Utf8.decode? bytes with
    | some text => .ok (String.ofList text)
    | none => .error .notUtf8

end FileTree

end Lox
