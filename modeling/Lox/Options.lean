/-!
# Command line options

Two switches, each with a short and a long spelling, and at most one script.
-/

namespace Lox

structure Options where
  file : Option String
  debug : Bool
  help : Bool
  /-- Arguments beyond the script; any at all is a mistake in usage. -/
  extra : List String
deriving DecidableEq, Repr

namespace Options

def usage : String := "Usage: tlps [script]"

def none : Options := ⟨.none, false, false, []⟩

/-- Take one more argument into account. -/
def add (options : Options) (arg : String) : Options :=
  if arg = "-d" ∨ arg = "--debug" then { options with debug := true }
  else if arg = "-h" ∨ arg = "--help" then { options with help := true }
  else
    match options.file with
    | .none => { options with file := some arg }
    | some _ => { options with extra := options.extra ++ [arg] }

def parse (args : List String) : Options :=
  args.foldl add none

def isUsageError (options : Options) : Bool := !options.extra.isEmpty

end Options

end Lox
