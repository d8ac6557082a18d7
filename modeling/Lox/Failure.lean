/-!
# Failures of the surroundings

What a request to the operating system can fail with: a kind, by which reports are worded, and
the system's own description.
-/

namespace Lox

/-- Kinds of failed requests; the first three have reports of their own. -/
inductive FailureKind where
  | notFound
  | permissionDenied
  | invalidData
  | isADirectory
  | notADirectory
  | invalidFilename
  | invalidInput
  | unexpectedEof
  | interrupted
  | timedOut
  | alreadyExists
  | other
deriving DecidableEq, Repr

namespace FailureKind

/-- The kind in words. -/
def text : FailureKind → String
  | notFound => "entity not found"
  | permissionDenied => "permission denied"
  | invalidData => "invalid data"
  | isADirectory => "is a directory"
  | notADirectory => "not a directory"
  | invalidFilename => "invalid filename"
  | invalidInput => "invalid input parameter"
  | unexpectedEof => "unexpected end of file"
  | interrupted => "operation interrupted"
  | timedOut => "timed out"
  | alreadyExists => "entity already exists"
  | other => "other error"

end FailureKind

structure Failure where
  kind : FailureKind
  detail : String
deriving DecidableEq, Repr

namespace Failure

def missing : Failure := ⟨.notFound, "No such file or directory (os error 2)"⟩

def notADirectory : Failure := ⟨.notADirectory, "Not a directory (os error 20)"⟩

def isADirectory : Failure := ⟨.isADirectory, "Is a directory (os error 21)"⟩

def nameTooLong : Failure := ⟨.invalidFilename, "File name too long (os error 36)"⟩

def notUtf8 : Failure := ⟨.invalidData, "stream did not contain valid UTF-8"⟩

def nulInName : Failure := ⟨.invalidInput, "file name contained an unexpected NUL byte"⟩

/-- How a script or an input stream that cannot be read is reported. -/
def report (failure : Failure) : String :=
  match failure.kind with
  | .notFound => "We could not find the file you provided (" ++ failure.detail ++ ")."
  | .permissionDenied =>
    "You do not have permissions to access the file you provided (" ++ failure.detail ++ ")."
  | .invalidData => "The file you provided is not a valid UTF-8 file (" ++ failure.detail ++ ")."
  | kind =>
    "We were unable to read the file you provided due to a " ++ kind.text ++ " error (" ++
      failure.detail ++ ")."

end Failure

end Lox
