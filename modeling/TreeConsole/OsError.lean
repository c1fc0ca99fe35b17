/-!
# Refusals of the operating system

The reasons for which a file or a program cannot be had.
-/

namespace TreeConsole

/-- A refusal of the operating system. -/
inductive OsError where
  | notFound
  | permissionDenied
  | alreadyExists
  | notDirectory
  | isDirectory
  | noSpace
  | nameTooLong
  | outOfMemory
  | invalidName
  deriving DecidableEq, Repr, Inhabited

namespace OsError

/-- The sentence that describes the refusal, with its number. -/
def message : OsError → String
  | notFound => "No such file or directory (os error 2)"
  | permissionDenied => "Permission denied (os error 13)"
  | alreadyExists => "File exists (os error 17)"
  | notDirectory => "Not a directory (os error 20)"
  | isDirectory => "Is a directory (os error 21)"
  | noSpace => "No space left on device (os error 28)"
  | nameTooLong => "File name too long (os error 36)"
  | outOfMemory => "out of memory"
  | invalidName => "file name contained an unexpected NUL byte"

end OsError

end TreeConsole
