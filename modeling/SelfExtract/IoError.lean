/-!
# Failures of file operations

One constructor for each cause that the file system model or the outer layer
can report, with the system's message.
-/
namespace SelfExtract

inductive IoError where
  | notFound
  | permissionDenied
  | alreadyExists
  | notADirectory
  | isADirectory
  | nameTooLong
  | directoryNotEmpty
  | linkLoop
  /-- A name that holds a NUL byte. -/
  | nulInName
  /-- An argument, a variable or a program that holds a NUL byte. -/
  | nulInArgument
  /-- A text file that is not UTF-8. -/
  | notText
  | invalidArgument
  | busy
  | noSpace
  /-- Any other cause, with its message. -/
  | other (message : String)
  deriving DecidableEq, Repr

def IoError.message : IoError → String
  | .notFound => "No such file or directory (os error 2)"
  | .permissionDenied => "Permission denied (os error 13)"
  | .alreadyExists => "File exists (os error 17)"
  | .notADirectory => "Not a directory (os error 20)"
  | .isADirectory => "Is a directory (os error 21)"
  | .nameTooLong => "File name too long (os error 36)"
  | .directoryNotEmpty => "Directory not empty (os error 39)"
  | .linkLoop => "Too many levels of symbolic links (os error 40)"
  | .nulInName => "file name contained an unexpected NUL byte"
  | .nulInArgument => "nul byte found in provided data"
  | .notText => "stream did not contain valid UTF-8"
  | .invalidArgument => "Invalid argument (os error 22)"
  | .busy => "Device or resource busy (os error 16)"
  | .noSpace => "No space left on device (os error 28)"
  | .other message => message

end SelfExtract
