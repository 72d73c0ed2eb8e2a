/-!
# Faults of the file system

The reasons for which the file system refuses an operation, with the texts by which they are
reported.
-/

namespace GatedCalls.Disk

/-- Why the file system refuses an operation. -/
inductive Fault where
  /-- A file or a directory on the way is missing. -/
  | notFound
  /-- The root of the tree can be neither removed nor moved. -/
  | busy
  /-- Something is there already. -/
  | alreadyExists
  /-- A file stands where a directory is needed. -/
  | notDirectory
  /-- A directory stands where a file is needed. -/
  | isDirectory
  /-- A directory is to be removed as `.`, or moved into itself. -/
  | invalidArgument
  /-- A name or a path has too many bytes. -/
  | nameTooLong
  /-- A directory that is to be removed or replaced holds something. -/
  | notEmpty
  /-- A path contains the character NUL. -/
  | nulInPath
  /-- The bytes of a file are no text. -/
  | notUtf8
  deriving DecidableEq, Repr

/-- The text by which a fault is reported. -/
def Fault.text : Fault → String
  | notFound => "No such file or directory (os error 2)"
  | busy => "Device or resource busy (os error 16)"
  | alreadyExists => "File exists (os error 17)"
  | notDirectory => "Not a directory (os error 20)"
  | isDirectory => "Is a directory (os error 21)"
  | invalidArgument => "Invalid argument (os error 22)"
  | nameTooLong => "File name too long (os error 36)"
  | notEmpty => "Directory not empty (os error 39)"
  | nulInPath => "file name contained an unexpected NUL byte"
  | notUtf8 => "stream did not contain valid UTF-8"

end GatedCalls.Disk
