/-!
What a file system answers when it refuses an operation, and the text each refusal is reported
with. The numbers are those of the system interface.
-/

namespace SegmentLog

inductive Fault
  | notFound
  | nameTaken
  | notFolder
  | isFolder
  | invalid
  /-- A length past the largest one that a file system keeps. -/
  | fileTooLarge
  | noSpace
  | outOfMemory
  | nameTooLong
  | nulInPath
  /-- A length past the largest one that can be asked for. -/
  | lengthOutOfRange
  | other (text : String)
  deriving DecidableEq, Repr

namespace Fault

def message : Fault → String
  | notFound => "No such file or directory (os error 2)"
  | nameTaken => "File exists (os error 17)"
  | notFolder => "Not a directory (os error 20)"
  | isFolder => "Is a directory (os error 21)"
  | invalid => "Invalid argument (os error 22)"
  | fileTooLarge => "File too large (os error 27)"
  | noSpace => "No space left on device (os error 28)"
  | outOfMemory => "out of memory"
  | nameTooLong => "File name too long (os error 36)"
  | nulInPath => "file name contained an unexpected NUL byte"
  | lengthOutOfRange => "number too large to fit in target type"
  | other text => text

end Fault

end SegmentLog
