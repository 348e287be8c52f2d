/-! Why an operation on a file fails. -/
namespace CopyPatch.Files

inductive Cause where
  | notFound
  /-- A path that ends in points names a directory in use, which nothing can replace. -/
  | busy
  | alreadyExists
  | notDirectory
  | isDirectory
  | nameTooLong
  /-- A path with a zero byte. -/
  | zeroInName
  | notText
  /-- A reason of the machine that has no place in the file tree. -/
  | other (text : String)
  deriving DecidableEq, Repr

namespace Cause

def message : Cause → String
  | notFound => "No such file or directory (os error 2)"
  | busy => "Device or resource busy (os error 16)"
  | alreadyExists => "File exists (os error 17)"
  | notDirectory => "Not a directory (os error 20)"
  | isDirectory => "Is a directory (os error 21)"
  | nameTooLong => "File name too long (os error 36)"
  | zeroInName => "file name contained an unexpected NUL byte"
  | notText => "stream did not contain valid UTF-8"
  | other text => text

end Cause

end CopyPatch.Files
