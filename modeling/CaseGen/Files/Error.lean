import CaseGen.Text.Quoted

/-! # Why a file operation is refused

    A path text with a null character is refused before anything is looked
    up; every other cause is a state of the tree. -/

namespace CaseGen.Files

/-- The causes for which a file operation is refused. -/
inductive FileError where
  | notFound
  | notDirectory
  | isDirectory
  | exists
  | nameTooLong
  | busy
  /-- This path text holds a null character. -/
  | nullCharacter (text : String)
  deriving DecidableEq, Repr

namespace FileError

/-- The code of a cause that is a state of the tree. -/
def code? : FileError → Option String
  | notFound => some "ENOENT"
  | notDirectory => some "ENOTDIR"
  | isDirectory => some "EISDIR"
  | .exists => some "EEXIST"
  | nameTooLong => some "ENAMETOOLONG"
  | busy => some "EBUSY"
  | nullCharacter _ => none

/-- The message of a cause: its code, where it has one. -/
def message : FileError → String
  | nullCharacter text =>
    "The argument 'path' must be a string, Uint8Array, or URL without null bytes. Received " ++
      Text.exhibit text
  | e => e.code?.getD ""

end FileError

end CaseGen.Files
