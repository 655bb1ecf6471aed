/-
Module: Whitespace.Files.FileError
Purpose: The ways in which reading a source file can fail.
Main exports: OpenFault, FileError, FileError.message
-/

namespace Whitespace.Files

/-- Why a file cannot be opened. -/
inductive OpenFault where
  | noSuchFile
  /-- A part of the path that should be a directory is a file. -/
  | notDirectory
  | nameTooLong
  /-- The path holds a zero character, which no path may. -/
  | zeroCharacter
  /-- The path leads to a directory, where a file was to be written. -/
  | isDirectory
  /-- Any other reason, in the words of the system. -/
  | other (reason : String)
deriving Repr, DecidableEq

/-- Why a file cannot be opened, in the words of the system. -/
def OpenFault.message : OpenFault → String
  | .noSuchFile => "No such file or directory (os error 2)"
  | .notDirectory => "Not a directory (os error 20)"
  | .nameTooLong => "File name too long (os error 36)"
  | .zeroCharacter => "file name contained an unexpected NUL byte"
  | .isDirectory => "Is a directory (os error 21)"
  | .other reason => reason

/-- Why a source file cannot be read. -/
inductive FileError where
  | cannotOpen (path : String) (fault : OpenFault)
  /-- The path leads to a directory, which has no content that could be mapped into memory. -/
  | cannotMap (path : String)
  /-- The bytes of the file are not the UTF-8 form of a text. -/
  | notText (path : String)
deriving Repr, DecidableEq

def FileError.message : FileError → String
  | .cannotOpen path fault => s!"failed to open file {path}: {fault.message}"
  | .cannotMap path => s!"failed to memory map file {path}: No such device (os error 19)"
  | .notText path => s!"file {path} is not valid utf-8"

end Whitespace.Files
