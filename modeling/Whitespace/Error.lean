/-
Module: Whitespace.Error
Purpose: All that can go wrong between a source file and the end of a run.
Main exports: Error, Error.message
-/
import Whitespace.Assembly.Error
import Whitespace.Bytecode.Parser
import Whitespace.Machine.Fault

namespace Whitespace

/-- A failure of any part of the work. -/
inductive Error where
  | parse (error : ParseError)
  | runtime (failure : Machine.Failure)
  | compile (error : Assembly.CompileError)
  | file (error : Files.FileError)
deriving Repr, DecidableEq

/-- The report of a failure. -/
def Error.message : Error → String
  | .parse error => "parse error: " ++ error.message
  | .runtime failure => "runtime error: " ++ failure.message
  | .compile error => "compile error: " ++ error.message
  | .file error => error.message

end Whitespace
