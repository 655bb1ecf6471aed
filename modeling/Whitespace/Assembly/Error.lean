/-
Module: Whitespace.Assembly.Error
Purpose: The ways in which a compilation can fail, each with its wording, and the place of a failure.
Main exports: ResolveError, Shape, ArgumentFault, IncludeFault, CompileCause, CompileError
-/
import Whitespace.Assembly.Context
import Whitespace.Assembly.Lexer
import Whitespace.Files.FileError

namespace Whitespace.Assembly

/-- Why the text of an included source cannot be had. -/
inductive ResolveError where
  /-- There is no source of this name. -/
  | notFound (name : String)
  /-- The file that the name stands for cannot be read. -/
  | file (error : Files.FileError)
deriving Repr, DecidableEq

def ResolveError.message : ResolveError → String
  | .notFound name => "no source named " ++ Text.quoted name
  | .file error => error.message

/-- The arguments that an opcode wants. -/
inductive Shape where
  | nothing
  | integer
  | optionalInteger
  /-- An integer that is not written as a character. -/
  | index
  | string
  | label
  | variableAndInteger
  | variableAndString
deriving Repr, DecidableEq

/-- The arguments that an opcode wants, in words. -/
def Shape.description : Shape → String
  | .nothing => "no arguments"
  | .integer => "an integer argument"
  | .optionalInteger => "an optional integer argument"
  | .index => "an index argument"
  | .string => "a string argument"
  | .label => "a label argument"
  | .variableAndInteger => "a variable and an integer argument"
  | .variableAndString => "a variable and a string argument"

/-- What is wrong with the arguments of an opcode. -/
inductive ArgumentFault where
  /-- There are too few or too many arguments, or one of the wrong sort. -/
  | mismatch (expected : Shape) (found : List Token.Kind)
  /-- An argument is a variable that has no value. -/
  | undefinedVariable (name : String)
  /-- An argument is a variable with a string for a value where an integer is wanted. -/
  | notInteger (name : String)
  /-- An argument is a variable with an integer for a value where a string is wanted. -/
  | notString (name : String)
deriving Repr, DecidableEq

/-- What is wrong with arguments, in words. -/
def ArgumentFault.message : ArgumentFault → String
  | .mismatch expected found =>
    s!"expected {expected.description}, but got {listKinds found}"
  | .undefinedVariable name => s!"variable {name} is not defined"
  | .notInteger name => s!"variable {name} holds a string, expected an integer"
  | .notString name => s!"variable {name} holds an integer, expected a string"

/-- Why an include fails. -/
inductive IncludeFault where
  /-- The arguments are something else than a single name. -/
  | notAName (found : List Token.Kind)
  | unresolved (error : ResolveError)
deriving Repr, DecidableEq

def IncludeFault.message : IncludeFault → String
  | .notAName found => "expected filename argument, but got " ++ listKinds found
  | .unresolved error => error.message

/-- Why a compilation fails. -/
inductive CompileCause where
  | lex (error : LexError)
  | argument (fault : ArgumentFault)
  | unknownOpcode (name : String)
  /-- A line starts with something else than a word. -/
  | expectedOpcode (found : Token.Kind)
  /-- A label is used and nowhere defined. -/
  | undefinedLabel (name : String)
  | inclusion (name : String) (fault : IncludeFault)
  /-- An opcode is used that only the extensions have. -/
  | extensionNeeded (name : String)
deriving Repr, DecidableEq

/-- Why a compilation fails, in words. -/
def CompileCause.message : CompileCause → String
  | .lex error => error.message
  | .argument fault => fault.message
  | .unknownOpcode name => "invalid opcode " ++ name
  | .expectedOpcode found => "expected opcode, but got " ++ found.name
  | .undefinedLabel name => s!"label {name} is never defined"
  | .inclusion name fault => s!"cannot include {name}: {fault.message}"
  | .extensionNeeded name => "can't use `" ++ name ++ "`: extensions not enabled"

/-- The failure of a compilation, with the source and the line it was found at. -/
structure CompileError where
  source : String
  line : Nat
  cause : CompileCause
deriving Repr, DecidableEq

def CompileError.message (e : CompileError) : String :=
  s!"{e.source}:{e.line}: {e.cause.message}"

end Whitespace.Assembly
