/-
Module: Whitespace.Assembly.Token
Purpose: The tokens of an assembly line and the ways to show them.
Main exports: Token, Token.Kind, Token.kind, Token.shown, listKinds
-/
import Whitespace.Text.Quoted

namespace Whitespace.Assembly

/-- One token of an assembly line. -/
inductive Token where
  /-- An opcode or the name of a label. -/
  | word (name : String)
  | integer (value : Int)
  | string (value : String)
  | character (value : Char)
  /-- A variable, with the underscore that it starts with. -/
  | variable (name : String)
  /-- A remark that is carried over into the program. -/
  | decoration (text : String)
deriving Repr, DecidableEq

namespace Token

/-- The sorts of tokens. -/
inductive Kind where
  | word
  | integer
  | string
  | character
  | variable
  | decoration
deriving Repr, DecidableEq

/-- The name by which messages call a sort of token. -/
def Kind.name : Kind → String
  | .word => "word"
  | .integer => "integer"
  | .string => "string"
  | .character => "char"
  | .variable => "variable"
  | .decoration => "decoration"

/-- The sort of a token. -/
def kind : Token → Kind
  | .word _ => .word
  | .integer _ => .integer
  | .string _ => .string
  | .character _ => .character
  | .variable _ => .variable
  | .decoration _ => .decoration

/-- How messages show a token. A character is shown by its code point. -/
def shown : Token → String
  | .word name | .variable name => name
  | .integer value => toString value
  | .character value => toString value.toNat
  | .string value => Text.quoted value
  | .decoration text => ";#; " ++ text

end Token

/-- An enumeration of at least three items, with a comma before the last one too. -/
def enumerate : List String → String
  | [] => "nothing"
  | [only] => only
  | [first, second] => first ++ " and " ++ second
  | items =>
    String.intercalate ", " items.dropLast ++ ", and " ++ items.getLast?.getD ""

def listKinds (kinds : List Token.Kind) : String :=
  enumerate (kinds.map Token.Kind.name)

end Whitespace.Assembly
