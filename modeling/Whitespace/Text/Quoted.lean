/-
Module: Whitespace.Text.Quoted
Purpose: The quoted form in which messages show a text: between double quotes, with the quote, the
  backslash and the common controls written as short escapes and every other character that has no
  visible form of its own written by its code point.
Main exports: quotedChar, quoted
-/
import Whitespace.Text.Printable

namespace Whitespace.Text

/-- The escape that gives the code point in hexadecimal, without leading zeros. -/
def codePointEscape (c : Char) : List Char :=
  '\\' :: 'u' :: '\x7b' :: (Nat.toDigits 16 c.toNat ++ ['\x7d'])

/-- How a character stands inside a quoted text. -/
def quotedChar (c : Char) : List Char :=
  if c = '"' then ['\\', '"']
  else if c = '\\' then ['\\', '\\']
  else if c = '\n' then ['\\', 'n']
  else if c = '\r' then ['\\', 'r']
  else if c = '\t' then ['\\', 't']
  else if c = '\x00' then ['\\', '0']
  else if extendsGrapheme c || !isPrintable c then codePointEscape c
  else [c]

def quoted (text : String) : String :=
  String.ofList ('"' :: (text.toList.flatMap quotedChar ++ ['"']))

end Whitespace.Text
