/-
Module: Whitespace.Text.Blank
Purpose: The blank characters that separate the tokens of an assembly line: all characters with the
  property White_Space, of which the space, the tab and the line feed are only three.
Main exports: isBlank, trimStart
-/
import Whitespace.Text.CodeRange

namespace Whitespace.Text

/-- Code points with the property White_Space. -/
def blankRanges : List CodeRange :=
  [(0x9, 0xd), (0x20, 0x20), (0x85, 0x85), (0xa0, 0xa0), (0x1680, 0x1680), (0x2000, 0x200a),
   (0x2028, 0x2029), (0x202f, 0x202f), (0x205f, 0x205f), (0x3000, 0x3000)]

def isBlank (c : Char) : Bool := covers blankRanges c.toNat

def trimStart (text : List Char) : List Char := text.dropWhile isBlank

end Whitespace.Text
