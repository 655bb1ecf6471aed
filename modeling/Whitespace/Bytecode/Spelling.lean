/-
Module: Whitespace.Bytecode.Spelling
Purpose: Ways to write program texts that can be seen. `readable` shows the symbols by letters;
  `annotate` puts a letter before each symbol and stays executable, because the letters are comments;
  the bracketed spelling names each symbol by a word in square brackets and is read back by
  `decodeBracketed`.
Main exports: readable, annotate, decodeBracketed
-/
import Whitespace.Bytecode.Symbol

namespace Whitespace

/-- The symbols of a text by their letters, comments left out. -/
def readable (text : String) : String :=
  letters (symbols text.toList)

/-- The letter that an annotated text shows before a symbol. A line feed is called by its first
    letter, L. -/
def Symbol.annotation : Symbol → Char
  | .space => 'S'
  | .tab => 'T'
  | .lineFeed => 'L'

/-- A character of an annotated text: symbols follow their letter, comments stand alone. -/
def annotateChar (c : Char) : List Char :=
  match Symbol.ofChar? c with
  | some s => [s.annotation, c]
  | none => [c]

/-- The text with a visible letter before each symbol. -/
def annotate (text : String) : String :=
  String.ofList (text.toList.flatMap annotateChar)

/-- Characters that only lay out a bracketed text. -/
def isLayout (c : Char) : Bool :=
  c = ' ' || c = '\t' || c = '\n' || c = '\r'

/-- Replaces a word by a character wherever it occurs, from left to right. A word that is found is
    passed over as a whole: `skip` counts the characters of it that are still to be dropped. -/
def replaceWord (word : List Char) (mark : Char) : Nat → List Char → List Char
  | _, [] => []
  | skip + 1, _ :: rest => replaceWord word mark skip rest
  | 0, c :: rest =>
    if word.isPrefixOf (c :: rest) then
      mark :: replaceWord word mark (word.length - 1) rest
    else
      c :: replaceWord word mark 0 rest

def Symbol.word : Symbol → List Char
  | .space => "[Space]".toList
  | .tab => "[Tab]".toList
  | .lineFeed => "[LF]".toList

theorem Symbol.toChar_not_mem_word (s t : Symbol) : s.toChar ∉ t.word := by
  cases s <;> cases t <;> decide

/-- Replaces the bracketed word of one symbol by the symbol. -/
def decodeWord (s : Symbol) (text : List Char) : List Char :=
  replaceWord s.word s.toChar 0 text

/-- The program text that a bracketed text spells. Layout is dropped before the words are looked
    for, so it may stand inside them. -/
def decodeBracketed (text : String) : String :=
  let tight := text.toList.filter (!isLayout ·)
  String.ofList (decodeWord .tab (decodeWord .space (decodeWord .lineFeed tight)))

def occurs (word : List Char) : List Char → Bool
  | [] => word.isEmpty
  | c :: rest => word.isPrefixOf (c :: rest) || occurs word rest

/-- Does the text use the bracketed spelling of a line feed? -/
def isBracketed (text : String) : Bool :=
  occurs (Symbol.word .lineFeed) text.toList

end Whitespace
