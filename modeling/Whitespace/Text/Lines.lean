/-
Module: Whitespace.Text.Lines
Purpose: Cut a text at its line feeds. `pieces` keeps every part, the empty one after a final line feed
  included; `lines` reads the text as a list of lines, each ended by a line feed or by a carriage
  return and a line feed.
Main exports: pieces, lines, stampedLines
-/

namespace Whitespace.Text

/-- The parts of the text between its line feeds: one part more than there are line feeds. -/
def pieces : List Char → List (List Char)
  | [] => [[]]
  | c :: rest =>
    if c = '\n' then
      [] :: pieces rest
    else
      match pieces rest with
      | [] => [[c]]
      | part :: more => (c :: part) :: more

/-- The line without the carriage return that may stand before its line feed. -/
def dropReturn (line : List Char) : List Char :=
  if line.getLast? = some '\r' then line.dropLast else line

/-- The lines among the parts: all but the last were ended by a line feed, and the last counts only
    when something stands in it. -/
def endedLines : List (List Char) → List (List Char)
  | [] => []
  | [last] => if last.isEmpty then [] else [last]
  | line :: more => dropReturn line :: endedLines more

/-- The lines of a text. A carriage return belongs to the end of a line only before a line feed. -/
def lines (text : String) : List (List Char) :=
  endedLines (pieces text.toList)

/-- The lines of a text with their numbers, the first line having number 1. -/
def stampedLines (text : String) : List (Nat × List Char) :=
  (lines text).zipIdx.map fun (line, i) => (i + 1, line)

end Whitespace.Text
