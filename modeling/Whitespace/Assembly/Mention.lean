/-
Module: Whitespace.Assembly.Mention
Purpose: The catalogue of the sources that a compilation can include from a tree of files. A file may
  be called by many names, but only names that some text mentions are ever asked for, so looking up
  those is enough.
Main exports: mentionedNames, Catalogue.ofTree
-/
import Whitespace.Assembly.Expansion
import Whitespace.Files.Tree

namespace Whitespace.Assembly

/-- The name that a line includes, if it includes one. -/
def mentionedName? (line : List Char) : Option String :=
  match tokenize line with
  | .ok (.word word :: arguments) =>
    if isInclude word then (includeTarget arguments).toOption else none
  | _ => none

def mentionedNames (text : String) : List String :=
  (Text.lines text).filterMap mentionedName?

/-- The catalogue for a source text whose includes are files of a tree, looked up from a directory. -/
def Catalogue.ofTree (tree : Files.Tree) (directory text : String) : Catalogue :=
  let names := ((text :: tree.texts).flatMap mentionedNames).eraseDups
  ⟨names.map fun name => (name, (tree.resolveInclude directory name).mapError .file)⟩

end Whitespace.Assembly
