/-
Module: Whitespace.Files.Path
Purpose: Paths as texts: the parts of a path, a name looked up in a directory, and the directory that
  a path leads through last.
Main exports: pathParts, joinPath, parentPath?, includePaths
-/

namespace Whitespace.Files

/-- The parts of a path between its slashes. -/
def pathParts (path : String) : List String :=
  (path.toList.splitOn '/').map String.ofList

def isAbsolute (path : String) : Bool := path.toList.head? = some '/'

/-- The path of a name in a directory. An absolute name stays as it is, and the empty path is the
    directory in which the program runs. -/
def joinPath (directory name : String) : String :=
  if isAbsolute name || directory.isEmpty then name
  else if directory.toList.getLast? = some '/' then directory ++ name
  else directory ++ "/" ++ name

/-- The parts without the empty ones and the dots at their end. A dot at the very start stays. -/
def trimParts (parts : List String) : List String :=
  match parts with
  | [] => []
  | first :: rest =>
    let kept := (rest.reverse.dropWhile fun part => part = "" || part = ".").reverse
    if first = "" && kept.isEmpty then [] else first :: kept

/-- The directory that holds the file of a path, if the path has a last part at all. -/
def parentPath? (path : String) : Option String :=
  if isAbsolute path then
    match trimParts (pathParts path).tail with
    | [] => none
    | parts => some ("/" ++ String.intercalate "/" (trimParts parts.dropLast))
  else
    match trimParts (pathParts path) with
    | [] => none
    | parts => some (String.intercalate "/" (trimParts parts.dropLast))

/-- The paths at which an included source is looked for: the name itself, and the name with the
    ending of assembly sources. -/
def includePaths (directory name : String) : String × String :=
  (joinPath directory name, joinPath directory (name ++ ".wsa"))

end Whitespace.Files
