/-
Module: Whitespace.Files.Tree
Purpose: The files below the directory in which a program runs. Paths are followed part by part, as a
  file system does: through directories that exist, and no further than they reach.
Main exports: Tree, Directory, Tree.ofFiles, Tree.readSource, Tree.isFile, Tree.write,
  Tree.resolveInclude
-/
import Whitespace.Files.FileError
import Whitespace.Files.Path

namespace Whitespace.Files

/-- A place in the tree: the names on the way to it, the last one first. -/
abbrev Place := List String

/-- Files with their contents. The directories are those that some file is in. -/
structure Tree where
  files : List (Place × ByteArray) := []

/-- A directory that the steps of a path can lead to. -/
inductive Directory where
  /-- A directory of the tree. -/
  | inside (place : Place)
  /-- A directory above the tree, the root of the file system included. Nothing is found in it. -/
  | above
deriving Repr, DecidableEq

/-- What a path leads to. -/
inductive Node where
  | file (content : ByteArray)
  | directory (directory : Directory)

/-- The longest name of a file, in bytes. -/
def maxNameLength : Nat := 255

/-- The longest path, in bytes. -/
def maxPathLength : Nat := 4095

namespace Tree

def file? (t : Tree) (place : Place) : Option ByteArray := t.files.lookup place

def hasDirectory (t : Tree) (place : Place) : Bool :=
  place.isEmpty || t.files.any fun (file, _) => file ≠ place && place.isSuffixOf file

def setFile (t : Tree) (place : Place) (content : ByteArray) : Tree :=
  ⟨(place, content) :: t.files.filter fun (file, _) => file ≠ place⟩

/-- What has a name in a directory. -/
def look (t : Tree) (directory : Directory) (name : String) : Except OpenFault Node :=
  if name.utf8ByteSize > maxNameLength then .error .nameTooLong
  else
    match directory with
    | .above => .error .noSuchFile
    | .inside place =>
      match t.file? (name :: place) with
      | some content => .ok (.file content)
      | none =>
        if t.hasDirectory (name :: place) then .ok (.directory (.inside (name :: place)))
        else .error .noSuchFile

/-- The directory that a part of a path leads to. -/
def enter (t : Tree) (directory : Directory) (part : String) : Except OpenFault Directory :=
  if part = "" || part = "." then .ok directory
  else if part = ".." then
    match directory with
    | .inside (_ :: place) => .ok (.inside place)
    | .inside [] | .above => .ok .above
  else
    match t.look directory part with
    | .error fault => .error fault
    | .ok (.file _) => .error .notDirectory
    | .ok (.directory next) => .ok next

/-- Splits the parts of a path into the directory that all but the last lead to, and the last. -/
def approach (t : Tree) : Directory → List String → Except OpenFault (Directory × String)
  | directory, [] => .ok (directory, "")
  | directory, [last] => .ok (directory, last)
  | directory, part :: rest =>
    match t.enter directory part with
    | .error fault => .error fault
    | .ok next => t.approach next rest

/-- Follows a path up to its last part. A path that starts with a slash starts at the root of the file
    system, any other in the directory of the tree. -/
def follow (t : Tree) (path : String) : Except OpenFault (Directory × String) :=
  if path.toList.contains '\x00' then .error .zeroCharacter
  else if path.utf8ByteSize > maxPathLength then .error .nameTooLong
  else if path.isEmpty then .error .noSuchFile
  else t.approach (if isAbsolute path then .above else .inside []) (pathParts path)

/-- What a path leads to. -/
def node (t : Tree) (path : String) : Except OpenFault Node :=
  match t.follow path with
  | .error fault => .error fault
  | .ok (directory, last) =>
    if last = "" || last = "." || last = ".." then
      (t.enter directory last).map .directory
    else t.look directory last

def isFile (t : Tree) (path : String) : Bool :=
  match t.node path with
  | .ok (.file _) => true
  | _ => false

/-- The text of the source file at a path. -/
def readSource (t : Tree) (path : String) : Except FileError String :=
  match t.node path with
  | .error fault => .error (.cannotOpen path fault)
  | .ok (.directory _) => .error (.cannotMap path)
  | .ok (.file content) =>
    match String.fromUTF8? content with
    | some text => .ok text
    | none => .error (.notText path)

/-- The tree after a text is written to a path. The directory must exist and belong to the tree. -/
def write (t : Tree) (path text : String) : Except FileError Tree :=
  match t.follow path with
  | .error fault => .error (.cannotOpen path fault)
  | .ok (directory, last) =>
    if last = "" || last = "." || last = ".." then .error (.cannotOpen path .isDirectory)
    else
      match t.look directory last, directory with
      | .ok (.directory _), _ => .error (.cannotOpen path .isDirectory)
      | .ok (.file _), .inside place | .error .noSuchFile, .inside place =>
        .ok (t.setFile (last :: place) text.toUTF8)
      | .ok (.file _), .above => .error (.cannotOpen path .noSuchFile)
      | .error fault, _ => .error (.cannotOpen path fault)

/-- The text of an included source: that of the file with the name itself, if there is one, and else
    that of the file whose name has the ending of assembly sources. -/
def resolveInclude (t : Tree) (directory name : String) : Except FileError String :=
  let (exact, ended) := includePaths directory name
  t.readSource (if t.isFile exact then exact else ended)

/-- The tree of files given by their paths. Paths that cannot be files are left out. -/
def ofFiles (files : List (String × ByteArray)) : Tree :=
  ⟨files.map fun (path, content) =>
    ((pathParts path).reverse.filter fun part => part ≠ "" && part ≠ ".", content)⟩

def texts (t : Tree) : List String :=
  t.files.filterMap fun (_, content) => String.fromUTF8? content

end Tree

end Whitespace.Files
