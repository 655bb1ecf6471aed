/-
Module: Whitespace.Assembly.Library
Purpose: The libraries that every compilation can include by name.
Main exports: Library.names, Library.source?
-/
import Whitespace.Assembly.Library.Bitwise
import Whitespace.Assembly.Library.Io
import Whitespace.Assembly.Library.Math
import Whitespace.Assembly.Library.Memcontainer
import Whitespace.Assembly.Library.Memory
import Whitespace.Assembly.Library.Vector

namespace Whitespace.Assembly.Library

def names : List String := ["io", "memory", "math", "bitwise", "vector", "memcontainer"]

/-- The lines of a library. One library has a variant for compilations with the extensions. -/
def lines? (name : String) (extensions : Bool) : Option (List String) :=
  match name with
  | "io" => some ioLines
  | "memory" => some memoryLines
  | "math" => some mathLines
  | "bitwise" => some (if extensions then bitwiseExtensionLines else bitwiseLines)
  | "vector" => some vectorLines
  | "memcontainer" => some memcontainerLines
  | _ => none

/-- The text of a library, every line ended by a line feed. -/
def source? (name : String) (extensions : Bool) : Option String :=
  (lines? name extensions).map fun lines => String.join (lines.map (· ++ "\n"))

/-- Only the listed names are names of libraries. -/
theorem mem_names_of_source? {name text : String} {extensions : Bool}
    (h : source? name extensions = some text) : name ∈ names := by
  unfold source? lines? at h
  split at h <;> simp_all [names]

end Whitespace.Assembly.Library
