/-
Module: Whitespace.Assembly.Context
Purpose: What a compilation knows: its options, the sources it has included, the numbers of the labels
  met so far and the values of the variables defined so far. A compilation starts with nothing but its
  options.
Main exports: Options, Value, Labels, Labels.number, Labels.fresh, Variables, Variables.value?,
  Variables.define, Context, Context.hasIncluded, Context.markIncluded
-/
import Whitespace.Instruction
import Whitespace.Text.Quoted

namespace Whitespace.Assembly

/-- Settings that are fixed before a compilation starts. -/
structure Options where
  /-- Are the instructions for bitwise logic and the breakpoint marker allowed? -/
  extensions : Bool := false
deriving Repr, DecidableEq

/-- What a variable stands for. -/
inductive Value where
  | integer (value : Int)
  | string (value : String)
deriving Repr, DecidableEq

inductive Value.Kind where
  | integer
  | string
deriving Repr, DecidableEq

/-- The name by which messages call a sort of value. -/
def Value.Kind.name : Value.Kind → String
  | .integer => "integer"
  | .string => "string"

def Value.kind : Value → Value.Kind
  | .integer _ => .integer
  | .string _ => .string

def Value.shown : Value → String
  | .integer value => toString value
  | .string value => Text.quoted value

/-- What a label number was given to. -/
inductive LabelOrigin where
  /-- A name in the source. -/
  | named (name : String)
  /-- A label that a single jump of the source needs for itself. -/
  | internal
deriving Repr, DecidableEq

/-- The labels met so far. The number of a label is its place in the list, so numbers are given
    densely from 0 and no two labels share one. -/
structure Labels where
  origins : Array LabelOrigin := #[]
deriving Repr, DecidableEq

namespace Labels

/-- The next number that is free, given away. -/
def add (ls : Labels) (origin : LabelOrigin) : Label × Labels :=
  (⟨ls.origins.size⟩, ⟨ls.origins.push origin⟩)

/-- The label with a name; a new name gets the next number. -/
def number (ls : Labels) (name : String) : Label × Labels :=
  match ls.origins.idxOf? (.named name) with
  | some n => (⟨n⟩, ls)
  | none => ls.add (.named name)

def fresh (ls : Labels) : Label × Labels := ls.add .internal

def listedName (number : Nat) : LabelOrigin → String
  | .named name => name
  | .internal => s!"__internal_label_{number}"

/-- The names of all labels in the order of their numbers. -/
def names (ls : Labels) : List String :=
  ls.origins.toList.zipIdx.map fun (origin, n) => listedName n origin

end Labels

/-- The variables defined so far. A name occurs at most once. -/
abbrev Variables := List (String × Value)

namespace Variables

def value? (vs : Variables) (name : String) : Option Value := List.lookup name vs

/-- Defines a variable. A definition of a variable that has a value already counts for nothing. -/
def define (vs : Variables) (name : String) (value : Value) : Variables :=
  if (vs.value? name).isSome then vs else (name, value) :: vs

end Variables

/-- What a compilation knows. -/
structure Context where
  options : Options := {}
  included : List String := []
  labels : Labels := {}
  bindings : Variables := []
deriving Repr, DecidableEq

namespace Context

def hasIncluded (ctx : Context) (name : String) : Bool := ctx.included.contains name

def markIncluded (ctx : Context) (name : String) : Context :=
  { ctx with included := name :: ctx.included }

section

variable {ctx : Context} {name other : String}

@[simp] theorem hasIncluded_markIncluded :
    (ctx.markIncluded name).hasIncluded other = true ↔ other = name ∨ ctx.hasIncluded other = true := by
  simp [markIncluded, hasIncluded]

@[simp] theorem not_hasIncluded_markIncluded :
    (ctx.markIncluded name).hasIncluded other = false ↔ other ≠ name ∧ ctx.hasIncluded other = false := by
  simp [markIncluded, hasIncluded]

end

end Context

end Whitespace.Assembly
