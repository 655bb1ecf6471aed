/-
Module: Whitespace.Assembly.Catalogue
Purpose: The sources that a compilation can include besides the libraries. A catalogue is finite: it
  tells, for each of its names, the text or why the text cannot be had.
Main exports: Catalogue, Catalogue.ofTexts, Catalogue.resolve, Catalogue.find
-/
import Whitespace.Assembly.Error
import Whitespace.Assembly.Library

namespace Whitespace.Assembly

/-- Names of sources, each with its text or the reason why there is none. A compilation that ends asks for
    finitely many names, so a catalogue can tell it all that any way of finding sources answers. -/
structure Catalogue where
  entries : List (String × Except ResolveError String) := []

namespace Catalogue

def empty : Catalogue := {}

def ofTexts (texts : List (String × String)) : Catalogue :=
  ⟨texts.map fun (name, text) => (name, .ok text)⟩

def names (c : Catalogue) : List String := c.entries.map Prod.fst

/-- The text of a source. -/
def resolve (c : Catalogue) (name : String) : Except ResolveError String :=
  match c.entries.lookup name with
  | some text? => text?
  | none => .error (.notFound name)

/-- The text that an include of the name brings. Libraries go first. -/
def find (c : Catalogue) (options : Options) (name : String) : Except ResolveError String :=
  match Library.source? name options.extensions with
  | some text => .ok text
  | none => c.resolve name

/-- All names that an include can succeed with. -/
def includable (c : Catalogue) : List String := Library.names ++ c.names

/-- Only names of the catalogue bring a text. -/
theorem mem_names_of_resolve {c : Catalogue} {name text : String} (h : c.resolve name = .ok text) :
    name ∈ c.names := by
  unfold resolve at h
  split at h
  · next text? hl =>
    rw [List.lookup_eq_some_iff] at hl
    obtain ⟨l₁, l₂, hl, -⟩ := hl
    simp [names, hl]
  · cases h

/-- An include can succeed only with one of finitely many names. -/
theorem mem_includable_of_find {c : Catalogue} {options : Options} {name text : String}
    (h : c.find options name = .ok text) : name ∈ c.includable := by
  unfold find at h
  split at h
  · next hs => exact List.mem_append_left _ (Library.mem_names_of_source? hs)
  · exact List.mem_append_right _ (mem_names_of_resolve h)

end Catalogue

end Whitespace.Assembly
