/-
Module: Whitespace.Proofs.LibraryBlocks
Purpose: What the libraries have in common. The lines that a library brings are a block that control
  passes over: routines between a jump and the label it jumps to. They have nothing to do with variables,
  no two libraries share a label, and no library goes to the label at the end of another one.
Main exports: Library.pending, Library.ownLines, Library.family, Library.endLabel, Library.block,
  Library.Fits, Library.fits, Library.block_sound, Library.block_apart, Library.exists_find
-/
import Whitespace.Proofs.DetourLines
import Whitespace.Proofs.PlainCompilation

namespace Whitespace

/-! ### Lines of a joined text -/

/-- Lines that hold no line feed and do not end in a carriage return are told apart again when they have
    been joined. -/
theorem Text.lines_join {lines : List String}
    (plain : ∀ line ∈ lines, '\n' ∉ line.toList ∧ line.toList.getLast? ≠ some '\r') :
    Text.lines (String.join (lines.map (· ++ "\n"))) = lines.map String.toList := by
  have ended : (String.join (lines.map (· ++ "\n"))).toList = lines.flatMap (·.toList ++ ['\n']) := by
    rw [String.toList_join, List.flatMap_map]
    simp
  rw [Text.lines, ended]
  clear ended
  induction lines with
  | nil => rfl
  | cons line more ih =>
      rw [List.forall_mem_cons] at plain
      rw [List.flatMap_cons, List.append_assoc, List.singleton_append, Assembly.pieces_append,
        Assembly.pieces_of_not_mem plain.1.1, List.singleton_append, Text.endedLines]
      · rw [ih plain.2, List.map_cons, Text.dropReturn, if_neg plain.1.2]
      · exact Assembly.pieces_ne_nil _

namespace Assembly

namespace Library

/-- The lines of a source that are given one by one. -/
def numbered (name : String) (texts : List (List Char)) : List PendingLine :=
  texts.mapIdx fun i text => ⟨name, i + 1, text⟩

/-- The lines of a library, still to be cut into tokens. -/
def pending (options : Options) (name : String) : List PendingLine :=
  numbered name (((lines? name options.extensions).getD []).map String.toList)

/-- The lines that a library brings itself, without those of the libraries that it includes. -/
def ownLines (options : Options) (name : String) : List Line :=
  (pending options name).flatMap PendingLine.kept

def family (options : Options) (name : String) : List String :=
  includedNames (pending options name) ++ [name]

def endLabel (name : String) : String := "__" ++ name ++ "_end"

/-- The lines of a library as a block. -/
def blockOf (name : String) (lines : List Line) : Block where
  first := lines.headD ⟨name, 0, []⟩
  body := lines.tail.dropLast
  last := lines.getLastD ⟨name, 0, []⟩
  label := endLabel name

/-- The labels that the libraries define, in all of their variants. -/
def labels : String → List String
  | "io" =>
    ["print_str", "__io_print_str_loop", "__io_print_str_done", "println_num", "print_newline", "read_line",
      "__io_read_line_loop", "__io_read_line_done", "read_num", "__io_end"]
  | "memory" =>
    ["memory_init", "alloc", "memfill", "__memory_fill_loop", "__memory_fill_done", "strlen",
      "__memory_strlen_loop", "__memory_strlen_done", "__memory_end"]
  | "math" =>
    ["abs", "__math_abs_negative", "min", "__math_min_first", "max", "__math_max_second", "pow",
      "__math_pow_loop", "__math_pow_done", "__math_end"]
  | "bitwise" =>
    ["and", "__bitwise_and_zero", "or", "__bitwise_or_first_zero", "__bitwise_or_second_zero", "not",
      "__bitwise_end"]
  | "vector" => ["vector_new", "vector_len", "vector_push", "vector_get", "vector_set", "__vector_end"]
  | "memcontainer" =>
    ["memcontainer_new", "memcontainer_push", "memcontainer_pop", "memcontainer_peek",
      "memcontainer_size", "__memcontainer_end"]
  | _ => []

def requires : String → List String
  | "memcontainer" => ["vector"]
  | _ => []

/-- The lines of a library are what they should be: they can be cut into tokens and include libraries
    only, which they do first; they are a block to be passed over; their labels are those listed; and they
    do not go to the label at the end of another library. -/
structure Fits (options : Options) (name : String) (pending : List PendingLine) : Prop where
  plain : ∀ line ∈ pending, '\n' ∉ line.text ∧ line.text.getLast? ≠ some '\r'
  flawless : ∀ line ∈ pending, line.flaw? (fun _ => .ok "") = none
  includes : includedNames pending = requires name
  opens : requires name ≠ [] →
    (pending.takeWhile (·.demand.name?.isNone)).flatMap PendingLine.kept = []
  shape : (blockOf name (pending.flatMap PendingLine.kept)).lines = pending.flatMap PendingLine.kept
  sound : (blockOf name (pending.flatMap PendingLine.kept)).Sound options
  marks : (pending.flatMap PendingLine.kept).filterMap Line.marksLabel ⊆ labels name
  ends : ∀ l ∈ pending.flatMap PendingLine.kept, ∀ other ∈ names, other ≠ name →
    l.refersTo ≠ some (endLabel other)

end Library

instance (options : Options) (b : Block) : Decidable (b.Sound options) :=
  decidable_of_iff
    ((∀ l ∈ b.lines, l.reads? = none ∧ l.isDefinition = false) ∧
      (readStatements options [] b.lines).error? = none ∧
      Statement.ofLine options [] b.first = .ok (some (.jump .always b.label)) ∧
      Statement.ofLine options [] b.last = .ok (some (.label b.label)) ∧
      (∀ l ∈ b.body, l.marksLabel ≠ some b.label) ∧ (∀ l ∈ b.body, l.refersTo ≠ some b.label) ∧
      ∀ l ∈ b.body.getLast?, l.continues = false)
    ⟨fun ⟨bare, readable, first, last, unmarked, unused, stops⟩ =>
      ⟨bare, readable, first, last, unmarked, unused, stops⟩,
    fun sound => ⟨sound.bare, sound.readable, sound.first, sound.last, sound.unmarked, sound.unused,
      sound.stops⟩⟩

namespace Library

instance (options : Options) (name : String) (pending : List PendingLine) :
    Decidable (Fits options name pending) :=
  decidable_of_iff
    ((∀ line ∈ pending, '\n' ∉ line.text ∧ line.text.getLast? ≠ some '\r') ∧
      (∀ line ∈ pending, line.flaw? (fun _ => .ok "") = none) ∧
      includedNames pending = requires name ∧
      (requires name ≠ [] → (pending.takeWhile (·.demand.name?.isNone)).flatMap PendingLine.kept = []) ∧
      (blockOf name (pending.flatMap PendingLine.kept)).lines = pending.flatMap PendingLine.kept ∧
      (blockOf name (pending.flatMap PendingLine.kept)).Sound options ∧
      (pending.flatMap PendingLine.kept).filterMap Line.marksLabel ⊆ labels name ∧
      ∀ l ∈ pending.flatMap PendingLine.kept, ∀ other ∈ names, other ≠ name →
        l.refersTo ≠ some (endLabel other))
    ⟨fun ⟨plain, flawless, includes, opens, shape, sound, marks, ends⟩ =>
      ⟨plain, flawless, includes, opens, shape, sound, marks, ends⟩,
    fun fits => ⟨fits.plain, fits.flawless, fits.includes, fits.opens, fits.shape, fits.sound, fits.marks,
      fits.ends⟩⟩

/-! ### Every library -/

/-- A text is given by its characters. The texts of the libraries are long, so they are not taken apart by
    evaluation but by this lemma. -/
theorem map_toList_cons {chars : List Char} {rest : List String} {texts : List (List Char)}
    (h : rest.map String.toList = texts) :
    (String.ofList chars :: rest).map String.toList = chars :: texts := by
  rw [List.map_cons, String.toList_ofList, h]

theorem ownLines_of_toList {options : Options} {name : String} {given : List String}
    {texts : List (List Char)} {own : List Line} (listed : lines? name options.extensions = some given)
    (taken : given.map String.toList = texts) (kept : (numbered name texts).flatMap PendingLine.kept = own) :
    ownLines options name = own := by
  rw [ownLines, pending, listed, Option.getD_some, taken, kept]

theorem fits_of_toList {options : Options} {name : String} {lines : List String} {texts : List (List Char)}
    (given : lines? name options.extensions = some lines) (taken : lines.map String.toList = texts)
    (fits : Fits options name (numbered name texts)) : Fits options name (pending options name) := by
  rwa [pending, given, Option.getD_some, taken]

/-- Without the extensions the lines of every library fit what is asked of a block. -/
theorem fits_plain {name : String} (known : name ∈ names) : Fits {} name (pending {} name) := by
  simp only [names, List.mem_cons, List.not_mem_nil, or_false] at known
  rcases known with rfl | rfl | rfl | rfl | rfl | rfl
  all_goals
    apply fits_of_toList rfl
    · repeat apply map_toList_cons
      exact List.map_nil
    · decide +kernel

theorem fits_bitwise_extended : Fits .extended "bitwise" (pending .extended "bitwise") := by
  apply fits_of_toList rfl
  · repeat apply map_toList_cons
    exact List.map_nil
  · decide +kernel

/-- Lines that fit without the extension fit with it. -/
theorem Fits.extended {name : String} {pending : List PendingLine} (fits : Fits {} name pending) :
    Fits .extended name pending :=
  { fits with
    sound := { fits.sound with
      readable := (readStatements_extended fits.sound.readable).1
      first := Statement.ofLine_extended fits.sound.first
      last := Statement.ofLine_extended fits.sound.last } }

/-- Every library is what it should be. -/
theorem fits (options : Options) {name : String} (known : name ∈ names) :
    Fits options name (pending options name) := by
  obtain ⟨extensions⟩ := options
  cases extensions with
  | false => exact fits_plain known
  | true =>
      by_cases variant : name = "bitwise"
      · subst variant
        exact fits_bitwise_extended
      · have same : lines? name true = lines? name false := by
          unfold lines?
          split <;> first | rfl | exact absurd rfl variant
        have lines : pending .extended name = pending {} name := by
          unfold pending
          rw [show lines? name Options.extended.extensions = _ from same]
        exact lines ▸ (fits_plain known).extended

/-- Libraries do not share labels. -/
theorem labels_disjoint {name other : String} (known : name ∈ names) (known' : other ∈ names)
    (different : name ≠ other) : (labels name).Disjoint (labels other) := by
  have apart : ∀ name ∈ names, ∀ other ∈ names, name ≠ other → ∀ label ∈ labels name, label ∉ labels other := by
    decide +kernel
  exact fun label here there => apart name known other known' different label here there

/-- The lines of a library as a block. -/
def block (options : Options) (name : String) : Block := blockOf name (ownLines options name)

section

variable {options : Options} {name other : String}

theorem block_lines (options : Options) (known : name ∈ names) :
    (block options name).lines = ownLines options name := (fits options known).shape

theorem block_sound (options : Options) (known : name ∈ names) : (block options name).Sound options :=
  (fits options known).sound

theorem source_of_mem_pending {line : PendingLine} (h : line ∈ pending options name) :
    line.source = name := by
  obtain ⟨i, bound, rfl⟩ := List.mem_mapIdx.1 h
  rfl

theorem source_of_mem_ownLines {l : Line} (h : l ∈ ownLines options name) : l.source = name := by
  obtain ⟨line, member, kept⟩ := List.mem_flatMap.1 h
  rw [(PendingLine.place_of_mem_kept kept).1, source_of_mem_pending member]

theorem mem_labels_of_marksLabel (known : name ∈ names) {l : Line} (h : l ∈ ownLines options name)
    {label : String} (marks : l.marksLabel = some label) : label ∈ labels name :=
  (fits options known).marks (List.mem_filterMap.2 ⟨l, h, marks⟩)

/-- Lines leave the labels of a library to it when those of other libraries are among them, but none of its
    own, and the others leave its labels to it. -/
theorem block_apart (known : name ∈ names) {core : List Line}
    (absent : ∀ l ∈ core, l.source ≠ name)
    (library : ∀ l ∈ core, l.source ∈ names → l ∈ ownLines options l.source)
    (outside : ∀ l ∈ core, l.source ∉ names → ∀ l' ∈ ownLines options name, ∀ label,
      l'.marksLabel = some label → l.marksLabel ≠ some label) :
    (block options name).Apart core where
  labels := by
    intro l member l' own label marks' marks
    rw [block_lines options known] at own
    by_cases inside : l.source ∈ names
    · exact labels_disjoint inside known (absent l member)
        (mem_labels_of_marksLabel inside (library l member inside) marks)
        (mem_labels_of_marksLabel known own marks')
    · exact outside l member inside l' own label marks' marks
  lines := by
    intro l member own
    rw [block_lines options known] at own
    exact absent l member (source_of_mem_ownLines own)

/-- The text of a library is cut into the lines it is given by. -/
theorem pendingLines_source (known : name ∈ names) {text : String}
    (h : source? name options.extensions = some text) : pendingLines name text = pending options name := by
  obtain ⟨lines, given, rfl⟩ := Option.map_eq_some_iff.1 h
  have fits := fits options known
  have plain : ∀ line ∈ lines, '\n' ∉ line.toList ∧ line.toList.getLast? ≠ some '\r' := by
    intro line member
    obtain ⟨i, here⟩ := List.mem_iff_getElem?.1 member
    apply fits.plain ⟨name, i + 1, line.toList⟩
    apply List.mem_of_getElem? (i := i)
    simp [pending, numbered, given, here]
  rw [pendingLines_eq, sourceLines, Text.lines_join plain, pending, numbered, given]
  rfl

theorem exists_source (extensions : Bool) (known : name ∈ names) :
    ∃ text, source? name extensions = some text := by
  simp only [names, List.mem_cons, List.not_mem_nil, or_false] at known
  rcases known with rfl | rfl | rfl | rfl | rfl | rfl <;> exact ⟨_, rfl⟩

/-- An include of a library brings its lines, whatever other sources there are. -/
theorem exists_find (catalogue : Catalogue) (options : Options) (known : name ∈ names) :
    ∃ text, catalogue.find options name = .ok text ∧ pendingLines name text = pending options name := by
  obtain ⟨text, source⟩ := exists_source options.extensions known
  refine ⟨text, ?_, pendingLines_source known source⟩
  unfold Catalogue.find
  rw [source]

end

end Library

end Assembly

end Whitespace
