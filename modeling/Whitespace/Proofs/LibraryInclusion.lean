/-
Module: Whitespace.Proofs.LibraryInclusion
Purpose: Including a library makes no difference. A source with one more include of a library, anywhere
  between its lines, still compiles, to a program that comes to the same, provided that no other line
  defines a label of what the include brings and none goes to the label at the end of it.
Main exports: SameRuns, Library.Spared, Library.Spared.step, Library.Spared.run, Library.exists_brought,
  Library.LabelsFree, Library.EndsUnused, include_library_immaterial
-/
import Whitespace.Proofs.EarlyIncludes

namespace Whitespace

/-- The texts hold programs that come to the same on every input. -/
def SameRuns (code code' : String) : Prop :=
  ∃ P Q, Program.ofText code = .ok P ∧ Program.ofText code' = .ok Q ∧ P.Equivalent Q

namespace Assembly

/-- The lines can be lowered, dead lines being dropped, to a program that comes to the same as the one
    given, with an exit behind both or without it. -/
def LowersLike (options : Options) (lowered : Lowered) (lines : List Line) : Prop :=
  ∃ lowered', (lower { options } (reachableLines lines)).1 = .ok lowered' ∧
    ∀ suffix, suffix = [] ∨ suffix = [.flow .exit] →
      (Program.ofInstructions (lowered.instructions ++ suffix)).Equivalent
        (.ofInstructions (lowered'.instructions ++ suffix))

namespace Library

/-! ### One library -/

/-- Lines outside the libraries leave some libraries alone: they define none of the labels of these
    libraries, and when control reaches them they do not go to the label at the end of one. Lines that say
    that they come from a library do come from there. -/
structure Spared (options : Options) (libraries : List String) (lines : List Line) : Prop where
  genuine : ∀ l ∈ lines, l.source ∈ names → l ∈ ownLines options l.source
  labels : ∀ l ∈ lines, l.source ∉ names → ∀ name ∈ libraries, ∀ l' ∈ ownLines options name,
    ∀ label, l'.marksLabel = some label → l.marksLabel ≠ some label
  ends : ∀ l ∈ reachableLines lines, l.source ∉ names → ∀ name ∈ libraries,
    l.refersTo ≠ some (endLabel name)

section

variable {options : Options} {lines lines' core : List Line} {name : String} {more : List String}

theorem Spared.block_apart (spared : Spared options (name :: more) lines) (known : name ∈ names)
    (fewer : core ⊆ lines) (absent : ∀ l ∈ core, l.source ≠ name) : (block options name).Apart core :=
  Library.block_apart known absent (fun l member => spared.genuine l (fewer member))
    fun l member outside => spared.labels l (fewer member) outside name List.mem_cons_self

/-- No other line that control reaches goes to the label at the end of the library, be it a line of a
    library or not. -/
theorem Spared.unused (spared : Spared options (name :: more) lines) (known : name ∈ names) :
    ∀ l ∈ reachableLines lines, l ∉ (block options name).lines →
      l.refersTo ≠ some (block options name).label := by
  intro l member outside
  rw [block_lines options known] at outside
  by_cases library : l.source ∈ names
  · have own := spared.genuine l (mem_of_mem_reachableLines member) library
    apply (fits options library).ends l own name known
    rintro rfl
    exact outside own
  · exact spared.ends l member library name List.mem_cons_self

/-- With the lines of one library more, the others are still left alone. -/
theorem Spared.next (spared : Spared options (name :: more) lines) (known : name ∈ names)
    (origin : ∀ l ∈ lines', l ∈ ownLines options name ∨ l ∈ lines)
    (reached : ∀ l ∈ reachableLines lines', l ∈ ownLines options name ∨ l ∈ reachableLines lines) :
    Spared options more lines' where
  genuine := by
    intro l member library
    rcases origin l member with own | old
    · rwa [source_of_mem_ownLines own]
    · exact spared.genuine l old library
  labels := by
    intro l member outside other listed
    rcases origin l member with own | old
    · exact absurd (source_of_mem_ownLines own ▸ known) outside
    · exact spared.labels l old outside other (List.mem_cons_of_mem _ listed)
  ends := by
    intro l member outside other listed
    rcases reached l member with own | old
    · exact absurd (source_of_mem_ownLines own ▸ known) outside
    · exact spared.ends l old outside other (List.mem_cons_of_mem _ listed)

end

section

variable {catalogue : Catalogue} {ctx ctx' : Context} {rest : List PendingLine} {line : PendingLine}
  {before after : List Line} {name : String} {more : List String} {lowered : Lowered}

/-- One library more is included between lines that are expanded and lines that are not. -/
theorem Spared.step (spared : Spared ctx.options (name :: more) (before ++ after)) (known : name ∈ names)
    (expanded : Expands catalogue ctx rest ctx' after) (outer : ∀ line ∈ rest, line.source ∉ names)
    (new : ctx.hasIncluded name = false) (ready : Ready ctx name)
    (absent : ∀ l ∈ before, l.source ≠ name)
    (accepted : (lower { options := ctx.options } (reachableLines (before ++ after))).1 = .ok lowered) :
    ∃ ctx₁ core, Expands catalogue (ctx.markIncluded name) rest ctx₁ core ∧
      Spared ctx.options more (before ++ ownLines ctx.options name ++ core) ∧
      LowersLike ctx.options lowered (before ++ ownLines ctx.options name ++ core) := by
  obtain ⟨ctx₁, core, at?, early, inside, parts⟩ := exists_early expanded known new ready (.refl _)
  -- Both lists are arrangements of the block and of the same other lines.
  obtain ⟨at₁?, inside', whole⟩ := exists_append_arrange before (block ctx.options name).lines inside
  rw [block_lines ctx.options known, ← parts, ← block_lines ctx.options known] at whole
  have moved : arrange (some before.length) (block ctx.options name).lines (before ++ core) =
      before ++ ownLines ctx.options name ++ core := by
    rw [arrange_length, block_lines ctx.options known]
  have fewer : before ++ core ⊆ before ++ after := by
    rw [whole]
    exact subset_arrange _ _ _
  have lacking : ∀ l ∈ before ++ core, l.source ≠ name := by
    rw [List.forall_mem_append]
    refine ⟨absent, source_ne_of_expands early ?_ (.inl (Context.hasIncluded_markIncluded.2 (.inl rfl)))⟩
    rintro line member rfl
    exact outer line member known
  have bound : before.length ≤ (before ++ core).length := by
    rw [List.length_append]
    exact Nat.le_add_right _ _
  have unused := spared.unused known
  rw [whole] at accepted unused
  obtain ⟨alike, reached⟩ := Block.relocate (block_sound ctx.options known)
    (spared.block_apart known fewer lacking) inside' bound accepted unused
  rw [← whole, moved, block_lines ctx.options known] at reached
  rw [moved] at alike
  refine ⟨ctx₁, core, early, spared.next known ?_ reached, alike⟩
  intro l member
  rw [List.append_assoc, List.mem_append, List.mem_append] at member
  rcases member with front | own | behind
  · exact .inr (List.mem_append_left _ front)
  · exact .inl own
  · exact .inr (fewer (List.mem_append_right _ behind))

/-! ### An include -/

/-- The libraries can be included one after the other, each new and after those that it includes. -/
def InOrder : Context → List String → Prop
  | _, [] => True
  | ctx, name :: more =>
    name ∈ names ∧ ctx.hasIncluded name = false ∧ Ready ctx name ∧ InOrder (ctx.markIncluded name) more

/-- Libraries that are brought in order were not included before. -/
theorem InOrder.new (order : InOrder ctx more) (member : name ∈ more) : ctx.hasIncluded name = false := by
  induction more generalizing ctx with
  | nil => cases member
  | cons first more ih =>
      obtain ⟨-, new, -, order⟩ := order
      rcases List.mem_cons.1 member with rfl | later
      · exact new
      · exact (Context.not_hasIncluded_markIncluded.1 (ih order later)).2

/-- Only built-in libraries are brought. -/
theorem InOrder.known (order : InOrder ctx more) (member : name ∈ more) : name ∈ names := by
  induction more generalizing ctx with
  | nil => cases member
  | cons first more ih =>
      obtain ⟨known, -, -, order⟩ := order
      rcases List.mem_cons.1 member with rfl | later
      · exact known
      · exact ih order later

/-- Libraries are included between lines that are expanded and lines that are not. -/
theorem Spared.run (spared : Spared ctx.options more (before ++ after)) (order : InOrder ctx more)
    (expanded : Expands catalogue ctx rest ctx' after) (outer : ∀ line ∈ rest, line.source ∉ names)
    (absent : ∀ name ∈ more, ∀ l ∈ before, l.source ≠ name)
    (accepted : (lower { options := ctx.options } (reachableLines (before ++ after))).1 = .ok lowered) :
    ∃ ctx₁ core, Expands catalogue (more.foldl Context.markIncluded ctx) rest ctx₁ core ∧
      LowersLike ctx.options lowered (before ++ more.flatMap (ownLines ctx.options) ++ core) := by
  induction more generalizing ctx ctx' before after lowered with
  | nil =>
      refine ⟨ctx', after, expanded, lowered, ?_, fun _ _ => .refl _⟩
      rwa [List.flatMap_nil, List.append_nil]
  | cons name more ih =>
      obtain ⟨known, new, ready, order⟩ := order
      rw [List.forall_mem_cons] at absent
      obtain ⟨ctx₁, core, expanded', spared', lowered', accepted', alike⟩ :=
        spared.step known expanded outer new ready absent.1 accepted
      have absent' : ∀ other ∈ more, ∀ l ∈ before ++ ownLines ctx.options name, l.source ≠ other := by
        intro other listed
        rw [List.forall_mem_append]
        refine ⟨absent.2 other listed, fun l own => ?_⟩
        rw [source_of_mem_ownLines own]
        exact Ne.symm (Context.not_hasIncluded_markIncluded.1 (order.new listed)).1
      obtain ⟨ctx₂, core', expanded'', lowered'', accepted'', alike'⟩ :=
        @ih (ctx.markIncluded name) ctx₁ _ core lowered' spared' order expanded' absent' accepted'
      refine ⟨ctx₂, core', expanded'', lowered'', ?_, fun suffix exit => ?_⟩
      · rw [List.flatMap_cons, ← List.append_assoc before]
        exact accepted''
      · exact (alike suffix exit).trans (alike' suffix exit)

theorem requires_cases (known : name ∈ names) :
    requires name = [] ∨ ∃ other ∈ names, requires name = [other] ∧ requires other = [] := by
  simp only [names, List.mem_cons, List.not_mem_nil, or_false] at known
  rcases known with rfl | rfl | rfl | rfl | rfl | rfl
  all_goals first | exact .inl rfl | exact .inr ⟨"vector", by decide, rfl, rfl⟩

theorem family_eq (options : Options) (known : name ∈ names) :
    family options name = requires name ++ [name] := by
  rw [family, (fits options known).includes]

/-- An include of a library brings the lines of those of its family that were not included before. -/
theorem exists_brought (catalogue : Catalogue) (ctx : Context) (known : name ∈ names)
    (asked : line.demand = .inclusion name) :
    ∃ brought ctx₁, brought ⊆ family ctx.options name ∧ InOrder ctx brought ∧
      Expands catalogue ctx [line] ctx₁ (brought.flatMap (ownLines ctx.options)) ∧
      (brought.foldl Context.markIncluded ctx).Alike ctx₁ := by
  rw [family_eq ctx.options known]
  cases new : ctx.hasIncluded name with
  | true => exact ⟨[], ctx, List.nil_subset _, trivial, .skip asked new (.done ctx), .refl ctx⟩
  | false =>
      have alone (ready : Ready ctx name) : ∃ brought ctx₁, brought ⊆ requires name ++ [name] ∧
          InOrder ctx brought ∧ Expands catalogue ctx [line] ctx₁ (brought.flatMap (ownLines ctx.options)) ∧
          (brought.foldl Context.markIncluded ctx).Alike ctx₁ := by
        refine ⟨[name], ctx.markIncluded name, List.subset_append_right _ _,
          ⟨known, new, ready, trivial⟩, ?_, .refl _⟩
        rw [List.flatMap_singleton]
        exact expands_include known asked new ready
      rcases requires_cases known with none | ⟨other, known', needs, none⟩
      · apply alone
        rw [Ready, none]
        exact List.forall_mem_nil _
      · cases new' : ctx.hasIncluded other with
        | true =>
            apply alone
            rw [Ready, needs]
            simpa using new'
        | false =>
            have different : other ≠ name := by
              rintro rfl
              rw [none] at needs
              cases needs
            have ready : Ready ctx other := by
              rw [Ready, none]
              exact List.forall_mem_nil _
            have ready' : Ready (ctx.markIncluded other) name := by
              rw [Ready, needs]
              simp
            refine ⟨[other, name], (ctx.markIncluded name).markIncluded other, ?_,
              ⟨known', new', ready, known, Context.not_hasIncluded_markIncluded.2 ⟨different.symm, new⟩, ready',
                trivial⟩, ?_, ctx.markIncluded_comm other name⟩
            · rw [needs]
              exact List.Subset.refl _
            · rw [List.flatMap_cons, List.flatMap_singleton]
              exact expands_include_requires known asked new needs known' new' none

/-- No line outside the libraries defines a label that the library defines, or one that it includes. -/
def LabelsFree (options : Options) (name : String) (lines : List Line) : Prop :=
  ∀ l ∈ lines, l.source ∉ names → ∀ other ∈ family options name, ∀ l' ∈ ownLines options other,
    ∀ label, l'.marksLabel = some label → l.marksLabel ≠ some label

/-- No line outside the libraries that control reaches goes to the label at the end of the library, or of
    one that it includes, if that is included between the two contexts. -/
def EndsUnused (ctx ctx' : Context) (name : String) (lines : List Line) : Prop :=
  ∀ l ∈ reachableLines lines, l.source ∉ names → ∀ other ∈ family ctx.options name,
    ctx.hasIncluded other = false → ctx'.hasIncluded other = true → l.refersTo ≠ some (endLabel other)

theorem labelsFree_of_unmarked {options : Options} {lines : List Line}
    (unmarked : ∀ l ∈ lines, l.source ∉ names → l.marksLabel = none) : LabelsFree options name lines := by
  intro l member outside other _ l' _ label _
  rw [unmarked l member outside]
  exact (Option.some_ne_none label).symm

/-- Nothing goes to the label at the end of a library that is not there, since lines can be lowered only when
    the labels that they go to are defined. -/
theorem refersTo_ne_of_absent {options : Options} {lines : List Line} (known : name ∈ names)
    (apart : (block options name).Apart lines)
    (accepted : (lower { options } (reachableLines lines)).1 = .ok lowered) :
    ∀ l ∈ reachableLines lines, l.refersTo ≠ some (endLabel name) := by
  intro l member refers
  have foreign := Block.foreign_of_lower apart accepted
  have last : (block options name).last.marksLabel = some (endLabel name) :=
    congrArg Conduct.marksLabel (block_sound options known).conduct_last
  exact foreign l member _ refers _ (Block.last_mem _) last

/-- Lines with one more include among them can be lowered to a program that comes to the same. -/
theorem lowersLike_of_include {start : Context} {first : List PendingLine} {lines : List Line}
    (known : name ∈ names) (asked : line.demand = .inclusion name)
    (expanded : Expands catalogue start (first ++ rest) ctx' lines)
    (reached : Expands catalogue start first ctx before)
    (outer : ∀ line ∈ first ++ rest, line.source ∉ names) (labels : LabelsFree start.options name lines)
    (ends : EndsUnused ctx ctx' name lines)
    (accepted : (lower { options := start.options } (reachableLines lines)).1 = .ok lowered) :
    ∃ ctx'' lines', Expands catalogue start (first ++ line :: rest) ctx'' lines' ∧
      LowersLike start.options lowered lines' := by
  have genuine := mem_ownLines_of_expands expanded (genuine_of_source _ outer)
  obtain ⟨ctx₁, before', after, left, right, rfl⟩ := expanded.exists_of_append
  obtain ⟨rfl, rfl⟩ := left.unique reached
  rw [← left.context_eq.1] at genuine labels accepted ⊢
  obtain ⟨brought, ctx₂, members, order, middle, alike⟩ := exists_brought catalogue ctx₁ known asked
  have different {other : String} (listed : other ∈ brought) : ∀ line ∈ first ++ rest, line.source ≠ other := by
    rintro line member rfl
    exact outer line member (order.known listed)
  have unused {other : String} (listed : other ∈ brought) (never : ctx'.hasIncluded other = false) :
      ∀ l ∈ reachableLines (before' ++ after), l.refersTo ≠ some (endLabel other) := by
    apply refersTo_ne_of_absent (order.known listed) _ accepted
    exact block_apart (order.known listed) (source_ne_of_expands expanded (different listed) (.inr never))
      genuine fun l member outside => labels l member outside other (members listed)
  have spared : Spared ctx₁.options brought (before' ++ after) := by
    refine ⟨genuine, ?_, ?_⟩
    · exact fun l member outside other listed => labels l member outside other (members listed)
    · intro l member outside other listed
      cases included : ctx'.hasIncluded other with
      | true => exact ends l member outside other (members listed) (order.new listed) included
      | false => exact unused listed included l member
  have absent : ∀ other ∈ brought, ∀ l ∈ before', l.source ≠ other := by
    intro other listed
    apply source_ne_of_expands left _ (.inr (order.new listed))
    exact fun line member => different listed line (List.mem_append_left _ member)
  rw [List.forall_mem_append] at outer
  obtain ⟨ctx₃, core, onward, alike'⟩ := spared.run order right outer.2 absent accepted
  obtain ⟨ctx₄, onward', -⟩ := onward.congr_context alike
  refine ⟨ctx₄, _, left.append (middle.append onward'), ?_⟩
  rwa [← List.append_assoc]

end

end Library

/-! ### Sources -/

section

variable {catalogue : Catalogue} {options : Options} {text more code library : String} {k : Nat}
  {ctx ctx' : Context} {lines before : List Line}

theorem insertIdx_eq_append {α : Type} {items : List α} (inside : k ≤ items.length) (a : α) :
    items.insertIdx k a = items.take k ++ a :: items.drop k := by
  obtain ⟨front, rest, rfl, rfl, inserted⟩ := List.exists_of_modifyTailIdx (List.cons a) inside
  rw [List.take_left, List.drop_left]
  exact inserted

/-- A text with one more line says what its lines say with that line among them. -/
theorem pendingSayings_of_insertIdx {line : List Char} (inside : k ≤ (Text.lines text).length)
    (inserted : Text.lines more = (Text.lines text).insertIdx k line) (source : String) (number : Nat) :
    pendingSayings (pendingLines source more) =
      pendingSayings ((pendingLines source text).take k ++
        ⟨source, number, line⟩ :: (pendingLines source text).drop k) := by
  rw [pendingSayings_eq, pendingSayings_eq, map_text_pendingLines, inserted, insertIdx_eq_append inside,
    List.map_append, List.map_cons, List.map_take, List.map_drop, map_text_pendingLines]

/-- The line that is put in asks for the library. -/
theorem demand_include (known : library ∈ Library.names) (source : String) (number : Nat) :
    PendingLine.demand ⟨source, number, ("include " ++ library).toList⟩ = .inclusion library := by
  have tokens : tokenize ("include " ++ library).toList = .ok [.word "include", .word library] ∧
      inclusion? [.word "include", .word library] = some [.word library] := by
    simp only [Library.names, List.mem_cons, List.not_mem_nil, or_false] at known
    rcases known with rfl | rfl | rfl | rfl | rfl | rfl
    all_goals decide +kernel
  exact PendingLine.demand_of_inclusion tokens.1 tokens.2 rfl

/-- A source that compiles still compiles with one more include of a library between any two of its lines,
    or before or behind them all, and the programs come to the same on every input. No line outside the
    libraries may define a label of the library or of those that it includes, and none that control reaches
    may go to the label at the end of one that the source includes only behind the first `k` lines. -/
theorem include_library_immaterial (compiled : compile catalogue options text = .ok code)
    (known : library ∈ Library.names) (inside : k ≤ (Text.lines text).length)
    (inserted : Text.lines more = (Text.lines text).insertIdx k ("include " ++ library).toList)
    (expanded : expandSource catalogue { options } mainSource text = .ok (ctx', lines))
    (reached : expand catalogue { options } ((pendingLines mainSource text).take k) = .ok (ctx, before))
    (labels : Library.LabelsFree options library lines) (ends : Library.EndsUnused ctx ctx' library lines) :
    (∃ code', compile catalogue options more = .ok code' ∧ SameRuns code code') ∧
      ∃ exited exited', compileWithExit catalogue options text = .ok exited ∧
        compileWithExit catalogue options more = .ok exited' ∧ SameRuns exited exited' := by
  obtain ⟨lowered, source, rfl⟩ := map_eq_ok.1 compiled
  obtain ⟨ctx₁, lines₁, expands, accepted⟩ := lowerSource_eq_ok_iff.1 source
  obtain ⟨rfl, rfl⟩ := expands.unique (expand_eq_ok_iff.1 expanded)
  have outer : ∀ line ∈ pendingLines mainSource text, line.source ∉ Library.names := by
    intro line member
    rw [Library.source_of_mem_pendingLines member]
    decide
  rw [← List.take_append_drop k (pendingLines mainSource text)] at expands outer
  obtain ⟨ctx₂, lines₂, expands', lowered₂, accepted₂, alike⟩ :=
    Library.lowersLike_of_include known (demand_include known mainSource (k + 1)) expands
      (expand_eq_ok_iff.1 reached) outer labels ends accepted
  -- The lines behind the include have other numbers in the longer text.
  obtain ⟨lines', expands'', said⟩ :=
    expands'.congr (pendingSayings_of_insertIdx inside inserted mainSource (k + 1))
  obtain ⟨lowered', accepted', same⟩ := exists_lowered_of_sayings accepted₂ said
  have source' : (lowerSource catalogue { options } more).1 = .ok lowered' :=
    lowerSource_eq_ok_iff.2 ⟨ctx₂, lines', expands'', accepted'⟩
  rw [← same] at alike
  constructor
  · refine ⟨_, compile_of_lowerSource source', ?_⟩
    have alone := alike [] (.inl rfl)
    rw [List.append_nil, List.append_nil] at alone
    exact ⟨_, _, ofText_render lowered, ofText_render lowered', alone⟩
  · exact ⟨_, _, compileWithExit_of_lowerSource source, compileWithExit_of_lowerSource source',
      _, _, ofText_render_exit lowered, ofText_render_exit lowered', alike _ (.inr rfl)⟩

/-- A library that includes another one, brought between two lines. -/
theorem include_library_immaterial_memcontainer :
    ∃ code, compile .empty {} "push 1\noutn" = .ok code ∧
      (∃ code', compile .empty {} "push 1\ninclude memcontainer\noutn" = .ok code' ∧
        SameRuns code code') ∧
      ∃ exited exited', compileWithExit .empty {} "push 1\noutn" = .ok exited ∧
        compileWithExit .empty {} "push 1\ninclude memcontainer\noutn" = .ok exited' ∧
        SameRuns exited exited' := by
  let push : PendingLine := ⟨"main", 1, "push 1".toList⟩
  let write : PendingLine := ⟨"main", 2, "outn".toList⟩
  let lines : List Line := [⟨"main", 1, [.word "push", .integer 1]⟩, ⟨"main", 2, [.word "outn"]⟩]
  have cut : pendingLines mainSource "push 1\noutn" = [push, write] := by decide +kernel
  have expanded : Expands .empty {} (pendingLines mainSource "push 1\noutn") {} lines := by
    rw [cut]
    apply expands_plain <;> decide +kernel
  have reached : Expands .empty {} ((pendingLines mainSource "push 1\noutn").take 1) {}
      (lines.take 1) := by
    rw [cut]
    apply expands_plain <;> decide +kernel
  have search : isSearchOrder lines [0, 1] = true := by decide +kernel
  have compiled : (lowerSource .empty {} "push 1\noutn").1 = .ok ⟨[pushOf 1, .io .writeNumber], []⟩ := by
    refine lowerSource_eq_ok_iff.2 ⟨_, lines, expanded, ?_⟩
    rw [reachableLines_of_isSearchOrder search]
    decide +kernel
  have referred : ∀ l ∈ lines, l.refersTo = none := by decide +kernel
  have known : "memcontainer" ∈ Library.names := by decide
  have inserted : Text.lines "push 1\ninclude memcontainer\noutn" =
      (Text.lines "push 1\noutn").insertIdx 1 ("include " ++ "memcontainer").toList := by
    decide +kernel
  refine ⟨_, compile_of_lowerSource compiled, include_library_immaterial (compile_of_lowerSource compiled)
    known (by decide +kernel) inserted (expand_eq_ok_iff.2 expanded) (expand_eq_ok_iff.2 reached) ?_ ?_⟩
  · apply Library.labelsFree_of_unmarked
    decide +kernel
  · intro l member _ other _ _ _
    rw [referred l (mem_of_mem_reachableLines member)]
    exact (Option.some_ne_none _).symm

/-- The lines of the shortest library, in its variant for the extensions. -/
def Library.shortest : List Line :=
  let own (number : Nat) (tokens : List Token) : Line := ⟨"bitwise", number, tokens⟩
  [own 2 [.word "jump", .variable "__bitwise_end"], own 5 [.word "label", .word "and"],
    own 6 [.word "and"], own 7 [.word "ret"], own 10 [.word "label", .word "or"], own 11 [.word "or"],
    own 12 [.word "ret"], own 15 [.word "label", .word "not"], own 16 [.word "not"], own 17 [.word "ret"],
    own 19 [.word "label", .variable "__bitwise_end"]]

theorem Library.ownLines_shortest : ownLines .extended "bitwise" = shortest := by
  apply ownLines_of_toList rfl
  · repeat apply map_toList_cons
    exact List.map_nil
  · decide +kernel

/-- A program that writes is not equivalent to one that does not. -/
theorem not_equivalent_of_write :
    ¬(Program.ofInstructions [.flow (.jump ⟨0⟩), .flow (.mark ⟨0⟩), .flow .exit]).Equivalent
      (.ofInstructions [.flow (.jump ⟨0⟩), .flow (.mark ⟨0⟩), pushOf 1, .io .writeNumber, .flow .exit]) := by
  have silent (k : Nat) :
      (Machine.after (.ofInstructions [.flow (.jump ⟨0⟩), .flow (.mark ⟨0⟩), .flow .exit]) k
        { input := ⟨.ofText "", []⟩ }).output = {} := by
    rcases Nat.lt_or_ge k 3 with early | late
    · revert k
      decide +kernel
    · obtain ⟨d, rfl⟩ := Nat.exists_eq_add_of_le late
      rw [Machine.after_add, Machine.after_of_halted (by decide +kernel)]
      decide +kernel
  rintro ⟨-, follows⟩
  obtain ⟨k, alike, -⟩ := follows ⟨.ofText "", []⟩ 4
  have written := alike.output
  rw [silent] at written
  revert written
  decide +kernel

/-- The include of a library makes a difference when a line goes to the label at the end of it: control
    passes over the lines between the two includes no more. -/
theorem include_library_entered :
    let text := "jump __bitwise_end\npush 1\noutn\ninclude bitwise\nexit"
    let more := "jump __bitwise_end\ninclude bitwise\npush 1\noutn\ninclude bitwise\nexit"
    Text.lines more = (Text.lines text).insertIdx 1 ("include " ++ "bitwise").toList ∧
      ∃ ctx lines code code', compile .empty .extended text = .ok code ∧
        expandSource .empty { options := .extended } mainSource text = .ok (ctx, lines) ∧
        Library.LabelsFree .extended "bitwise" lines ∧
        compile .empty .extended more = .ok code' ∧ ¬SameRuns code code' := by
  intro text more
  let start : Context := { options := .extended }
  let pend (number : Nat) (line : String) : PendingLine := ⟨"main", number, line.toList⟩
  let line (number : Nat) (tokens : List Token) : Line := ⟨"main", number, tokens⟩
  have known : "bitwise" ∈ Library.names := by decide
  have asked (number : Nat) : (pend number ("include " ++ "bitwise")).demand = .inclusion "bitwise" :=
    demand_include known "main" number
  have cut : pendingLines mainSource text =
      [pend 1 "jump __bitwise_end", pend 2 "push 1", pend 3 "outn"] ++
        ([pend 4 ("include " ++ "bitwise")] ++ [pend 5 "exit"]) := by
    decide +kernel
  have cut' : pendingLines mainSource more =
      [pend 1 "jump __bitwise_end"] ++ ([pend 2 ("include " ++ "bitwise")] ++
        ([pend 3 "push 1", pend 4 "outn"] ++
          ([pend 5 ("include " ++ "bitwise")] ++ [pend 6 "exit"]))) := by
    decide +kernel
  have inclusion (number : Nat) : Expands .empty start [pend number ("include " ++ "bitwise")]
      (start.markIncluded "bitwise") Library.shortest := by
    rw [← Library.ownLines_shortest]
    exact Library.expands_include known (asked number) rfl (List.forall_mem_nil _)
  have again : Expands .empty (start.markIncluded "bitwise") [pend 5 ("include " ++ "bitwise")]
      (start.markIncluded "bitwise") [] := .skip (asked 5) rfl (.done _)
  let lines := [line 1 [.word "jump", .variable "__bitwise_end"], line 2 [.word "push", .integer 1],
    line 3 [.word "outn"]] ++ (Library.shortest ++ [line 5 [.word "exit"]])
  let lines' := [line 1 [.word "jump", .variable "__bitwise_end"]] ++ (Library.shortest ++
    ([line 3 [.word "push", .integer 1], line 4 [.word "outn"]] ++ ([] ++ [line 6 [.word "exit"]])))
  have expanded : Expands .empty start (pendingLines mainSource text) (start.markIncluded "bitwise") lines := by
    rw [cut]
    refine (expands_plain _ ?_ ?_ ?_).append ((inclusion 4).append (expands_plain _ ?_ ?_ ?_))
    all_goals decide +kernel
  have expanded' : Expands .empty start (pendingLines mainSource more) (start.markIncluded "bitwise") lines' := by
    rw [cut']
    refine (expands_plain _ ?_ ?_ ?_).append ((inclusion 2).append ((expands_plain _ ?_ ?_ ?_).append
      (again.append (expands_plain _ ?_ ?_ ?_))))
    all_goals decide +kernel
  have search : isSearchOrder lines [0, 13, 14] = true := by decide +kernel
  have search' : isSearchOrder lines' [0, 11, 12, 13, 14] = true := by decide +kernel
  have compiled : (lowerSource .empty start text).1 =
      .ok ⟨[.flow (.jump ⟨0⟩), .flow (.mark ⟨0⟩), .flow .exit], []⟩ := by
    refine lowerSource_eq_ok_iff.2 ⟨_, lines, expanded, ?_⟩
    rw [reachableLines_of_isSearchOrder search]
    decide +kernel
  have compiled' : (lowerSource .empty start more).1 =
      .ok ⟨[.flow (.jump ⟨0⟩), .flow (.mark ⟨0⟩), pushOf 1, .io .writeNumber, .flow .exit], []⟩ := by
    refine lowerSource_eq_ok_iff.2 ⟨_, lines', expanded', ?_⟩
    rw [reachableLines_of_isSearchOrder search']
    decide +kernel
  refine ⟨by decide +kernel, _, lines, _, _, compile_of_lowerSource compiled, expand_eq_ok_iff.2 expanded, ?_,
    compile_of_lowerSource compiled', ?_⟩
  · apply Library.labelsFree_of_unmarked
    decide +kernel
  · rintro ⟨P, Q, read, read', alike⟩
    rw [ofText_render] at read read'
    cases read
    cases read'
    exact not_equivalent_of_write alike

end

end Assembly

end Whitespace
