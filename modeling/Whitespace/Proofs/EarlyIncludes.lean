/-
Module: Whitespace.Proofs.EarlyIncludes
Purpose: What becomes of an expansion when a library was included before. The lines of the library are
  missing from the place where they stood, if they stood there at all, and nothing else changes.
Main exports: Expands.induct, Expands.append, Expands.exists_of_append, Expands.congr_context,
  Library.expands_include, Library.expands_include_requires, Library.exists_early
-/
import Whitespace.Proofs.LibraryBlocks

namespace Whitespace.Assembly

/-! ### Expansion by demands -/

section

variable {catalogue : Catalogue} {ctx ctx' : Context} {line : PendingLine} {rest : List PendingLine}
  {lines : List Line} {name : String}

theorem PendingLine.demand_of_plain {tokens : List Token} (read : tokenize line.text = .ok tokens)
    (plain : inclusion? tokens = none) : line.demand = .keep tokens := by
  simp only [demand, read, plain]

theorem PendingLine.demand_of_inclusion {tokens arguments : List Token}
    (read : tokenize line.text = .ok tokens) (asked : inclusion? tokens = some arguments)
    (target : includeTarget arguments = .ok name) : line.demand = .inclusion name := by
  simp only [demand, read, asked, target]

theorem PendingLine.kept_of_demand {tokens : List Token} (h : line.demand = .keep tokens) :
    line.kept = line.made tokens := by
  simp only [kept, h]

/-- A line that is kept stands in front of what the rest expands to. -/
theorem Expands.keep {tokens : List Token} (asked : line.demand = .keep tokens)
    (onward : Expands catalogue ctx rest ctx' lines) :
    Expands catalogue ctx (line :: rest) ctx' (line.kept ++ lines) := by
  rw [← expand_eq_ok_iff] at onward ⊢
  rw [expand_cons_demand, asked, onward, PendingLine.kept_of_demand asked]
  rfl

/-- A second include of a name brings nothing. -/
theorem Expands.skip (asked : line.demand = .inclusion name) (already : ctx.hasIncluded name = true)
    (onward : Expands catalogue ctx rest ctx' lines) :
    Expands catalogue ctx (line :: rest) ctx' lines := by
  rw [← expand_eq_ok_iff] at onward ⊢
  rw [expand_cons_demand, asked]
  simp only [already, if_true, onward]

/-- An include of a new source gives way to the lines of the source. -/
theorem Expands.enter {text : String} (asked : line.demand = .inclusion name)
    (new : ctx.hasIncluded name = false) (found : catalogue.find ctx.options name = .ok text)
    (onward : Expands catalogue (ctx.markIncluded name) (pendingLines name text ++ rest) ctx' lines) :
    Expands catalogue ctx (line :: rest) ctx' lines := by
  rw [← expand_eq_ok_iff, pendingLines_eq] at onward
  rw [← expand_eq_ok_iff, expand_cons_demand, asked]
  simp only [new, Bool.false_eq_true, if_false, found]
  exact onward

/-- Induction on what the lines ask for. -/
@[elab_as_elim]
theorem Expands.induct
    {motive : ∀ ctx pending ctx' lines, Expands catalogue ctx pending ctx' lines → Prop}
    (done : ∀ ctx, motive ctx [] ctx [] (.done ctx))
    (keep : ∀ {ctx ctx' line rest tokens lines} (asked : PendingLine.demand line = .keep tokens)
      (onward : Expands catalogue ctx rest ctx' lines), motive ctx rest ctx' lines onward →
      motive ctx (line :: rest) ctx' (line.kept ++ lines) (.keep asked onward))
    (skip : ∀ {ctx ctx' line rest name lines} (asked : PendingLine.demand line = .inclusion name)
      (already : ctx.hasIncluded name = true) (onward : Expands catalogue ctx rest ctx' lines),
      motive ctx rest ctx' lines onward →
      motive ctx (line :: rest) ctx' lines (.skip asked already onward))
    (enter : ∀ {ctx ctx' line rest name text lines} (asked : PendingLine.demand line = .inclusion name)
      (new : ctx.hasIncluded name = false) (found : catalogue.find ctx.options name = .ok text)
      (onward : Expands catalogue (ctx.markIncluded name) (pendingLines name text ++ rest) ctx' lines),
      motive (ctx.markIncluded name) (pendingLines name text ++ rest) ctx' lines onward →
      motive ctx (line :: rest) ctx' lines (.enter asked new found onward))
    {ctx : Context} {pending : List PendingLine} {ctx' : Context} {lines : List Line}
    (h : Expands catalogue ctx pending ctx' lines) : motive ctx pending ctx' lines h := by
  induction h with
  | done ctx => exact done ctx
  | @kept ctx ctx' line rest tokens lines read plain onward ih =>
      have asked := PendingLine.demand_of_plain read plain
      have whole := keep asked onward ih
      simp only [PendingLine.kept_of_demand asked] at whole
      exact whole
  | again read asked target already onward ih =>
      exact skip (PendingLine.demand_of_inclusion read asked target) already onward ih
  | fresh read asked target new found onward ih =>
      exact enter (PendingLine.demand_of_inclusion read asked target) new found onward ih

end

/-! ### Parts of an expansion -/

section

variable {catalogue : Catalogue} {ctx ctx₁ ctx₂ : Context} {pending first rest : List PendingLine}
  {lines lines' more : List Line}

/-- An expansion has one result. -/
theorem Expands.unique (h : Expands catalogue ctx pending ctx₁ lines)
    (h' : Expands catalogue ctx pending ctx₂ lines') : ctx₁ = ctx₂ ∧ lines = lines' := by
  rw [← expand_eq_ok_iff] at h h'
  rw [h] at h'
  cases h'
  exact ⟨rfl, rfl⟩

/-- Lines are expanded one part after another. -/
theorem Expands.append (h : Expands catalogue ctx first ctx₁ lines)
    (onward : Expands catalogue ctx₁ rest ctx₂ more) :
    Expands catalogue ctx (first ++ rest) ctx₂ (lines ++ more) := by
  induction h using Expands.induct with
  | done ctx => exact onward
  | keep asked _ ih =>
      rw [List.append_assoc]
      exact .keep asked (ih onward)
  | skip asked already _ ih => exact .skip asked already (ih onward)
  | enter asked new found _ ih =>
      have later := ih onward
      rw [List.append_assoc] at later
      exact .enter asked new found later

/-- An expansion of two parts consists of an expansion of each. -/
theorem Expands.exists_of_append (h : Expands catalogue ctx (first ++ rest) ctx₂ lines) :
    ∃ ctx₁ before after, Expands catalogue ctx first ctx₁ before ∧
      Expands catalogue ctx₁ rest ctx₂ after ∧ lines = before ++ after := by
  generalize whole : first ++ rest = pending at h
  -- The lines that an include brings belong to the first part, so that part varies in the induction.
  induction h using Expands.induct generalizing first with
  | done ctx =>
      obtain ⟨rfl, rfl⟩ := List.append_eq_nil_iff.1 whole
      exact ⟨ctx, [], [], .done ctx, .done ctx, rfl⟩
  | @keep ctx ctx₂ line others tokens lines asked onward ih =>
      rcases List.append_eq_cons_iff.1 whole with ⟨rfl, rfl⟩ | ⟨first', rfl, rfl⟩
      · exact ⟨ctx, [], _, .done ctx, .keep asked onward, rfl⟩
      · obtain ⟨ctx₁, before, after, left, right, rfl⟩ := ih rfl
        exact ⟨ctx₁, _, after, .keep asked left, right, (List.append_assoc _ _ _).symm⟩
  | @skip ctx ctx₂ line others name lines asked already onward ih =>
      rcases List.append_eq_cons_iff.1 whole with ⟨rfl, rfl⟩ | ⟨first', rfl, rfl⟩
      · exact ⟨ctx, [], _, .done ctx, .skip asked already onward, rfl⟩
      · obtain ⟨ctx₁, before, after, left, right, rfl⟩ := ih rfl
        exact ⟨ctx₁, before, after, .skip asked already left, right, rfl⟩
  | @enter ctx ctx₂ line others name text lines asked new found onward ih =>
      rcases List.append_eq_cons_iff.1 whole with ⟨rfl, rfl⟩ | ⟨first', rfl, rfl⟩
      · exact ⟨ctx, [], _, .done ctx, .enter asked new found onward, rfl⟩
      · obtain ⟨ctx₁, before, after, left, right, rfl⟩ := ih (List.append_assoc _ _ _)
        exact ⟨ctx₁, before, after, .enter asked new found left, right, rfl⟩

/-- The contexts have the same options and the same sources included. -/
structure Context.Alike (ctx ctx' : Context) : Prop where
  options : ctx'.options = ctx.options
  included : ∀ name, ctx'.hasIncluded name = true ↔ ctx.hasIncluded name = true

theorem Context.Alike.markIncluded {ctx' : Context} (h : ctx.Alike ctx') (name : String) :
    (ctx.markIncluded name).Alike (ctx'.markIncluded name) where
  options := h.options
  included other := by rw [hasIncluded_markIncluded, hasIncluded_markIncluded, h.included]

theorem Context.Alike.refl (ctx : Context) : ctx.Alike ctx := ⟨rfl, fun _ => Iff.rfl⟩

theorem Context.Alike.trans {ctx' ctx'' : Context} (h : ctx.Alike ctx') (h' : ctx'.Alike ctx'') :
    ctx.Alike ctx'' :=
  ⟨h'.options.trans h.options, fun name => (h'.included name).trans (h.included name)⟩

/-- The order in which names were included is not seen by any later line. -/
theorem Context.markIncluded_comm (ctx : Context) (name other : String) :
    ((ctx.markIncluded name).markIncluded other).Alike ((ctx.markIncluded other).markIncluded name) where
  options := rfl
  included source := by
    rw [hasIncluded_markIncluded, hasIncluded_markIncluded, hasIncluded_markIncluded, hasIncluded_markIncluded]
    exact or_left_comm

/-- In which order sources were included makes no difference. -/
theorem Expands.congr_context {ctx' : Context} (h : Expands catalogue ctx pending ctx₂ lines)
    (alike : ctx.Alike ctx') : ∃ ctx₂', Expands catalogue ctx' pending ctx₂' lines ∧ ctx₂.Alike ctx₂' := by
  induction h using Expands.induct generalizing ctx' with
  | done ctx => exact ⟨ctx', .done ctx', alike⟩
  | keep asked _ ih =>
      obtain ⟨ctx₂', onward, alike'⟩ := ih alike
      exact ⟨ctx₂', .keep asked onward, alike'⟩
  | @skip _ _ _ _ name _ asked already _ ih =>
      obtain ⟨ctx₂', onward, alike'⟩ := ih alike
      exact ⟨ctx₂', .skip asked ((alike.included name).2 already) onward, alike'⟩
  | @enter _ _ _ _ name text _ asked new found _ ih =>
      obtain ⟨ctx₂', onward, alike'⟩ := ih (alike.markIncluded name)
      have new' : ctx'.hasIncluded name = false := by
        rw [← Bool.not_eq_true, alike.included, new]
        exact Bool.false_ne_true
      rw [← alike.options] at found
      exact ⟨ctx₂', .enter asked new' found onward, alike'⟩

/-- Lines that ask for nothing but what was included already stay as they are. -/
theorem expands_kept (sound : ∀ line ∈ pending, line.flaw? (fun _ => .ok "") = none)
    (included : ∀ name ∈ includedNames pending, ctx.hasIncluded name = true) :
    Expands catalogue ctx pending ctx (pending.flatMap PendingLine.kept) := by
  induction pending with
  | nil => exact .done ctx
  | cons line rest ih =>
      rw [List.forall_mem_cons] at sound
      have later : ∀ name ∈ includedNames rest, ctx.hasIncluded name = true := fun name member =>
        included name (mem_includedNames_of_subset (List.subset_cons_self line rest) member)
      rw [List.flatMap_cons]
      cases asked : line.demand with
      | flaw cause => simp [PendingLine.flaw?, asked] at sound
      | keep tokens => exact .keep asked (ih sound.2 later)
      | inclusion name =>
          have nothing : line.kept = [] := by simp [PendingLine.kept, asked]
          have member : name ∈ includedNames (line :: rest) := by simp [includedNames, asked, Demand.name?]
          rw [nothing, List.nil_append]
          exact .skip asked (included name member) (ih sound.2 later)

theorem expands_plain (ctx : Context) (sound : ∀ line ∈ pending, line.flaw? (fun _ => .ok "") = none)
    (unasking : includedNames pending = []) (kept : pending.flatMap PendingLine.kept = lines) :
    Expands catalogue ctx pending ctx lines := by
  rw [← kept]
  apply expands_kept sound
  rw [unasking]
  exact List.forall_mem_nil _

end

/-! ### Lines of libraries -/

/-- The lines that say that they come from a library are lines of that library. -/
def Genuine (options : Options) (pending : List PendingLine) : Prop :=
  ∀ line ∈ pending, line.source ∈ Library.names → line ∈ Library.pending options line.source

namespace Library

section

variable {catalogue : Catalogue} {ctx ctx' : Context} {pending : List PendingLine} {lines : List Line}
  {line : PendingLine} {rest : List PendingLine} {name text : String}

/-- The text that the catalogue gives for a library has the lines that are worked out for it. -/
theorem pendingLines_of_find (known : name ∈ names) (found : catalogue.find ctx.options name = .ok text) :
    pendingLines name text = Library.pending ctx.options name := by
  obtain ⟨text', found', same⟩ := exists_find catalogue ctx.options known
  rw [found] at found'
  cases found'
  exact same

theorem source_of_mem_pendingLines (h : line ∈ pendingLines name text) : line.source = name := by
  obtain ⟨stamped, -, rfl⟩ := List.mem_map.1 h
  rfl

theorem genuine_of_source (options : Options) (other : ∀ line ∈ pending, line.source ∉ names) :
    Genuine options pending := fun line member known => absurd known (other line member)

/-- The lines of a source that was found may be put in front. -/
theorem genuine_append (genuine : Genuine ctx.options rest)
    (found : catalogue.find ctx.options name = .ok text) :
    Genuine ctx.options (pendingLines name text ++ rest) := by
  intro line member known
  rcases List.mem_append.1 member with new | old
  · have source := source_of_mem_pendingLines new
    rw [source] at known ⊢
    rwa [pendingLines_of_find known found] at new
  · exact genuine line old known

theorem genuine_of_cons {options : Options} (genuine : Genuine options (line :: rest)) :
    Genuine options rest := fun line member => genuine line (List.mem_cons_of_mem _ member)

/-- What an expansion gives that says that it comes from a library does come from there. -/
theorem mem_ownLines_of_expands (h : Expands catalogue ctx pending ctx' lines)
    (genuine : Genuine ctx.options pending) :
    ∀ l ∈ lines, l.source ∈ names → l ∈ ownLines ctx.options l.source := by
  induction h using Expands.induct with
  | done ctx => simp
  | @keep ctx ctx' line rest tokens lines asked _ ih =>
      intro l member known
      rcases List.mem_append.1 member with here | later
      · have source := (PendingLine.place_of_mem_kept here).1
        rw [source] at known ⊢
        exact List.mem_flatMap.2 ⟨line, genuine line List.mem_cons_self known, here⟩
      · exact ih (genuine_of_cons genuine) l later known
  | skip _ _ _ ih => exact ih (genuine_of_cons genuine)
  | enter asked new found _ ih => exact ih (genuine_append (genuine_of_cons genuine) found)

/-- An expansion gives no line of a source that is not included, or was included before. -/
theorem source_ne_of_expands (h : Expands catalogue ctx pending ctx' lines)
    (other : ∀ line ∈ pending, line.source ≠ name)
    (unasked : ctx.hasIncluded name = true ∨ ctx'.hasIncluded name = false) :
    ∀ l ∈ lines, l.source ≠ name := by
  induction h using Expands.induct with
  | done ctx => simp
  | keep _ _ ih =>
      rw [List.forall_mem_cons] at other
      rw [List.forall_mem_append]
      refine ⟨fun l here => ?_, ih other.2 unasked⟩
      rw [(PendingLine.place_of_mem_kept here).1]
      exact other.1
  | skip _ _ _ ih => exact ih (List.forall_mem_cons.1 other).2 unasked
  | @enter ctx ctx' line rest name' text lines asked new found onward ih =>
      have different : name' ≠ name := by
        rintro rfl
        have included := onward.hasIncluded_mono (Context.hasIncluded_markIncluded.2 (.inl rfl))
        rcases unasked with early | never
        · rw [new] at early
          cases early
        · rw [included] at never
          cases never
      apply ih
      · rw [List.forall_mem_append]
        refine ⟨fun line here => ?_, (List.forall_mem_cons.1 other).2⟩
        rw [source_of_mem_pendingLines here]
        exact different
      · exact unasked.imp_left fun early => Context.hasIncluded_markIncluded.2 (.inr early)

end

/-! ### Includes of libraries -/

section

variable {catalogue : Catalogue} {ctx ctx' : Context} {rest : List PendingLine} {line : PendingLine}
  {lines : List Line} {name other : String}

/-- The libraries that the library includes were included before. -/
def Ready (ctx : Context) (name : String) : Prop := ∀ other ∈ requires name, ctx.hasIncluded other = true

theorem Ready.markIncluded (ready : Ready ctx name) (other : String) : Ready (ctx.markIncluded other) name :=
  fun needed member => Context.hasIncluded_markIncluded.2 (.inr (ready needed member))

/-- The lines of a library expand to its own lines, and include nothing on the way. -/
theorem expands_pending (known : name ∈ names) (ready : Ready ctx name) :
    Expands catalogue ctx (pending ctx.options name) ctx (ownLines ctx.options name) := by
  have fits := fits ctx.options known
  apply expands_kept fits.flawless
  rw [fits.includes]
  exact ready

/-- An include of a library brings its own lines when what it includes is there. -/
theorem expands_include (known : name ∈ names) (asked : line.demand = .inclusion name)
    (new : ctx.hasIncluded name = false) (ready : Ready ctx name) :
    Expands catalogue ctx [line] (ctx.markIncluded name) (ownLines ctx.options name) := by
  obtain ⟨text, found, cut⟩ := exists_find catalogue ctx.options known
  refine .enter asked new found ?_
  rw [cut, List.append_nil]
  exact expands_pending known (ready.markIncluded name)

/-- A library that includes another one does so before its own lines. -/
theorem exists_opening (options : Options) (known : name ∈ names) (needs : requires name = [other]) :
    ∃ before inclusion after, pending options name = before ++ inclusion :: after ∧
      inclusion.demand = .inclusion other ∧ includedNames before = [] ∧ includedNames after = [] ∧
      before.flatMap PendingLine.kept = [] ∧ ownLines options name = after.flatMap PendingLine.kept := by
  have fits := fits options known
  have includes := fits.includes
  rw [needs] at includes
  obtain ⟨before, inclusion, after, parts, silent, named, last⟩ := List.filterMap_eq_cons_iff.1 includes
  have asked : inclusion.demand = .inclusion other := by
    cases demanded : inclusion.demand <;> simp_all [Demand.name?]
  have opening : (pending options name).takeWhile (·.demand.name?.isNone) = before := by
    rw [parts, List.takeWhile_append_of_pos fun line member => by simp [silent line member],
      List.takeWhile_cons_of_neg (by simp [named]), List.append_nil]
  have opens := fits.opens (by rw [needs]; exact List.cons_ne_nil _ _)
  rw [opening] at opens
  have nothing : inclusion.kept = [] := by simp [PendingLine.kept, asked]
  refine ⟨before, inclusion, after, parts, asked, List.filterMap_eq_nil_iff.2 silent, last, opens, ?_⟩
  rw [ownLines, parts, List.flatMap_append, List.flatMap_cons, opens, nothing, List.nil_append,
    List.nil_append]

/-- An include of a library brings first the lines of a library that it includes and that was not there
    before. -/
theorem expands_include_requires (known : name ∈ names) (asked : line.demand = .inclusion name)
    (new : ctx.hasIncluded name = false) (needs : requires name = [other]) (known' : other ∈ names)
    (new' : ctx.hasIncluded other = false) (ready : requires other = []) :
    Expands catalogue ctx [line] ((ctx.markIncluded name).markIncluded other)
      (ownLines ctx.options other ++ ownLines ctx.options name) := by
  obtain ⟨text, found, cut⟩ := exists_find catalogue ctx.options known
  obtain ⟨before, inclusion, after, parts, asked', early, late, silent, own⟩ :=
    exists_opening ctx.options known needs
  have flawless := (fits ctx.options known).flawless
  rw [parts, List.forall_mem_append, List.forall_mem_cons] at flawless
  have different : other ≠ name := by
    rintro rfl
    rw [ready] at needs
    cases needs
  have first : Expands catalogue (ctx.markIncluded name) before (ctx.markIncluded name) [] :=
    expands_plain _ flawless.1 early silent
  have middle : Expands catalogue (ctx.markIncluded name) [inclusion]
      ((ctx.markIncluded name).markIncluded other) (ownLines ctx.options other) := by
    apply expands_include known' asked' (Context.not_hasIncluded_markIncluded.2 ⟨different, new'⟩)
    unfold Ready
    rw [ready]
    exact List.forall_mem_nil _
  have final : Expands catalogue ((ctx.markIncluded name).markIncluded other) after
      ((ctx.markIncluded name).markIncluded other) (ownLines ctx.options name) :=
    expands_plain _ flawless.2.2 late own.symm
  refine .enter asked new found ?_
  rw [cut, List.append_nil, parts]
  exact first.append (middle.append final)

end

/-! ### Earlier includes -/

section

variable {catalogue : Catalogue} {ctx ctx₁ ctx' : Context} {pending : List PendingLine}
  {lines : List Line} {name : String}

/-- When a library was included before, an expansion lacks its lines, and nothing else. -/
theorem exists_early (h : Expands catalogue ctx pending ctx' lines) (known : name ∈ names)
    (new : ctx.hasIncluded name = false) (ready : Ready ctx name)
    (alike : (ctx.markIncluded name).Alike ctx₁) :
    ∃ ctx₁' core at?, Expands catalogue ctx₁ pending ctx₁' core ∧ (∀ c, at? = some c → c ≤ core.length) ∧
      lines = arrange at? (ownLines ctx.options name) core := by
  induction h using Expands.induct generalizing ctx₁ with
  | done ctx => exact ⟨ctx₁, [], none, .done ctx₁, by simp, rfl⟩
  | @keep ctx ctx' line rest tokens lines asked _ ih =>
      obtain ⟨ctx₁', core, at?, onward, inside, rfl⟩ := ih new ready alike
      obtain ⟨at₁?, inside', parts⟩ :=
        exists_append_arrange line.kept (ownLines ctx.options name) inside
      exact ⟨ctx₁', line.kept ++ core, at₁?, .keep asked onward, inside', parts⟩
  | @skip ctx ctx' line rest asked_name lines asked already _ ih =>
      obtain ⟨ctx₁', core, at?, onward, inside, parts⟩ := ih new ready alike
      have already' : ctx₁.hasIncluded asked_name = true :=
        (alike.included asked_name).2 (Context.hasIncluded_markIncluded.2 (.inr already))
      exact ⟨ctx₁', core, at?, .skip asked already' onward, inside, parts⟩
  | @enter ctx ctx' line rest other text lines asked new' found onward ih =>
      by_cases same : other = name
      · subst same
        rw [pendingLines_of_find known found] at onward
        obtain ⟨ctx₂, own, after, left, right, rfl⟩ := onward.exists_of_append
        obtain ⟨rfl, rfl⟩ := left.unique (expands_pending known (ready.markIncluded other))
        obtain ⟨ctx₁', right', -⟩ := right.congr_context alike
        have already : ctx₁.hasIncluded other = true :=
          (alike.included other).2 (Context.hasIncluded_markIncluded.2 (.inl rfl))
        exact ⟨ctx₁', after, some 0, .skip asked already right', by simp, rfl⟩
      · have new₁ : (ctx.markIncluded other).hasIncluded name = false :=
          Context.not_hasIncluded_markIncluded.2 ⟨Ne.symm same, new⟩
        have swapped := (ctx.markIncluded_comm other name).trans (alike.markIncluded other)
        obtain ⟨ctx₁', core, at?, onward', inside, parts⟩ := ih new₁ (ready.markIncluded other) swapped
        have new₂ : ctx₁.hasIncluded other = false := by
          rw [← Bool.not_eq_true, alike.included, Bool.not_eq_true, Context.not_hasIncluded_markIncluded]
          exact ⟨same, new'⟩
        have found' : catalogue.find ctx₁.options other = .ok text := by rwa [alike.options]
        exact ⟨ctx₁', core, at?, .enter asked new₂ found' onward', inside, parts⟩

end

end Library

end Whitespace.Assembly
