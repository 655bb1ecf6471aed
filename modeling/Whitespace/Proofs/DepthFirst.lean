/-
Module: Whitespace.Proofs.DepthFirst
Purpose: Following includes is a depth-first walk. The walk is described without the list of pending
  lines that the expansion keeps: it visits a line, then the lines of the source that the line is the
  first to include, then the lines after it. Every text has exactly one walk, whatever its sources
  include, and the walk tells what the expansion gives: what its lines keep, or its first flaw.
Main exports: PendingLine.demand, DepthFirst, DepthFirst.unique, exists_depthFirst, outcome,
  DepthFirst.expand_append, outcome_of_depthFirst, expandSource_ofTexts
-/
import Whitespace.Proofs.SilentExpansion

namespace Whitespace.Assembly

/-! ### What a line asks for -/

/-- What a line asks of an expansion. -/
inductive Demand where
  /-- The line makes no sense, whatever sources there are. -/
  | flaw (cause : CompileCause)
  /-- The line is part of the expansion with its tokens. -/
  | keep (tokens : List Token)
  /-- The line stands for the lines of a source. -/
  | inclusion (name : String)

def Demand.name? : Demand → Option String
  | .inclusion name => some name
  | _ => none

abbrev Lookup := String → Except ResolveError String

namespace PendingLine

/-- What a line asks for does not depend on other lines. -/
def demand (line : PendingLine) : Demand :=
  match tokenize line.text with
  | .error e => .flaw (.lex e)
  | .ok tokens =>
    match inclusion? tokens with
    | none => .keep tokens
    | some arguments =>
      match includeTarget arguments with
      | .error cause => .flaw cause
      | .ok name => .inclusion name

/-- What is wrong with a line, at the place of the line. -/
def flaw? (find : Lookup) (line : PendingLine) : Option CompileError :=
  match line.demand with
  | .flaw cause => some ⟨line.source, line.number, cause⟩
  | .keep _ => none
  | .inclusion name =>
    match find name with
    | .error e => some ⟨line.source, line.number, .inclusion name (.unresolved e)⟩
    | .ok _ => none

/-- What stays of a line itself: an include and a line without tokens leave nothing. -/
def kept (line : PendingLine) : List Line :=
  match line.demand with
  | .keep tokens => line.made tokens
  | _ => []

end PendingLine

def sourceLines (source text : String) : List PendingLine :=
  (Text.lines text).mapIdx fun i line => ⟨source, i + 1, line⟩

def includedNames (lines : List PendingLine) : List String :=
  lines.filterMap fun line => line.demand.name?

/-- The lines that stand behind a line when others were visited before: those of the source it includes,
    if it is the first to include that source. -/
def PendingLine.brings (find : Lookup) (before : List PendingLine) (line : PendingLine) :
    List PendingLine :=
  match line.demand with
  | .inclusion name =>
    if name ∈ includedNames before then []
    else
      match find name with
      | .ok text => sourceLines name text
      | .error _ => []
  | _ => []

/-! ### The walk -/

/-- The lines that a depth-first walk over a block of lines visits, in order, when others were visited
    before. -/
inductive DepthFirst (find : Lookup) :
    List PendingLine → List PendingLine → List PendingLine → Prop where
  | done (before : List PendingLine) : DepthFirst find before [] []
  | visit {before rest inner outer : List PendingLine} {line : PendingLine} :
      DepthFirst find (before ++ [line]) (line.brings find before) inner →
      DepthFirst find (before ++ line :: inner) rest outer →
      DepthFirst find before (line :: rest) (line :: inner ++ outer)

/-- What comes of the visited lines: the first flaw among them, or what all of them keep. -/
def outcome (find : Lookup) (visited : List PendingLine) : Except CompileError (List Line) :=
  match visited.findSome? (PendingLine.flaw? find) with
  | some e => .error e
  | none => .ok (visited.flatMap PendingLine.kept)

theorem pendingLines_eq (source text : String) : pendingLines source text = sourceLines source text := by
  unfold pendingLines Text.stampedLines sourceLines
  rw [List.map_map, List.mapIdx_eq_zipIdx_map]
  rfl

section

variable {find : Lookup} {before block visited : List PendingLine} {line : PendingLine}

/-- What a line leaves has its place. -/
theorem PendingLine.place_of_mem_kept {l : Line} (h : l ∈ line.kept) :
    l.source = line.source ∧ l.number = line.number := by
  unfold kept made at h
  split at h
  · split at h
    · cases h
    · rw [List.mem_singleton.1 h]
      exact ⟨rfl, rfl⟩
  · cases h

theorem mem_includedNames_concat {name : String} :
    name ∈ includedNames (before ++ [line]) ↔
      name ∈ includedNames before ∨ line.demand.name? = some name := by
  simp [includedNames]

theorem mem_includedNames_of_subset {other : List PendingLine} (h : before ⊆ other) {name : String}
    (included : name ∈ includedNames before) : name ∈ includedNames other := by
  obtain ⟨earlier, visited, asked⟩ := List.mem_filterMap.1 included
  exact List.mem_filterMap.2 ⟨earlier, h visited, asked⟩

/-- A line that brings something is the first to include a source that there is. -/
theorem exists_of_brings (h : line.brings find before ≠ []) :
    ∃ name text, line.demand = .inclusion name ∧ name ∉ includedNames before ∧ find name = .ok text := by
  unfold PendingLine.brings at h
  split at h
  · next name asked =>
      split at h
      · exact absurd rfl h
      · next new =>
          split at h
          · next text found => exact ⟨name, text, asked, new, found⟩
          · exact absurd rfl h
  · exact absurd rfl h

theorem DepthFirst.node {rest inner outer : List PendingLine} (brings : line.brings find before = block)
    (walk : DepthFirst find (before ++ [line]) block inner)
    (onward : DepthFirst find (before ++ line :: inner) rest outer) :
    DepthFirst find before (line :: rest) (line :: inner ++ outer) :=
  .visit (by rwa [brings]) onward

theorem DepthFirst.leaf {rest outer : List PendingLine} (brings : line.brings find before = [])
    (onward : DepthFirst find (before ++ [line]) rest outer) :
    DepthFirst find before (line :: rest) (line :: outer) :=
  .node brings (.done _) onward

/-- A block has at most one walk. -/
theorem DepthFirst.unique {other : List PendingLine} (h : DepthFirst find before block visited)
    (h' : DepthFirst find before block other) : other = visited := by
  induction h generalizing other with
  | done before =>
      cases h'
      rfl
  | visit _ _ ihInner ihOuter =>
      cases h' with
      | visit inner outer =>
          obtain rfl := ihInner inner
          rw [ihOuter outer]

end

/-! ### Walks end -/

section

variable {catalogue : Catalogue} {options : Options}

theorem length_untouched_le {included more : List String} (h : included ⊆ more) :
    (untouched catalogue more).length ≤ (untouched catalogue included).length := by
  refine (List.monotone_filter_right catalogue.includable fun name new => ?_).length_le
  simp only [Bool.not_eq_true', List.contains_eq_mem, decide_eq_false_iff_not] at new ⊢
  exact fun included => new (h included)

/-- A line that brings something leaves fewer names untouched. -/
theorem length_untouched_brings {before : List PendingLine} {line : PendingLine}
    (h : line.brings (catalogue.find options) before ≠ []) :
    (untouched catalogue (includedNames (before ++ [line]))).length <
      (untouched catalogue (includedNames before)).length := by
  obtain ⟨name, text, asked, new, found⟩ := exists_of_brings h
  have touched : name :: includedNames before ⊆ includedNames (before ++ [line]) := by
    intro other other_mem
    rw [mem_includedNames_concat]
    rcases List.mem_cons.1 other_mem with rfl | earlier
    · exact .inr (by rw [asked]; rfl)
    · exact .inl earlier
  calc (untouched catalogue (includedNames (before ++ [line]))).length
      ≤ (untouched catalogue (name :: includedNames before)).length := length_untouched_le touched
    _ < (untouched catalogue (includedNames before)).length :=
      length_untouched_lt (by simpa using new) found

/-- Every block has a walk, even when its sources include each other: each line that brings something
    takes one of the finitely many names that an include can succeed with. -/
theorem exists_depthFirst (catalogue : Catalogue) (options : Options)
    (before block : List PendingLine) :
    ∃ visited, DepthFirst (catalogue.find options) before block visited := by
  match block with
  | [] => exact ⟨[], .done before⟩
  | line :: rest =>
      have walk : ∃ inner, DepthFirst (catalogue.find options) (before ++ [line])
          (line.brings (catalogue.find options) before) inner := by
        by_cases leaf : line.brings (catalogue.find options) before = []
        · rw [leaf]
          exact ⟨[], .done _⟩
        -- The block may grow here; it is the names that become fewer.
        · have := length_untouched_brings leaf
          exact exists_depthFirst catalogue options (before ++ [line]) _
      obtain ⟨inner, walked⟩ := walk
      have fewer : (untouched catalogue (includedNames (before ++ line :: inner))).length ≤
          (untouched catalogue (includedNames before)).length :=
        length_untouched_le fun name => mem_includedNames_of_subset (List.subset_append_left before _)
      obtain ⟨outer, walked'⟩ := exists_depthFirst catalogue options (before ++ line :: inner) rest
      exact ⟨_, .visit walked walked'⟩
termination_by ((untouched catalogue (includedNames before)).length, block.length)
decreasing_by
  · exact Prod.Lex.left _ _ this
  · rcases Nat.lt_or_eq_of_le fewer with less | same
    · exact Prod.Lex.left _ _ less
    · rw [same]
      exact Prod.Lex.right _ (Nat.lt_succ_self rest.length)

end

/-! ### The expansion follows the walk -/

/-- What an expansion gives, with lines put in front. -/
def following (lines : List Line) (result : Context × List Line) : Context × List Line :=
  (result.1, lines ++ result.2)

/-- The context knows which sources the visited lines include, and none of these lines has a flaw. -/
structure Tracks (catalogue : Catalogue) (options : Options) (ctx : Context)
    (visited : List PendingLine) : Prop where
  options_eq : ctx.options = options
  names : ∀ name, ctx.hasIncluded name = true ↔ name ∈ includedNames visited
  sound : ∀ line ∈ visited, line.flaw? (catalogue.find options) = none

section

variable {catalogue : Catalogue} {options : Options} {ctx : Context}
  {before block visited : List PendingLine} {line : PendingLine}

theorem map_following_nil (r : Except CompileError (Context × List Line)) :
    r.map (following []) = r := by
  cases r <;> rfl

theorem map_following (first second : List Line) (r : Except CompileError (Context × List Line)) :
    (r.map (following second)).map (following first) = r.map (following (first ++ second)) := by
  cases r with
  | error e => rfl
  | ok result => simp [Except.map, following]

/-- An expansion does what its first line asks for. -/
theorem expand_cons_demand (catalogue : Catalogue) (ctx : Context) (line : PendingLine)
    (rest : List PendingLine) :
    expand catalogue ctx (line :: rest) =
      match line.demand with
      | .flaw cause => .error ⟨line.source, line.number, cause⟩
      | .keep tokens => (expand catalogue ctx rest).map (following (line.made tokens))
      | .inclusion name =>
        if ctx.hasIncluded name then expand catalogue ctx rest
        else
          match catalogue.find ctx.options name with
          | .error e => .error ⟨line.source, line.number, .inclusion name (.unresolved e)⟩
          | .ok text =>
            expand catalogue (ctx.markIncluded name)
              (sourceLines name text ++ rest) := by
  simp only [expand_cons, pendingLines_eq, PendingLine.demand]
  cases tokenize line.text with
  | error e => rfl
  | ok tokens =>
      simp only
      cases inclusion? tokens with
      | none => rfl
      | some arguments =>
          simp only
          cases includeTarget arguments with
          | error cause => rfl
          | ok name => rfl

/-- An included source of a walk without flaws can be had. -/
theorem Tracks.exists_text (tracks : Tracks catalogue options ctx before) {name : String}
    (h : name ∈ includedNames before) : ∃ text, catalogue.find options name = .ok text := by
  obtain ⟨earlier, visited, asked⟩ := List.mem_filterMap.1 h
  have sound := tracks.sound earlier visited
  unfold PendingLine.flaw? at sound
  cases demanded : earlier.demand with
  | flaw cause => simp [demanded, Demand.name?] at asked
  | keep tokens => simp [demanded, Demand.name?] at asked
  | inclusion other =>
      obtain rfl : other = name := by simpa [demanded, Demand.name?] using asked
      cases found : catalogue.find options other with
      | error e => simp [demanded, found] at sound
      | ok text => exact ⟨text, rfl⟩

/-- A line with a flaw ends the expansion. -/
theorem Tracks.expand_flawed (tracks : Tracks catalogue options ctx before) {e : CompileError}
    (flawed : line.flaw? (catalogue.find options) = some e) (rest : List PendingLine) :
    expand catalogue ctx (line :: rest) = .error e := by
  rw [expand_cons_demand, tracks.options_eq]
  unfold PendingLine.flaw? at flawed
  cases demanded : line.demand with
  | flaw cause => simpa [demanded] using flawed
  | keep tokens => simp [demanded] at flawed
  | inclusion name =>
      cases found : catalogue.find options name with
      | ok text => simp [demanded, found] at flawed
      | error cause =>
          -- A source that was included before can be had.
          have new : ctx.hasIncluded name = false := by
            rw [← Bool.not_eq_true, tracks.names]
            intro included
            obtain ⟨text, found'⟩ := tracks.exists_text included
            rw [found] at found'
            cases found'
          simpa [demanded, found, new] using flawed

/-- The context keeps track of a walk when it notes what the next line includes. -/
theorem Tracks.concat (tracks : Tracks catalogue options ctx before)
    (sound : line.flaw? (catalogue.find options) = none) {ctx' : Context}
    (same : ctx'.options = ctx.options)
    (names : ∀ name, ctx'.hasIncluded name = true ↔
      ctx.hasIncluded name = true ∨ line.demand.name? = some name) :
    Tracks catalogue options ctx' (before ++ [line]) where
  options_eq := same.trans tracks.options_eq
  names name := by rw [names, tracks.names, mem_includedNames_concat]
  sound := by
    rw [List.forall_mem_append]
    exact ⟨tracks.sound, by simpa using sound⟩

/-- A line without a flaw is kept or gives way to the lines that it brings. -/
theorem Tracks.expand_sound (tracks : Tracks catalogue options ctx before)
    (sound : line.flaw? (catalogue.find options) = none) :
    ∃ ctx', Tracks catalogue options ctx' (before ++ [line]) ∧ ∀ rest,
      expand catalogue ctx (line :: rest) =
        (expand catalogue ctx' (line.brings (catalogue.find options) before ++ rest)).map
          (following line.kept) := by
  cases demanded : line.demand with
  | flaw cause => simp [PendingLine.flaw?, demanded] at sound
  | keep tokens =>
      refine ⟨ctx, tracks.concat sound rfl fun name => by simp [demanded, Demand.name?], ?_⟩
      intro rest
      simp [expand_cons_demand, PendingLine.brings, PendingLine.kept, demanded]
  | inclusion name =>
      have nothing : line.kept = [] := by simp [PendingLine.kept, demanded]
      simp only [nothing, map_following_nil]
      have named : line.demand.name? = some name := by
        rw [demanded]
        rfl
      by_cases included : ctx.hasIncluded name = true
      · have again : name ∈ includedNames before := (tracks.names name).1 included
        refine ⟨ctx, tracks.concat sound rfl fun other => (or_iff_left_of_imp fun same => ?_).symm, ?_⟩
        · rw [named, Option.some.injEq] at same
          exact same ▸ included
        · intro rest
          simp [expand_cons_demand, PendingLine.brings, demanded, included, again]
      · have new : name ∉ includedNames before := mt (tracks.names name).2 included
        cases found : catalogue.find options name with
        | error e => simp [PendingLine.flaw?, demanded, found] at sound
        | ok text =>
            refine ⟨ctx.markIncluded name, tracks.concat sound rfl ?_, ?_⟩
            · intro other
              rw [named, Option.some.injEq, Context.hasIncluded_markIncluded, or_comm, @eq_comm _ other]
            · intro rest
              simp [expand_cons_demand, PendingLine.brings, demanded, included, new, tracks.options_eq,
                found]

/-- An expansion of a block follows the walk over it up to the first flaw, and without a flaw it goes on
    with what comes after the block. -/
theorem DepthFirst.expand_append (walk : DepthFirst (catalogue.find options) before block visited)
    (tracks : Tracks catalogue options ctx before) :
    (∃ e, visited.findSome? (PendingLine.flaw? (catalogue.find options)) = some e ∧
      ∀ rest, expand catalogue ctx (block ++ rest) = .error e) ∨
    ∃ ctx', Tracks catalogue options ctx' (before ++ visited) ∧ ∀ rest,
      expand catalogue ctx (block ++ rest) =
        (expand catalogue ctx' rest).map (following (visited.flatMap PendingLine.kept)) := by
  -- The walk over what a line brings leaves the context in which the walk over the rest begins; the lines
  -- after the block are arbitrary, so that the rest of a block can stand there for what its line brings.
  induction walk generalizing ctx with
  | done before =>
      refine .inr ⟨ctx, by rwa [List.append_nil], ?_⟩
      intro rest
      exact (map_following_nil _).symm
  | @visit before later inner outer line _ _ ihInner ihOuter =>
      cases flawed : line.flaw? (catalogue.find options) with
      | some e =>
          refine .inl ⟨e, by simp [flawed], ?_⟩
          intro rest
          exact tracks.expand_flawed flawed (later ++ rest)
      | none =>
          obtain ⟨ctx₁, tracks₁, first⟩ := tracks.expand_sound flawed
          rcases ihInner tracks₁ with ⟨e, found, fails⟩ | ⟨ctx₂, tracks₂, second⟩
          · refine .inl ⟨e, by simp [flawed, found], ?_⟩
            intro rest
            rw [List.cons_append, first, fails]
            rfl
          · have clean : inner.findSome? (PendingLine.flaw? (catalogue.find options)) = none :=
              List.findSome?_eq_none_iff.2 fun l hl => tracks₂.sound l (List.mem_append_right _ hl)
            rw [List.append_assoc] at tracks₂
            rcases ihOuter tracks₂ with ⟨e, found, fails⟩ | ⟨ctx₃, tracks₃, third⟩
            · refine .inl ⟨e, by simp [flawed, clean, found], ?_⟩
              intro rest
              rw [List.cons_append, first, second, fails]
              rfl
            · refine .inr ⟨ctx₃, by simpa using tracks₃, ?_⟩
              intro rest
              rw [List.cons_append, first, second, third, map_following, map_following]
              simp

/-- The lines of a source are what comes of the walk over it. -/
theorem outcome_of_depthFirst {source text : String}
    (walk : DepthFirst (catalogue.find options) [] (sourceLines source text) visited) :
    (expandSource catalogue { options } source text).map Prod.snd =
      outcome (catalogue.find options) visited := by
  have start : Tracks catalogue options { options } [] := ⟨rfl, by simp [Context.hasIncluded, includedNames], nofun⟩
  rw [expandSource, pendingLines_eq, ← List.append_nil (sourceLines source text), outcome]
  rcases walk.expand_append start with ⟨e, found, fails⟩ | ⟨ctx', tracks, gives⟩
  · rw [found, fails]
    rfl
  · have clean : visited.findSome? (PendingLine.flaw? (catalogue.find options)) = none :=
      List.findSome?_eq_none_iff.2 tracks.sound
    rw [clean, gives, expand]
    simp [Except.map, following]

end

/-! ### Texts in memory -/

/-- The text of a source: that of the library of the name if there is one, else the text given for the
    name. -/
def lookupText (options : Options) (texts : List (String × String)) : Lookup := fun name =>
  match (Library.source? name options.extensions).or (texts.lookup name) with
  | some text => .ok text
  | none => .error (.notFound name)

/-- A catalogue of texts finds the built-in libraries first and then the texts by their names. -/
theorem find_ofTexts (options : Options) (texts : List (String × String)) :
    (Catalogue.ofTexts texts).find options = lookupText options texts := by
  funext name
  have entry : (Catalogue.ofTexts texts).entries.lookup name = (texts.lookup name).map .ok := by
    unfold Catalogue.ofTexts
    induction texts with
    | nil => rfl
    | cons first texts ih =>
        obtain ⟨key, text⟩ := first
        simp only [List.map_cons, List.lookup_cons]
        cases name == key
        · exact ih
        · rfl
  unfold Catalogue.find Catalogue.resolve lookupText
  rw [entry]
  cases Library.source? name options.extensions with
  | some text => rfl
  | none => cases texts.lookup name <;> rfl

/-- Whatever texts in memory include, a source has exactly one depth-first walk, and expanding the source
    gives what comes of that walk. -/
theorem expandSource_ofTexts (options : Options) (texts : List (String × String))
    (source text : String) :
    ∃ visited, DepthFirst (lookupText options texts) [] (sourceLines source text) visited ∧
      (∀ other, DepthFirst (lookupText options texts) [] (sourceLines source text) other →
        other = visited) ∧
      (expandSource (.ofTexts texts) { options } source text).map Prod.snd =
        outcome (lookupText options texts) visited := by
  obtain ⟨visited, walk⟩ := exists_depthFirst (.ofTexts texts) options [] (sourceLines source text)
  have result := outcome_of_depthFirst walk
  rw [find_ofTexts] at walk result
  exact ⟨visited, walk, fun other => walk.unique, result⟩

/-- Two sources that include each other and, one of them, itself. -/
theorem expandSource_ofTexts_cycle :
    (expandSource (.ofTexts [("a", "include b\nsub"), ("b", "include a\nmul\ninclude b")]) {} "main"
        "include a\nadd").map Prod.snd =
      .ok [⟨"b", 2, [.word "mul"]⟩, ⟨"a", 2, [.word "sub"]⟩, ⟨"main", 2, [.word "add"]⟩] := by
  let texts := [("a", "include b\nsub"), ("b", "include a\nmul\ninclude b")]
  let main₁ : PendingLine := ⟨"main", 1, "include a".toList⟩
  let main₂ : PendingLine := ⟨"main", 2, "add".toList⟩
  let a₁ : PendingLine := ⟨"a", 1, "include b".toList⟩
  let a₂ : PendingLine := ⟨"a", 2, "sub".toList⟩
  let b₁ : PendingLine := ⟨"b", 1, "include a".toList⟩
  let b₂ : PendingLine := ⟨"b", 2, "mul".toList⟩
  let b₃ : PendingLine := ⟨"b", 3, "include b".toList⟩
  let find := lookupText {} texts
  have cut : sourceLines "main" "include a\nadd" = [main₁, main₂] := by decide +kernel
  have main_brings : main₁.brings find [] = [a₁, a₂] := by decide +kernel
  have a_brings : a₁.brings find [main₁] = [b₁, b₂, b₃] := by decide +kernel
  have walk_b : DepthFirst find [main₁, a₁] [b₁, b₂, b₃] [b₁, b₂, b₃] :=
    .leaf (by decide +kernel) (.leaf (by decide +kernel) (.leaf (by decide +kernel) (.done _)))
  have after_b : DepthFirst find [main₁, a₁, b₁, b₂, b₃] [a₂] [a₂] :=
    .leaf (by decide +kernel) (.done _)
  have after_a : DepthFirst find [main₁, a₁, b₁, b₂, b₃, a₂] [main₂] [main₂] :=
    .leaf (by decide +kernel) (.done _)
  have walk : DepthFirst find [] (sourceLines "main" "include a\nadd")
      [main₁, a₁, b₁, b₂, b₃, a₂, main₂] := by
    rw [cut]
    exact .node main_brings (.node a_brings walk_b after_b) after_a
  obtain ⟨visited, -, only, result⟩ := expandSource_ofTexts {} texts "main" "include a\nadd"
  rw [result, ← only _ walk]
  decide +kernel

end Whitespace.Assembly
