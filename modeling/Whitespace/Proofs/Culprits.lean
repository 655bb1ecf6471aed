/-
Module: Whitespace.Proofs.Culprits
Purpose: Where a failed compilation points. The place that it reports is a line of a source that was
  loaded: of the main text, or of a text that a line before the failure includes. When a label is said to
  be undefined, no line of any loaded source defines it, and the line reported is the first that control
  reaches and that refers to such a label.
Main exports: soundLines, Loaded, DepthFirst.loaded_of_split, DepthFirst.sourceLines_subset,
  undefinedUse?_readStatements, Culprit, compile_error_culprit
-/
import Whitespace.Proofs.DepthFirst
import Whitespace.Proofs.InvisibleLines

namespace Whitespace

/-! ### The spelling of an include -/

/-- Only an ASCII letter becomes an ASCII character in lower case. -/
theorem Text.toNat_lt_of_toLower {c : Char} (h : c.toLower.toNat < 0x80) : c.toNat < 0x80 := by
  unfold Char.toLower at h
  split at h
  · next upper =>
      have bound : c.val ≤ 90 := upper.2
      have bound' : c.val.toNat ≤ 90 := UInt32.le_iff_toNat_le.1 bound
      show c.val.toNat < 128
      omega
  · exact h

/-- A text whose lower case is ASCII is lowered character by character, whatever stands before it. -/
theorem Text.lowerAfter_of_ascii {before chars : List Char} (h : ∀ c ∈ chars, c.toLower.toNat < 0x80) :
    Text.lowerAfter before chars = chars.map Char.toLower := by
  induction chars generalizing before with
  | nil => rfl
  | cons c rest ih =>
      rw [List.forall_mem_cons] at h
      have small := Text.toNat_lt_of_toLower h.1
      have other : c ≠ 'Σ' := by
        rintro rfl
        exact absurd small (by decide)
      rw [Text.lowerAfter, if_neg other, ih h.2, Text.lowerChar, if_pos small]
      rfl

/-- An include is spelled like any opcode. -/
theorem Assembly.lowerText_of_isInclude {word : String} (h : Assembly.isInclude word = true) :
    Text.lowerText word = "include" := by
  have spelled : word.toList.map Char.toLower = "include".toList := of_decide_eq_true h
  have ascii : ∀ c ∈ word.toList, c.toLower.toNat < 0x80 := by
    have small : ("include".toList.all fun c => decide (c.toNat < 0x80)) = true := rfl
    intro c member
    have lower : c.toLower ∈ "include".toList := spelled ▸ List.mem_map_of_mem member
    exact of_decide_eq_true (List.all_eq_true.1 small _ lower)
  rw [Text.lowerText, Text.lowerAfter_of_ascii ascii, spelled, String.ofList_toList]

namespace Assembly

/-! ### Loaded sources -/

/-- The lines of a walk before its first flaw. -/
def soundLines (find : Lookup) (visited : List PendingLine) : List PendingLine :=
  visited.takeWhile fun line => (line.flaw? find).isNone

/-- A walk over the main text loads a source with this text: it is the main text itself, or some line
    before the first flaw includes the source. -/
def Loaded (find : Lookup) (main : String) (visited : List PendingLine) (source text : String) : Prop :=
  source = mainSource ∧ text = main ∨
    source ∈ includedNames (soundLines find visited) ∧ find source = .ok text

section

variable {find : Lookup} {before block visited : List PendingLine}

theorem mem_includedNames_append {first rest : List PendingLine} {name : String} :
    name ∈ includedNames (first ++ rest) ↔ name ∈ includedNames first ∨ name ∈ includedNames rest := by
  simp [includedNames]

theorem mem_includedNames_cons {line : PendingLine} {rest : List PendingLine} {name : String} :
    name ∈ includedNames (line :: rest) ↔
      line.demand.name? = some name ∨ name ∈ includedNames rest := by
  rw [← List.singleton_append, mem_includedNames_append]
  simp [includedNames]

/-- What a line brings are lines of the source that it includes. -/
theorem PendingLine.mem_brings {line brought : PendingLine} (h : brought ∈ line.brings find before) :
    ∃ name text, line.demand.name? = some name ∧ find name = .ok text ∧
      brought ∈ sourceLines name text := by
  unfold brings at h
  split at h
  · next name asked =>
      split at h
      · cases h
      · split at h
        · next text found => exact ⟨name, text, by rw [asked]; rfl, found, h⟩
        · cases h
  · cases h

/-- The first line to include a source brings all its lines. -/
theorem PendingLine.brings_of_new {line : PendingLine} {name text : String}
    (asked : line.demand.name? = some name) (new : name ∉ includedNames before)
    (found : find name = .ok text) : line.brings find before = sourceLines name text := by
  unfold brings
  cases demanded : line.demand with
  | inclusion other =>
      obtain rfl : other = name := by simpa [demanded, Demand.name?] using asked
      simp only [if_neg new, found]
  | _ => simp [demanded, Demand.name?] at asked

/-- Every line that is visited belongs to the block, or to a source that a line before it includes. -/
theorem DepthFirst.source_of_getElem? (walk : DepthFirst find before block visited) {i : Nat}
    {line : PendingLine} (here : visited[i]? = some line) :
    line ∈ block ∨ ∃ name text, name ∈ includedNames (visited.take i) ∧ find name = .ok text ∧
      line ∈ sourceLines name text := by
  induction walk generalizing i with
  | done before => simp at here
  | @visit before rest inner outer first _ _ ihInner ihOuter =>
      cases i with
      | zero =>
          cases here
          exact .inl List.mem_cons_self
      | succ i =>
          rw [List.cons_append, List.getElem?_cons_succ] at here
          rw [List.cons_append, List.take_succ_cons]
          by_cases inside : i < inner.length
          · -- the line is visited on behalf of what the first line brings
            rw [List.getElem?_append_left inside] at here
            rw [List.take_append_of_le_length (Nat.le_of_lt inside)]
            rcases ihInner here with brought | ⟨name, text, included, found, member⟩
            · obtain ⟨name, text, asked, found, member⟩ := PendingLine.mem_brings brought
              exact .inr ⟨name, text, mem_includedNames_cons.2 (.inl asked), found, member⟩
            · exact .inr ⟨name, text, mem_includedNames_cons.2 (.inr included), found, member⟩
          · rw [List.getElem?_append_right (Nat.le_of_not_lt inside)] at here
            rcases ihOuter here with member | ⟨name, text, included, found, member⟩
            · exact .inl (List.mem_cons_of_mem first member)
            · refine .inr ⟨name, text, mem_includedNames_cons.2 (.inr ?_), found, member⟩
              rw [List.take_append, mem_includedNames_append]
              exact .inr included

/-- All lines of the block are visited. -/
theorem DepthFirst.block_subset (walk : DepthFirst find before block visited) : block ⊆ visited := by
  induction walk with
  | done before => exact List.Subset.refl []
  | @visit before rest inner outer first _ _ _ ihOuter =>
      intro line member
      rcases List.mem_cons.1 member with rfl | later
      · exact List.mem_cons_self
      · exact List.mem_append_right _ (ihOuter later)

/-- All lines of a source are visited that is included here for the first time. -/
theorem DepthFirst.sourceLines_subset (walk : DepthFirst find before block visited) {name text : String}
    (new : name ∉ includedNames before) (included : name ∈ includedNames visited)
    (found : find name = .ok text) : sourceLines name text ⊆ visited := by
  induction walk with
  | done before => cases included
  | @visit before rest inner outer first walk _ ihInner ihOuter =>
      have inside : inner ⊆ first :: inner ++ outer := by
        intro line member
        exact List.mem_append_left _ (List.mem_cons_of_mem first member)
      by_cases asked : first.demand.name? = some name
      · rw [PendingLine.brings_of_new asked new found] at walk
        exact List.Subset.trans walk.block_subset inside
      · have other : name ∉ includedNames (before ++ [first]) := by
          rw [mem_includedNames_concat]
          exact fun h => h.elim new asked
        rw [List.cons_append, mem_includedNames_cons, mem_includedNames_append] at included
        by_cases early : name ∈ includedNames inner
        · exact List.Subset.trans (ihInner other early) inside
        · refine List.Subset.trans (ihOuter ?_ ?_) (List.subset_append_right _ outer)
          · rw [mem_includedNames_append, mem_includedNames_cons]
            exact fun h => h.elim new fun h => h.elim asked early
          · exact (included.resolve_left asked).resolve_left early

/-- A line up to which a walk has no flaw belongs to a source that was loaded. -/
theorem DepthFirst.exists_loaded {main : String}
    (walk : DepthFirst find [] (sourceLines mainSource main) visited) {i : Nat} {line : PendingLine}
    (here : visited[i]? = some line) (sound : ∀ earlier ∈ visited.take i, earlier.flaw? find = none) :
    ∃ text, Loaded find main visited line.source text ∧ 1 ≤ line.number ∧
      line.number ≤ (Text.lines text).length := by
  have place {source text : String} (member : line ∈ sourceLines source text) :
      line.source = source ∧ 1 ≤ line.number ∧ line.number ≤ (Text.lines text).length := by
    obtain ⟨n, bound, rfl⟩ := List.mem_mapIdx.1 member
    exact ⟨rfl, Nat.le_add_left 1 n, bound⟩
  have early : visited.take i ⊆ soundLines find visited := by
    have split : soundLines find visited = visited.take i ++ soundLines find (visited.drop i) := by
      conv => lhs; rw [← List.take_append_drop i visited]
      refine List.takeWhile_append_of_pos ?_
      intro earlier member
      rw [sound earlier member]
      rfl
    rw [split]
    exact List.subset_append_left _ _
  rcases walk.source_of_getElem? here with member | ⟨name, text, included, found, member⟩
  · obtain ⟨source, bounds⟩ := place member
    exact ⟨main, .inl ⟨source, rfl⟩, bounds⟩
  · obtain ⟨source, bounds⟩ := place member
    refine ⟨text, .inr ⟨?_, source ▸ found⟩, bounds⟩
    rw [source]
    exact mem_includedNames_of_subset early included

/-- On a walk without flaws all lines of all loaded sources are visited. -/
theorem DepthFirst.sourceLines_subset_of_loaded {main : String}
    (walk : DepthFirst find [] (sourceLines mainSource main) visited) {source text : String}
    (loaded : Loaded find main visited source text) : sourceLines source text ⊆ visited := by
  rcases loaded with ⟨rfl, rfl⟩ | ⟨included, found⟩
  · exact walk.block_subset
  · refine walk.sourceLines_subset List.not_mem_nil ?_ found
    exact mem_includedNames_of_subset (List.takeWhile_subset _) included

end

/-! ### Undefined labels -/

section

variable {options : Options} {vs : Variables} {lines : List Line}

/-- The statements of lines that can be read define the labels that the lines mark. -/
theorem filterMap_defines_readStatements (readable : (readStatements options vs lines).error? = none) :
    (readStatements options vs lines).statements.filterMap (fun x => x.2.defines?) =
      lines.filterMap Line.marksLabel := by
  induction lines generalizing vs with
  | nil => rfl
  | cons l rest ih =>
      obtain ⟨s?, read, others⟩ := readStatements_cons_error?.1 readable
      have marks : l.marksLabel = (conductOf s?).marksLabel :=
        congrArg Conduct.marksLabel (Line.conduct_of_ofLine read)
      rw [readStatements, read, List.filterMap_cons, marks, ← ih others]
      cases s? with
      | none => rfl
      | some s => exact List.filterMap_cons

/-- The statements of lines that can be read use the labels that the lines refer to. -/
theorem findSome?_uses_readStatements (known : List String)
    (readable : (readStatements options vs lines).error? = none) :
    ((readStatements options vs lines).statements.findSome? fun x => x.2.uses?.bind fun name =>
        if known.contains name then none
        else some ⟨x.1.source, x.1.number, .undefinedLabel name⟩) =
      lines.findSome? fun l => l.refersTo.bind fun name =>
        if name ∈ known then none
        else some (⟨l.source, l.number, .undefinedLabel name⟩ : CompileError) := by
  induction lines generalizing vs with
  | nil => rfl
  | cons l rest ih =>
      obtain ⟨s?, read, others⟩ := readStatements_cons_error?.1 readable
      have refers : l.refersTo = (conductOf s?).refersTo :=
        congrArg Conduct.refersTo (Line.conduct_of_ofLine read)
      rw [readStatements, read, List.findSome?_cons, refers, ← ih others]
      cases s? with
      | none => rfl
      | some s =>
          simp only [conductOf, Statement.conduct, List.findSome?_cons, Variables.after]
          cases s.uses? with
          | none => rfl
          | some name => simp

/-- The first use of an undefined label can be told from the spelling of lines that can be read. -/
theorem undefinedUse?_readStatements (readable : (readStatements options vs lines).error? = none) :
    undefinedUse? (readStatements options vs lines).statements =
      lines.findSome? fun l => l.refersTo.bind fun name =>
        if name ∈ lines.filterMap Line.marksLabel then none
        else some ⟨l.source, l.number, .undefinedLabel name⟩ := by
  unfold undefinedUse?
  rw [filterMap_defines_readStatements readable, ← findSome?_uses_readStatements _ readable]
  refine congrArg (fun f => List.findSome? f _) (funext fun x => ?_)
  dsimp only
  cases x.2.uses? <;> rfl

/-- Every line that comes up is read with the variables that the lines before it define. -/
theorem exists_statement_of_split (readable : (readStatements options vs lines).error? = none)
    {earlier later : List Line} {l : Line} (split : lines = earlier ++ l :: later) :
    ∃ s?, Statement.ofLine options (readStatements options vs earlier).bindings l = .ok s? := by
  induction earlier generalizing vs lines with
  | nil =>
      subst split
      obtain ⟨s?, read, -⟩ := readStatements_cons_error?.1 readable
      exact ⟨s?, read⟩
  | cons first earlier ih =>
      subst split
      obtain ⟨s?, read, others⟩ := readStatements_cons_error?.1 readable
      have bindings : (readStatements options vs (first :: earlier)).bindings =
          (readStatements options (vs.after s?) earlier).bindings := by
        rw [readStatements, read]
        cases s? <;> rfl
      rw [bindings]
      exact ih others rfl

/-- When lowering fails, a line cannot be read, or all can and a label is undefined. -/
theorem lower_eq_error {e : CompileError} (failed : (lower { options } lines).1 = .error e) :
    (readStatements options [] lines).error? = some e ∨
      (readStatements options [] lines).error? = none ∧
        undefinedUse? (readStatements options [] lines).statements = some e := by
  unfold lower at failed
  simp only at failed
  split at failed
  · next unread =>
      cases failed
      exact .inl unread
  · next readable =>
      split at failed
      · next undefined =>
          cases failed
          exact .inr ⟨readable, undefined⟩
      · cases failed

/-- When a label in use is not defined, a reachable line refers to it and no line at all defines it. -/
theorem exists_of_undefinedUse? {e : CompileError}
    (readable : (readStatements options [] (reachableLines lines)).error? = none)
    (undefined : undefinedUse? (readStatements options [] (reachableLines lines)).statements = some e) :
    ∃ earlier l later name, reachableLines lines = earlier ++ l :: later ∧
      e = ⟨l.source, l.number, .undefinedLabel name⟩ ∧ l.refersTo = some name ∧
      (∀ d ∈ lines, d.marksLabel ≠ some name) ∧
      ∀ l' ∈ earlier, ∀ other, l'.refersTo = some other → ∃ d ∈ lines, d.marksLabel = some other := by
  rw [undefinedUse?_readStatements readable, List.findSome?_eq_some_iff] at undefined
  obtain ⟨earlier, l, later, split, blamed, cleared⟩ := undefined
  rw [Option.bind_eq_some_iff] at blamed
  obtain ⟨name, refers, blamed⟩ := blamed
  split at blamed
  · cases blamed
  next unmarked =>
    refine ⟨earlier, l, later, name, split, (Option.some.inj blamed).symm, refers, ?_, ?_⟩
    · -- a line that defined the label would be reachable itself
      intro d member marks
      apply unmarked
      refine List.mem_filterMap.2 ⟨d, ?_, marks⟩
      obtain ⟨j, there⟩ := List.mem_iff_getElem?.1 member
      have user : l ∈ reachableLines lines := by simp [split]
      obtain ⟨k, line, live⟩ := mem_reachableLines_iff.1 user
      have conduct {k : Nat} {l : Line} (here : lines[k]? = some l) :
          (lines.map Line.conduct)[k]? = some l.conduct := by simp [here]
      exact mem_reachableLines_iff.2 ⟨j, there, .referred live (conduct line) refers (conduct there) marks⟩
    · intro l' member other refers'
      have clear := cleared l' member
      rw [refers', Option.bind_some, ite_eq_left_iff] at clear
      have marked : other ∈ (reachableLines lines).filterMap Line.marksLabel := by
        by_contra absent
        cases clear absent
      obtain ⟨d, reached, marks⟩ := List.mem_filterMap.1 marked
      exact ⟨d, mem_of_mem_reachableLines reached, marks⟩

end

/-! ### The culprit -/

section

variable {find : Lookup} {line : PendingLine} {l : Line}

/-- A line that defines a label is left as it is. -/
theorem PendingLine.mem_kept_of_marksLabel {tokens : List Token} {name : String}
    (read : tokenize line.text = .ok tokens)
    (marks : Line.marksLabel ⟨line.source, line.number, tokens⟩ = some name) :
    (⟨line.source, line.number, tokens⟩ : Line) ∈ line.kept := by
  have label : Line.opcodeText ⟨line.source, line.number, tokens⟩ = "label" := by
    unfold Line.marksLabel at marks
    split at marks
    · assumption
    · cases marks
  cases tokens with
  | nil => simp [Line.opcodeText, Line.opcode?] at label
  | cons t arguments =>
      have plain : inclusion? (t :: arguments) = none := by
        cases t with
        | word word =>
            have asks : isInclude word = false := by
              by_contra asks
              have spelled := lowerText_of_isInclude (Bool.eq_true_of_not_eq_false asks)
              rw [show Line.opcodeText _ = Text.lowerText word from rfl, spelled] at label
              exact absurd label (by decide)
            simp [inclusion?, asks]
        | _ => rfl
      simp [kept, demand, read, plain, made]

/-- A line with a flaw is reported where it stands, and not for a label. -/
theorem PendingLine.place_of_flaw {e : CompileError} (h : line.flaw? find = some e) :
    e.source = line.source ∧ e.line = line.number ∧ ∀ name, e.cause ≠ .undefinedLabel name := by
  unfold flaw? at h
  cases demanded : line.demand with
  | keep tokens => simp [demanded] at h
  | flaw cause =>
      obtain rfl : _ = e := by simpa [demanded] using h
      refine ⟨rfl, rfl, ?_⟩
      rintro name rfl
      unfold demand at demanded
      split at demanded
      · cases demanded
      · split at demanded
        · cases demanded
        · next arguments _ =>
            split at demanded
            · next target =>
                cases demanded
                unfold includeTarget at target
                split at target <;> cases target
            · cases demanded
  | inclusion other =>
      cases found : find other with
      | ok text => simp [demanded, found] at h
      | error cause =>
          obtain rfl : _ = e := by simpa [demanded, found] using h
          exact ⟨rfl, rfl, by simp⟩

end

/-- The failure of a compilation is that of its expansion, or that of the lowering of the lines that
    control reaches. -/
theorem compile_eq_error {catalogue : Catalogue} {options : Options} {main : String} {e : CompileError}
    (failed : compile catalogue options main = .error e) :
    (expandSource catalogue { options } mainSource main).map Prod.snd = .error e ∨
      ∃ lines, (expandSource catalogue { options } mainSource main).map Prod.snd = .ok lines ∧
        (lower { options } (reachableLines lines)).1 = .error e := by
  have unlowered : (lowerSource catalogue { options } main).1 = .error e := by
    unfold compile at failed
    cases lowered : (lowerSource catalogue { options } main).1 with
    | error e' =>
        rw [lowered] at failed
        cases failed
        rfl
    | ok lowered' =>
        rw [lowered] at failed
        cases failed
  unfold lowerSource at unlowered
  cases expansion : expandSource catalogue { options } mainSource main with
  | error e' =>
      rw [expansion] at unlowered
      cases unlowered
      exact .inl rfl
  | ok result =>
      obtain ⟨ctx, lines⟩ := result
      rw [expansion] at unlowered
      obtain ⟨same, labels, bindings⟩ := (expand_eq_ok_iff.1 expansion).context_eq
      refine .inr ⟨lines, rfl, ?_⟩
      rw [← unlowered, lower_fresh labels bindings, same]

/-- A failed compilation points at the culprit. The place that it reports is a line of a loaded source.
    When it reports a label that is not defined, then no line of any loaded source defines the label,
    whether control reaches the line or not; every line that control reaches can be read; and the line
    reported is the first of them that refers to a label which is defined nowhere. -/
theorem compile_error_culprit {catalogue : Catalogue} {options : Options} {main : String}
    {e : CompileError} (failed : compile catalogue options main = .error e) :
    ∃ visited, DepthFirst (catalogue.find options) [] (sourceLines mainSource main) visited ∧
      (∃ text, Loaded (catalogue.find options) main visited e.source text ∧ 1 ≤ e.line ∧
        e.line ≤ (Text.lines text).length) ∧
      ∀ name, e.cause = .undefinedLabel name →
        (∀ source text, Loaded (catalogue.find options) main visited source text →
          ∀ line ∈ sourceLines source text, ∀ tokens, tokenize line.text = .ok tokens →
            Line.marksLabel ⟨line.source, line.number, tokens⟩ ≠ some name) ∧
        ∃ lines, (expandSource catalogue { options } mainSource main).map Prod.snd = .ok lines ∧
          (∀ earlier l later, reachableLines lines = earlier ++ l :: later →
            ∃ s?, Statement.ofLine options (readStatements options [] earlier).bindings l = .ok s?) ∧
          ∃ earlier l later, reachableLines lines = earlier ++ l :: later ∧
            l.source = e.source ∧ l.number = e.line ∧ l.refersTo = some name ∧
            ∀ l' ∈ earlier, ∀ other, l'.refersTo = some other →
              ∃ d ∈ lines, d.marksLabel = some other := by
  obtain ⟨visited, walk⟩ := exists_depthFirst catalogue options [] (sourceLines mainSource main)
  have result := outcome_of_depthFirst walk
  refine ⟨visited, walk, ?_⟩
  rcases compile_eq_error failed with unexpanded | ⟨lines, expanded, unlowered⟩
  -- a flaw in a line
  · rw [result, outcome] at unexpanded
    split at unexpanded
    · next found =>
        cases unexpanded
        obtain ⟨earlier, line, later, rfl, flaw, sound⟩ := List.findSome?_eq_some_iff.1 found
        obtain ⟨source, number, other⟩ := PendingLine.place_of_flaw flaw
        rw [source, number]
        refine ⟨walk.exists_loaded (i := earlier.length) (by simp) (by simpa using sound), ?_⟩
        intro name cause
        exact absurd cause (other name)
    · cases unexpanded
  -- a line that control reaches
  rw [result, outcome] at expanded
  split at expanded
  · cases expanded
  next clean =>
  cases expanded
  have expansion : (expandSource catalogue { options } mainSource main).map Prod.snd =
      .ok (visited.flatMap PendingLine.kept) := by
    rw [result, outcome, clean]
  have sound : ∀ line ∈ visited, line.flaw? (catalogue.find options) = none :=
    List.findSome?_eq_none_iff.1 clean
  have reported {l : Line} (member : l ∈ reachableLines (visited.flatMap PendingLine.kept)) :
      ∃ text, Loaded (catalogue.find options) main visited l.source text ∧ 1 ≤ l.number ∧
        l.number ≤ (Text.lines text).length := by
    obtain ⟨line, seen, kept⟩ := List.mem_flatMap.1 (mem_of_mem_reachableLines member)
    obtain ⟨source, number⟩ := PendingLine.place_of_mem_kept kept
    obtain ⟨i, place⟩ := List.mem_iff_getElem?.1 seen
    rw [source, number]
    exact walk.exists_loaded place fun earlier member => sound earlier (List.mem_of_mem_take member)
  rcases lower_eq_error unlowered with unread | ⟨readable, undefined⟩
  · obtain ⟨l, member, vs, cause, read, rfl⟩ := exists_of_readStatements_error? unread
    refine ⟨reported member, ?_⟩
    rintro name rfl
    exact absurd read ofLine_ne_undefinedLabel
  · obtain ⟨earlier, l, later, name, split, rfl, refers, unmarked, cleared⟩ :=
      exists_of_undefinedUse? readable undefined
    refine ⟨reported (by simp [split]), ?_⟩
    intro name' cause
    obtain rfl : name = name' := by simpa using cause
    refine ⟨?_, _, expansion, ?_, earlier, l, later, split, rfl, rfl, refers, cleared⟩
    · intro source text loaded line member tokens read marks
      have kept := PendingLine.mem_kept_of_marksLabel read marks
      have seen := walk.sourceLines_subset_of_loaded loaded member
      exact unmarked _ (List.mem_flatMap.2 ⟨line, seen, kept⟩) marks
    · intro earlier l later split
      exact exists_statement_of_split readable split

/-- Two undefined labels are reached, the first of them in a source that an included source includes; a
    third one stands in a line that control does not reach. -/
theorem compile_error_culprit_nested :
    let catalogue := Catalogue.ofTexts
      [("a", "include b\njumpz lost"), ("b", "label there\njumpn _gone")]
    let main := "push 1\ninclude a\njump there\ncall nowhere"
    compile catalogue {} main = .error ⟨"b", 2, .undefinedLabel "_gone"⟩ ∧
      ∃ visited, DepthFirst (catalogue.find {}) [] (sourceLines mainSource main) visited ∧
        (∃ text, Loaded (catalogue.find {}) main visited "b" text ∧ 2 ≤ (Text.lines text).length) ∧
        ∀ source text, Loaded (catalogue.find {}) main visited source text →
          ∀ line ∈ sourceLines source text, ∀ tokens, tokenize line.text = .ok tokens →
            Line.marksLabel ⟨line.source, line.number, tokens⟩ ≠ some "_gone" := by
  intro catalogue main
  let lines : List Line :=
    [⟨"main", 1, [.word "push", .integer 1]⟩, ⟨"b", 1, [.word "label", .word "there"]⟩,
      ⟨"b", 2, [.word "jumpn", .variable "_gone"]⟩, ⟨"a", 2, [.word "jumpz", .word "lost"]⟩,
      ⟨"main", 3, [.word "jump", .word "there"]⟩, ⟨"main", 4, [.word "call", .word "nowhere"]⟩]
  have expanded : Expands catalogue {} (pendingLines mainSource main) { included := ["b", "a"] } lines := by
    have cut : pendingLines mainSource main =
        [⟨"main", 1, "push 1".toList⟩, ⟨"main", 2, "include a".toList⟩,
          ⟨"main", 3, "jump there".toList⟩, ⟨"main", 4, "call nowhere".toList⟩] := by decide +kernel
    have cut_a : pendingLines "a" "include b\njumpz lost" =
        [⟨"a", 1, "include b".toList⟩, ⟨"a", 2, "jumpz lost".toList⟩] := by decide +kernel
    have cut_b : pendingLines "b" "label there\njumpn _gone" =
        [⟨"b", 1, "label there".toList⟩, ⟨"b", 2, "jumpn _gone".toList⟩] := by decide +kernel
    have asks_a : inclusion? [.word "include", .word "a"] = some [.word "a"] := by decide +kernel
    have asks_b : inclusion? [.word "include", .word "b"] = some [.word "b"] := by decide +kernel
    have push : tokenize "push 1".toList = .ok [.word "push", .integer 1] := by decide +kernel
    have include_a : tokenize "include a".toList = .ok [.word "include", .word "a"] := by decide +kernel
    have include_b : tokenize "include b".toList = .ok [.word "include", .word "b"] := by decide +kernel
    have label : tokenize "label there".toList = .ok [.word "label", .word "there"] := by decide +kernel
    have jumpn : tokenize "jumpn _gone".toList = .ok [.word "jumpn", .variable "_gone"] := by
      decide +kernel
    have jumpz : tokenize "jumpz lost".toList = .ok [.word "jumpz", .word "lost"] := by decide +kernel
    have jump : tokenize "jump there".toList = .ok [.word "jump", .word "there"] := by decide +kernel
    have call : tokenize "call nowhere".toList = .ok [.word "call", .word "nowhere"] := by decide +kernel
    rw [cut]
    refine @Expands.kept catalogue _ _ ⟨"main", 1, _⟩ _ _ _ push rfl ?_
    refine @Expands.fresh catalogue _ _ ⟨"main", 2, _⟩ _ _ _ _ "include b\njumpz lost" _ include_a asks_a
      rfl rfl rfl ?_
    rw [cut_a]
    refine @Expands.fresh catalogue _ _ ⟨"a", 1, _⟩ _ _ _ _ "label there\njumpn _gone" _ include_b asks_b
      rfl rfl rfl ?_
    rw [cut_b]
    refine @Expands.kept catalogue _ _ ⟨"b", 1, _⟩ _ _ _ label rfl ?_
    refine @Expands.kept catalogue _ _ ⟨"b", 2, _⟩ _ _ _ jumpn rfl ?_
    refine @Expands.kept catalogue _ _ ⟨"a", 2, _⟩ _ _ _ jumpz rfl ?_
    refine @Expands.kept catalogue _ _ ⟨"main", 3, _⟩ _ _ _ jump rfl ?_
    exact @Expands.kept catalogue _ _ ⟨"main", 4, _⟩ _ _ _ call rfl (.done _)
  have order : isSearchOrder lines [0, 1, 2, 3, 4] = true := by decide +kernel
  have failed : compile catalogue {} main = .error ⟨"b", 2, .undefinedLabel "_gone"⟩ := by
    have unlowered : (lower { included := ["b", "a"] } (pick (List.contains [0, 1, 2, 3, 4]) 0 lines)).1 =
        .error ⟨"b", 2, .undefinedLabel "_gone"⟩ := by
      decide +kernel
    rw [compile, lowerSource, expandSource, expand_eq_ok_iff.2 expanded]
    simp only [reachableLines_of_isSearchOrder order, unlowered]
    rfl
  obtain ⟨visited, walk, ⟨text, loaded, -, bound⟩, undefined⟩ := compile_error_culprit failed
  exact ⟨failed, visited, walk, ⟨text, loaded, bound⟩, (undefined "_gone" rfl).1⟩

end Assembly

end Whitespace
