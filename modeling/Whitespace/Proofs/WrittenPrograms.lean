/-
Module: Whitespace.Proofs.WrittenPrograms
Purpose: A program text that was written to a file runs as its source does. The file holds what was
  written; the comments of the text, be they remarks or the letters of an annotation, are passed over; and
  the file is taken for a program text, unless one of the remarks in it holds the bracketed word for a
  line feed, by which a bracketed text is known.
Main exports: readSource_of_write, isBracketed_annotate, Lowered.placedRemarks, isBracketed_render_exit,
  CommandLine.writtenRemarks, CommandLine.run_written
-/
import Whitespace.CommandLine.Result
import Whitespace.Proofs.ClosedPrograms
import Whitespace.Proofs.EarlyIncludes

namespace Whitespace

/-! ### Files that were written -/

namespace Files.Tree

variable {t t' : Tree} {directory next : Directory} {place : Place} {name last path text : String}
  {content : ByteArray}

theorem file?_setFile_self (t : Tree) (place : Place) (content : ByteArray) :
    (t.setFile place content).file? place = some content := by
  simp [file?, setFile]

/-- Writing a file leaves all other files as they are. -/
theorem file?_setFile_of_ne {other : Place} (h : other ≠ place) :
    (t.setFile place content).file? other = t.file? other := by
  have skipped : (other == place) = false := by simpa using h
  simp only [file?, setFile, List.lookup_cons, skipped]
  induction t.files with
  | nil => rfl
  | cons entry rest ih =>
      obtain ⟨file, bytes⟩ := entry
      by_cases replaced : file = place
      · subst replaced
        simpa [List.lookup_cons, skipped] using ih
      · rw [List.filter_cons_of_pos (by simpa using replaced), List.lookup_cons, List.lookup_cons]
        split
        · rfl
        · exact ih

/-- Directories stay where they are when a file is written. -/
theorem hasDirectory_setFile {other : Place} (h : other ≠ place) (there : t.hasDirectory other = true) :
    (t.setFile place content).hasDirectory other = true := by
  simp only [hasDirectory, setFile, List.any_cons, Bool.or_eq_true, List.any_eq_true] at there ⊢
  rcases there with root | ⟨⟨file, bytes⟩, member, below⟩
  · exact .inl root
  · by_cases replaced : file = place
    · subst replaced
      exact .inr (.inl below)
    · refine .inr (.inr ⟨(file, bytes), ?_, below⟩)
      simpa [replaced] using member

/-- The file that is written takes the place of a file or of nothing, so directories are found as before. -/
theorem look_setFile (vacant : ∀ d, t.look (.inside place) last ≠ .ok (.directory d))
    (found : t.look directory name = .ok (.directory next)) :
    (t.setFile (last :: place) content).look directory name = .ok (.directory next) := by
  have other : ∀ p, directory = .inside p → name :: p ≠ last :: place := by
    rintro p rfl same
    cases same
    exact vacant next found
  unfold look at found ⊢
  split at found
  · cases found
  · next short =>
      rw [if_neg short]
      cases directory with
      | above => cases found
      | inside p =>
          have different := other p rfl
          simp only [file?_setFile_of_ne different] at found ⊢
          cases file : t.file? (name :: p) with
          | some content => simp [file] at found
          | none =>
              simp only [file] at found ⊢
              split at found
              · next there =>
                  rw [if_pos (hasDirectory_setFile different there)]
                  exact found
              · cases found

/-- A step through directories goes the same way after a file was written where no directory stands. -/
theorem enter_setFile (vacant : ∀ d, t.look (.inside place) last ≠ .ok (.directory d))
    (entered : t.enter directory name = .ok next) :
    (t.setFile (last :: place) content).enter directory name = .ok next := by
  unfold enter at entered ⊢
  split at entered
  · next here => rwa [if_pos here]
  · next elsewhere =>
      rw [if_neg elsewhere]
      split at entered
      · next up => rwa [if_pos up]
      · next down =>
          rw [if_neg down]
          cases found : t.look directory name with
          | error fault => simp [found] at entered
          | ok node =>
              cases node with
              | file bytes => simp [found] at entered
              | directory d =>
                  rw [look_setFile vacant found]
                  simpa [found] using entered

/-- A path is approached in the same way after a file was written where no directory stands. -/
theorem approach_setFile (vacant : ∀ d, t.look (.inside place) last ≠ .ok (.directory d))
    {parts : List String} {arrival : Directory × String} (approached : t.approach directory parts = .ok arrival) :
    (t.setFile (last :: place) content).approach directory parts = .ok arrival := by
  fun_induction approach t directory parts with
  | case1 directory => exact approached
  | case2 directory part => exact approached
  | case3 directory part rest _ fault entered => cases approached
  | case4 directory part rest more next entered ih =>
      rw [approach, enter_setFile vacant entered]
      · exact ih approached
      · exact more

/-- The file that is written is found where it was written. -/
theorem look_setFile_self (allowed : t.look (.inside place) last ≠ .error .nameTooLong) :
    (t.setFile (last :: place) content).look (.inside place) last = .ok (.file content) := by
  unfold look at allowed ⊢
  split
  · next long =>
      rw [if_pos long] at allowed
      exact absurd rfl allowed
  · simp only [file?_setFile_self]

/-- Writing a file leads no path elsewhere. -/
theorem follow_setFile (vacant : ∀ d, t.look (.inside place) last ≠ .ok (.directory d))
    {arrival : Directory × String} (followed : t.follow path = .ok arrival) :
    (t.setFile (last :: place) content).follow path = .ok arrival := by
  unfold follow at followed ⊢
  split at followed
  · cases followed
  · next plain =>
      rw [if_neg plain]
      split at followed
      · cases followed
      · next short =>
          rw [if_neg short]
          split at followed
          · cases followed
          · next something =>
              rw [if_neg something]
              exact approach_setFile vacant followed

/-- What a text is written to: a file or nothing, in a directory of the tree. -/
theorem exists_of_write (written : t.write path text = .ok t') :
    ∃ place last, t.follow path = .ok (.inside place, last) ∧ (last ≠ "" ∧ last ≠ "." ∧ last ≠ "..") ∧
      (∀ d, t.look (.inside place) last ≠ .ok (.directory d)) ∧
      t.look (.inside place) last ≠ .error .nameTooLong ∧
      t' = t.setFile (last :: place) text.toUTF8 := by
  unfold write at written
  cases followed : t.follow path with
  | error fault => simp [followed] at written
  | ok arrival =>
      obtain ⟨directory, last⟩ := arrival
      simp only [followed] at written
      split at written
      · cases written
      · next proper =>
          have named : last ≠ "" ∧ last ≠ "." ∧ last ≠ ".." := by simpa [and_assoc] using proper
          split at written
          · cases written
          · next bytes place looked =>
              cases written
              exact ⟨place, last, rfl, named, by simp [looked], by simp [looked], rfl⟩
          · next place looked =>
              cases written
              exact ⟨place, last, rfl, named, by simp [looked], by simp [looked], rfl⟩
          · cases written
          · cases written

/-- A text that was written to a path is what the source file at the path holds. -/
theorem readSource_of_write (written : t.write path text = .ok t') : t'.readSource path = .ok text := by
  obtain ⟨place, last, followed, ⟨nonempty, here, up⟩, vacant, allowed, rfl⟩ := exists_of_write written
  have found : (t.setFile (last :: place) text.toUTF8).node path = .ok (.file text.toUTF8) := by
    unfold node
    rw [follow_setFile vacant followed]
    simp only [nonempty, here, up, decide_false, Bool.or_self, Bool.false_eq_true, if_false]
    exact look_setFile_self allowed
  have valid : String.fromUTF8? text.toUTF8 = some text := dif_pos text.isValidUTF8
  unfold readSource
  simp only [found, valid]

end Files.Tree

/-! ### Bracketed texts -/

section

variable {word text before after : List Char} {c : Char}

theorem occurs_iff : occurs word text = true ↔ word <:+: text := by
  induction text with
  | nil => simp [occurs]
  | cons c rest ih =>
      rw [occurs, Bool.or_eq_true, List.isPrefixOf_iff_prefix, ih, List.infix_cons_iff]

/-- A word does not reach across a character that it lacks. -/
theorem infix_append_cons_iff (lacks : c ∉ word) :
    word <:+: before ++ c :: after ↔ word <:+: before ∨ word <:+: after := by
  rw [List.infix_append_iff, List.infix_cons_iff]
  constructor
  · rintro (left | (front | right) | ⟨first, rest, rfl, left, front⟩)
    · exact .inl left
    · rcases List.prefix_cons_iff.1 front with rfl | ⟨t, rfl, -⟩
      · exact .inl (List.nil_infix)
      · exact absurd List.mem_cons_self lacks
    · exact .inr right
    · rcases List.prefix_cons_iff.1 front with rfl | ⟨t, rfl, -⟩
      · rw [List.append_nil]
        exact .inl left.isInfix
      · exact absurd (List.mem_append_right first List.mem_cons_self) lacks
  · rintro (left | right)
    · exact .inl left
    · exact .inr (.inl (.inr right))

/-- A word does not reach into characters that it lacks. -/
theorem infix_append_iff_of_lacks (nonempty : word ≠ []) (lacks : ∀ c ∈ after, c ∉ word) :
    word <:+: before ++ after ↔ word <:+: before := by
  cases after with
  | nil => rw [List.append_nil]
  | cons c rest =>
      rw [List.forall_mem_cons] at lacks
      rw [infix_append_cons_iff lacks.1]
      refine or_iff_left fun inside => nonempty (List.eq_nil_iff_forall_not_mem.2 fun d member => ?_)
      exact lacks.2 d (inside.subset member) member

/-- A text is known to be bracketed by the word for a line feed. -/
theorem isBracketed_ofList : isBracketed (String.ofList text) = true ↔ Symbol.word .lineFeed <:+: text := by
  rw [isBracketed, String.toList_ofList, occurs_iff]

/-- A character that stands for a symbol is the character of the symbol. -/
theorem ofChar?_eq_some {s : Symbol} (h : Symbol.ofChar? c = some s) : c = s.toChar := by
  unfold Symbol.ofChar? at h
  split at h
  · cases h
    assumption
  · split at h
    · cases h
      assumption
    · split at h
      · cases h
        assumption
      · cases h

/-- A word that holds no symbol and does not end with the letter of one stands at the front of an annotated
    text only when it stands at the front of the text. -/
theorem prefix_of_prefix_annotated (plain : ∀ s : Symbol, s.toChar ∉ word)
    (ending : ∀ s : Symbol, word.getLast? ≠ some s.annotation)
    (front : word <+: text.flatMap annotateChar) : word <+: text := by
  induction text generalizing word with
  | nil => exact front
  | cons c rest ih =>
      rw [List.flatMap_cons] at front
      unfold annotateChar at front
      cases symbol : Symbol.ofChar? c with
      | none =>
          simp only [symbol, List.singleton_append] at front
          rcases List.prefix_cons_iff.1 front with rfl | ⟨word', rfl, front'⟩
          · exact List.nil_prefix
          · refine List.cons_prefix_cons.2 ⟨rfl, ?_⟩
            cases word' with
            | nil => exact List.nil_prefix
            | cons d more =>
                apply ih _ _ front'
                · exact fun s member => plain s (List.mem_cons_of_mem c member)
                · intro s
                  rw [← List.getLast?_cons_cons (a := c)]
                  exact ending s
      | some s =>
          simp only [symbol, List.cons_append, List.nil_append] at front
          rcases List.prefix_cons_iff.1 front with rfl | ⟨word', rfl, front'⟩
          · exact List.nil_prefix
          · rcases List.prefix_cons_iff.1 front' with rfl | ⟨more, rfl, -⟩
            · exact absurd rfl (ending s)
            · rw [ofChar?_eq_some symbol] at plain
              exact absurd (List.mem_cons_of_mem _ List.mem_cons_self) (plain s)

/-- An annotation neither makes nor breaks the word for a line feed. -/
theorem infix_annotated_iff :
    Symbol.word .lineFeed <:+: text.flatMap annotateChar ↔ Symbol.word .lineFeed <:+: text := by
  constructor
  · intro inside
    induction text with
    | nil => exact inside
    | cons c rest ih =>
        rw [List.flatMap_cons] at inside
        cases symbol : Symbol.ofChar? c with
        | some s =>
            have letter : ¬Symbol.word .lineFeed <:+: [s.annotation] := by cases s <;> decide
            have lacks : c ∉ Symbol.word .lineFeed := ofChar?_eq_some symbol ▸ s.toChar_not_mem_word .lineFeed
            have split : annotateChar c ++ rest.flatMap annotateChar =
                [s.annotation] ++ c :: rest.flatMap annotateChar := by
              simp [annotateChar, symbol]
            rw [split, infix_append_cons_iff lacks] at inside
            exact List.infix_cons (ih (inside.resolve_left letter))
        | none =>
            have same : annotateChar c = [c] := by simp [annotateChar, symbol]
            rw [same, List.singleton_append, List.infix_cons_iff] at inside
            rcases inside with front | inside
            · have whole : Symbol.word .lineFeed <+: (c :: rest).flatMap annotateChar := by
                rwa [List.flatMap_cons, same]
              apply List.IsPrefix.isInfix
              apply prefix_of_prefix_annotated (fun s => s.toChar_not_mem_word .lineFeed) _ whole
              intro s
              cases s <;> decide
            · exact List.infix_cons (ih inside)
  · rintro ⟨front, back, rfl⟩
    rw [List.flatMap_append, List.flatMap_append]
    exact ⟨front.flatMap annotateChar, back.flatMap annotateChar, rfl⟩

theorem isBracketed_annotate (text : String) : isBracketed (annotate text) = isBracketed text := by
  rw [Bool.eq_iff_iff, annotate, isBracketed_ofList, infix_annotated_iff, isBracketed, occurs_iff]

end

namespace Assembly

/-- The remarks that find a line of the program text to stand in. -/
def Lowered.placedRemarks (lowered : Lowered) : List String :=
  lowered.decorations.take ((spell (encodeProgram lowered.instructions)).count '\n' + 1)

theorem lacks_of_mem_spell {code : List Symbol} {c : Char} (h : c ∈ spell code) :
    c ∉ Symbol.word .lineFeed := by
  obtain ⟨s, -, rfl⟩ := List.mem_map.1 h
  exact s.toChar_not_mem_word .lineFeed

/-- In a text of symbols with remarks, the word for a line feed can only stand inside of a remark. -/
theorem infix_decorate_iff {remarks : List String} {code : List Char}
    (lacks : ∀ c ∈ code, c ∉ Symbol.word .lineFeed) :
    Symbol.word .lineFeed <:+: decorate remarks code ↔
      ∃ remark ∈ remarks.take (code.count '\n' + 1), Symbol.word .lineFeed <:+: decorationText remark := by
  have nonempty : Symbol.word .lineFeed ≠ [] := by decide
  induction remarks generalizing code with
  | nil =>
      have nowhere := @infix_append_iff_of_lacks _ [] _ nonempty lacks
      simpa [decorate, nonempty] using nowhere
  | cons remark more ih =>
      rcases decorate_cons_cases remark more code with ⟨none, text⟩ | ⟨line, rest, none, rfl, text⟩
      · rw [text, List.count_eq_zero.2 none, Nat.zero_add, List.take_succ_cons, List.take_zero,
          infix_append_iff_of_lacks nonempty lacks]
        simp only [List.mem_singleton, exists_eq_left]
      · rw [List.forall_mem_append, List.forall_mem_cons] at lacks
        obtain ⟨within, lineFeedLacks, others⟩ := lacks
        rw [text, infix_append_cons_iff lineFeedLacks, infix_append_iff_of_lacks nonempty within,
          List.count_append, List.count_eq_zero.2 none, List.count_cons_self, Nat.zero_add,
          List.take_succ_cons]
        simp only [List.mem_cons, exists_eq_or_imp, ih others]

/-- The text of a compiled program with the exit is taken for a bracketed text exactly when one of the remarks
    in it holds the word for a line feed. -/
theorem isBracketed_render_exit (lowered : Lowered) :
    isBracketed (String.ofList (lowered.render ++ spell (Instruction.flow .exit).encode)) = true ↔
      ∃ remark ∈ lowered.placedRemarks, Symbol.word .lineFeed <:+: decorationText remark := by
  rw [isBracketed_ofList, infix_append_iff_of_lacks (by decide) fun c => lacks_of_mem_spell, Lowered.render,
    infix_decorate_iff fun c => lacks_of_mem_spell]
  rfl

end Assembly

/-! ### Runs of what was written -/

namespace CommandLine

open Assembly

variable {files : Files.Tree} {stdin source target text : String} {extensions annotated : Bool}

/-- The remarks in the program text that a source compiles to. -/
def writtenRemarks (files : Files.Tree) (source : String) (extensions : Bool) : List String :=
  match files.readSource source with
  | .error _ => []
  | .ok text =>
    let catalogue := Catalogue.ofTree files (includeDirectory source) text
    match (lowerSource catalogue { options := { extensions } } text).1 with
    | .error _ => []
    | .ok lowered => lowered.placedRemarks

/-- A source that compiles was lowered, and its text is that of the lowered program with the exit. -/
theorem exists_lowered_of_assemble (assembled : assemble files source extensions = .ok text) :
    ∃ lowered : Lowered, text = String.ofList (lowered.render ++ spell (Instruction.flow .exit).encode) ∧
      writtenRemarks files source extensions = lowered.placedRemarks := by
  unfold assemble at assembled
  unfold writtenRemarks
  cases read : files.readSource source with
  | error e => simp [read] at assembled
  | ok original =>
      simp only [read, compileWithExit_eq] at assembled ⊢
      generalize lowerSource _ _ original = outcome at assembled ⊢
      cases lower : outcome.1 with
      | error e => simp [lower, Except.map, Except.mapError] at assembled
      | ok lowered =>
          simp only [lower, Except.map, Except.mapError, Except.ok.injEq] at assembled
          exact ⟨lowered, assembled.symm, rfl⟩

/-- A compilation that exits with 0 wrote the text of the program, annotated or not. -/
theorem exists_text_of_compile {turns : Nat}
    (accepted : (perform turns files stdin (.compile source target extensions annotated)).exit? = some 0) :
    ∃ text files', assemble files source extensions = .ok text ∧
      files.write target (if annotated then annotate text else text) = .ok files' ∧
      (perform turns files stdin (.compile source target extensions annotated)).files = files' := by
  simp only [perform] at accepted ⊢
  cases assembled : assemble files source extensions with
  | error e => simp [assembled] at accepted
  | ok text =>
      simp only [assembled] at accepted ⊢
      cases written : files.write target (if annotated then annotate text else text) with
      | error e => simp [written] at accepted
      | ok files' => exact ⟨text, files', rfl, written, rfl⟩

/-- What is done with a program text depends on its program alone. -/
theorem execute_congr {turns : Nat} {files files' : Files.Tree} {text text' : String} {input : Input.Source}
    (same : Program.ofText text = Program.ofText text') :
    (execute turns files text input).exit? = (execute turns files' text' input).exit? ∧
      (execute turns files text input).stdout = (execute turns files' text' input).stdout := by
  unfold execute
  rw [same]
  cases Program.ofText text' <;> exact ⟨rfl, rfl⟩

/-- A written text that no remark disguises as a bracketed one is taken for the text it is, and its program is
    that of the text before it was annotated. -/
theorem ofText_programText_written {lowered : Lowered} (plain : ∀ remark ∈ lowered.placedRemarks,
      ¬Symbol.word .lineFeed <:+: decorationText remark)
    (assembled : text = String.ofList (lowered.render ++ spell (Instruction.flow .exit).encode)) :
    Program.ofText (programText (if annotated then annotate text else text)) = Program.ofText text := by
  have unbracketed : isBracketed text = false := by
    rw [assembled, Bool.eq_false_iff, Ne, isBracketed_render_exit]
    rintro ⟨remark, placed, inside⟩
    exact plain remark placed inside
  cases annotated with
  | false =>
      simp only [Bool.false_eq_true, if_false]
      rw [programText, unbracketed]
      rfl
  | true =>
      simp only [if_true]
      rw [programText, isBracketed_annotate, unbracketed]
      simp only [Bool.false_eq_true, if_false]
      have code : symbols text.toList = encodeProgram (lowered.instructions ++ [.flow .exit]) := by
        rw [assembled, String.toList_ofList, symbols_render_append_exit]
      rw [Program.ofText_of_symbols code, Program.ofText_of_symbols ((symbols_annotate text).trans code)]

/-- Compiling and then running is running the source: where no remark of the written text holds the word by
    which a bracketed text is known, the file that was written, annotated or not, runs as its source does, to
    the same output and the same exit code. -/
theorem run_written {turns' : Nat}
    (accepted : (perform turns' files stdin (.compile source target extensions annotated)).exit? = some 0)
    (plain : ∀ remark ∈ writtenRemarks files source extensions,
      ¬Symbol.word .lineFeed <:+: decorationText remark)
    (turns : Nat) (input : String) (input? : Option String) (extensions' : Bool) :
    let compiled := perform turns' files stdin (.compile source target extensions annotated)
    let run := perform turns compiled.files input (.run target false extensions' input?)
    let direct := perform turns files input (.run source true extensions input?)
    run.exit? = direct.exit? ∧ run.stdout = direct.stdout := by
  intro compiled run direct
  obtain ⟨text, files', assembled, written, result⟩ := exists_text_of_compile accepted
  obtain ⟨lowered, rendered, remarks⟩ := exists_lowered_of_assemble assembled
  rw [remarks] at plain
  have read := Files.Tree.readSource_of_write written
  have ran : run = execute turns files' (programText (if annotated then annotate text else text))
      (inputSource input? input) := by
    simp only [run, show compiled.files = files' from result]
    simp only [perform, loadText, Bool.false_eq_true, if_false, read]
  have went : direct = execute turns files text (inputSource input? input) := by
    simp only [direct, perform, loadText, if_true, assembled]
  rw [ran, went]
  exact execute_congr (ofText_programText_written plain rendered)

/-- How a source that asks for no other is lowered, whatever other sources there are. -/
theorem lowerSource_of_unasking {catalogue : Catalogue} {options : Options} {lines : List Line}
    {lowered : Lowered} (order : List Nat)
    (sound : ∀ line ∈ pendingLines mainSource text, line.flaw? (fun _ => .ok "") = none)
    (unasking : includedNames (pendingLines mainSource text) = [])
    (kept : (pendingLines mainSource text).flatMap PendingLine.kept = lines)
    (search : isSearchOrder lines order = true)
    (accepted : (lower { options } (pick order.contains 0 lines)).1 = .ok lowered) :
    (lowerSource catalogue { options } text).1 = .ok lowered := by
  refine lowerSource_eq_ok_iff.2 ⟨_, lines, expands_plain _ sound unasking kept, ?_⟩
  rw [reachableLines_of_isSearchOrder search]
  exact accepted

/-- The file that is written holds the lowered instructions and an exit, with the remarks at their places. -/
theorem assemble_of_lowerSource {lowered : Lowered} (read : files.readSource source = .ok text)
    (lower : ∀ catalogue, (lowerSource catalogue { options := { extensions } } text).1 = .ok lowered) :
    assemble files source extensions =
        .ok (String.ofList (lowered.render ++ spell (Instruction.flow .exit).encode)) ∧
      writtenRemarks files source extensions = lowered.placedRemarks := by
  unfold assemble writtenRemarks
  simp only [read, compileWithExit_eq, lower, Except.map, Except.mapError, and_self]

/-- A program that writes a number, with a remark. -/
def remarked (remark : String) : String := ";#; " ++ remark ++ "\npush 1\noutn"

def remarkedCode (remark : String) : Lowered := ⟨[pushOf 1, .io .writeNumber], [remark]⟩

def remarkedTree (remark : String) : Files.Tree :=
  ({} : Files.Tree).setFile ["a.wsa"] (remarked remark).toUTF8

theorem readSource_remarkedTree (remark : String) :
    (remarkedTree remark).readSource "a.wsa" = .ok (remarked remark) :=
  Files.Tree.readSource_of_write (t := {}) rfl

/-- A program with a remark that is annotated on the way to its file, and then run. -/
theorem run_written_annotated :
    let compiled := perform 0 (remarkedTree "one") "" (.compile "a.wsa" "b.ws" false true)
    compiled.exit? = some 0 ∧
      (∀ remark ∈ writtenRemarks (remarkedTree "one") "a.wsa" false,
        ¬Symbol.word .lineFeed <:+: decorationText remark) ∧
      (perform 9 compiled.files "" (.run "b.ws" false false none)).exit? = some 0 ∧
      (perform 9 compiled.files "" (.run "b.ws" false false none)).stdout = "1" := by
  intro compiled
  have lower : ∀ catalogue, (lowerSource catalogue {} (remarked "one")).1 = .ok (remarkedCode "one") :=
    fun catalogue => lowerSource_of_unasking [0, 1, 2] (by decide +kernel) (by decide +kernel) rfl
      (by decide +kernel) (by decide +kernel)
  obtain ⟨assembled, remarks⟩ := assemble_of_lowerSource (readSource_remarkedTree "one") lower
  have accepted : compiled.exit? = some 0 := by
    simp only [compiled, perform, assembled]
    rfl
  have plain : ∀ remark ∈ writtenRemarks (remarkedTree "one") "a.wsa" false,
      ¬Symbol.word .lineFeed <:+: decorationText remark := by
    rw [remarks]
    decide +kernel
  obtain ⟨exit, stdout⟩ := run_written accepted plain 9 "" none false
  refine ⟨accepted, plain, exit.trans ?_, stdout.trans ?_⟩
  all_goals
    simp only [perform, loadText, if_true, assembled, execute, ofText_render_exit]
    decide +kernel

/-- A remark can hold the word for a line feed. What is written is then taken for a bracketed text, in which
    nothing but the line feed is a symbol, and fails, while the source runs. -/
theorem run_written_disguised :
    let compiled := perform 0 (remarkedTree "[LF]") "" (.compile "a.wsa" "b.ws" false false)
    let run := perform 9 compiled.files "" (.run "b.ws" false false none)
    let direct := perform 9 (remarkedTree "[LF]") "" (.run "a.wsa" true false none)
    compiled.exit? = some 0 ∧ run.exit? = some 1 ∧ run.stdout = "" ∧
      direct.exit? = some 0 ∧ direct.stdout = "1" := by
  intro compiled run direct
  have lower : ∀ catalogue, (lowerSource catalogue {} (remarked "[LF]")).1 = .ok (remarkedCode "[LF]") :=
    fun catalogue => lowerSource_of_unasking [0, 1, 2] (by decide +kernel) (by decide +kernel) rfl
      (by decide +kernel) (by decide +kernel)
  obtain ⟨assembled, -⟩ := assemble_of_lowerSource (readSource_remarkedTree "[LF]") lower
  have accepted : compiled.exit? = some 0 := by
    simp only [compiled, perform, assembled]
    rfl
  obtain ⟨text, files', assembled', written, result⟩ := exists_text_of_compile accepted
  cases assembled.symm.trans assembled'
  have read := Files.Tree.readSource_of_write written
  simp only [Bool.false_eq_true, if_false] at read
  have ran := @execute_congr 9 files' {} (programText (String.ofList ((remarkedCode "[LF]").render ++
    spell (Instruction.flow .exit).encode))) _ (inputSource none "") rfl
  refine ⟨accepted, ?_⟩
  simp only [run, direct, show compiled.files = files' from result]
  simp only [perform, loadText, Bool.false_eq_true, if_false, if_true, read, assembled, ran]
  decide +kernel

end CommandLine

end Whitespace
