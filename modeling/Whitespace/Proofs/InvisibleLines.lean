/-
Module: Whitespace.Proofs.InvisibleLines
Purpose: Blank lines, comments and remarks are invisible from the source to the program that is read
  back. Remarks stand in a program text without a symbol, and so do the letters of an annotated text; so
  a text that has more of such lines compiles to a text of the same program.
Main exports: symbols_render, symbols_annotate, lowerSource_of_insertsSilence,
  compileWithExit_of_insertsSilence
-/
import Mathlib.Data.List.TakeWhile
import Whitespace.Assembly.Compile
import Whitespace.Bytecode.Spelling
import Whitespace.Proofs.RoundTrip
import Whitespace.Proofs.SilentLines

namespace Whitespace

/-! ### Symbols of a program text -/

theorem symbols_append (before after : List Char) :
    symbols (before ++ after) = symbols before ++ symbols after :=
  List.filterMap_append

theorem symbols_annotateChar (c : Char) : symbols (annotateChar c) = symbols [c] := by
  unfold annotateChar
  cases read : Symbol.ofChar? c with
  | none => rfl
  | some s =>
      have letter : Symbol.ofChar? s.annotation = none := by cases s <;> decide
      exact List.filterMap_cons_none letter

/-- The letters of an annotated text are comments. -/
theorem symbols_annotate (text : String) : symbols (annotate text).toList = symbols text.toList := by
  unfold annotate
  rw [String.toList_ofList]
  induction text.toList with
  | nil => rfl
  | cons c rest ih =>
      rw [List.flatMap_cons, symbols_append, symbols_annotateChar, ih, ← symbols_append]
      rfl

namespace Assembly

/-- No character of a remark leaves a symbol in the text. -/
theorem symbols_decorationChar (c : Char) : symbols (decorationChar c) = [] := by
  unfold decorationChar
  split
  · decide
  · split
    · decide
    · split
      · rfl
      · next tab space lineFeed =>
          apply List.filterMap_cons_none
          unfold Symbol.ofChar?
          rw [if_neg space, if_neg tab, if_neg lineFeed]

/-- A remark holds no symbol, whatever its text. -/
theorem symbols_decorationText (text : String) : symbols (decorationText text) = [] := by
  unfold decorationText
  induction text.toList with
  | nil => rfl
  | cons c rest ih => rw [List.flatMap_cons, symbols_append, symbols_decorationChar, ih, List.append_nil]

/-- A remark goes in front of the first line, and the other remarks into the lines after it. -/
theorem decorate_cons_cases (remark : String) (more : List String) (code : List Char) :
    ('\n' ∉ code ∧ decorate (remark :: more) code = decorationText remark ++ code) ∨
      ∃ line rest, '\n' ∉ line ∧ code = line ++ '\n' :: rest ∧
        decorate (remark :: more) code = decorationText remark ++ line ++ '\n' :: decorate more rest := by
  have whole := List.takeWhile_append_dropWhile (p := (· ≠ '\n')) (l := code)
  have line : '\n' ∉ code.takeWhile (· ≠ '\n') := by
    intro member
    simpa using List.mem_takeWhile_imp member
  have stop := List.head?_dropWhile_not (· ≠ '\n') code
  rw [decorate]
  cases dropped : code.dropWhile (· ≠ '\n') with
  | nil =>
      rw [dropped, List.append_nil] at whole
      rw [whole] at line ⊢
      exact .inl ⟨line, List.append_nil _⟩
  | cons lineFeed rest =>
      rw [dropped] at whole stop
      obtain rfl : lineFeed = '\n' := by simpa using stop
      exact .inr ⟨_, rest, line, whole.symm, rfl⟩

/-- Remarks add no symbols to the code. -/
theorem symbols_decorate (remarks : List String) (code : List Char) :
    symbols (decorate remarks code) = symbols code := by
  induction remarks generalizing code with
  | nil => rfl
  | cons remark more ih =>
      rcases decorate_cons_cases remark more code with ⟨-, text⟩ | ⟨line, rest, -, rfl, text⟩
      · rw [text, symbols_append, symbols_decorationText, List.nil_append]
      · have lineFeed (text : List Char) : symbols ('\n' :: text) = .lineFeed :: symbols text := rfl
        rw [text, symbols_append, symbols_append, symbols_decorationText, List.nil_append, symbols_append,
          lineFeed, lineFeed, ih]

/-- The symbols of a compiled program are its code, whatever its remarks are. -/
theorem symbols_render (lowered : Lowered) :
    symbols lowered.render = encodeProgram lowered.instructions := by
  unfold Lowered.render
  rw [symbols_decorate, symbols_spell]

theorem symbols_render_append_exit (lowered : Lowered) :
    symbols (lowered.render ++ spell (Instruction.flow .exit).encode) =
      encodeProgram (lowered.instructions ++ [.flow .exit]) := by
  rw [symbols_append, symbols_render, symbols_spell, encodeProgram, encodeProgram, List.flatMap_append]
  rfl

/-! ### Compilation -/

section

variable {catalogue : Catalogue} {options : Options} {text more : String}

/-- Lowering depends on the options, the labels and the variables of a context, not on its sources. -/
theorem lower_fresh {ctx : Context} (labels : ctx.labels = {}) (bindings : ctx.bindings = [])
    (lines : List Line) : (lower ctx lines).1 = (lower { options := ctx.options } lines).1 := by
  unfold lower
  rw [labels, bindings]
  simp only
  split
  · rfl
  · split <;> rfl

/-- Following includes changes nothing of a context but the sources included. -/
theorem Expands.context_eq {ctx ctx' : Context} {pending : List PendingLine} {lines : List Line}
    (h : Expands catalogue ctx pending ctx' lines) :
    ctx'.options = ctx.options ∧ ctx'.labels = ctx.labels ∧ ctx'.bindings = ctx.bindings := by
  induction h with
  | done ctx => exact ⟨rfl, rfl, rfl⟩
  | kept _ _ _ ih => exact ih
  | again _ _ _ _ _ ih => exact ih
  | fresh _ _ _ _ _ _ ih => exact ih

theorem pendingSayings_eq (pending : List PendingLine) :
    pendingSayings pending = (pending.map PendingLine.text).filterMap significant? := by
  rw [List.filterMap_map]
  rfl

theorem map_text_pendingLines (source text : String) :
    (pendingLines source text).map PendingLine.text = Text.lines text := by
  unfold pendingLines Text.stampedLines
  rw [List.map_map, List.map_map]
  exact List.zipIdx_map_fst 0 (Text.lines text)

theorem pendingSayings_pendingLines (source text : String) :
    pendingSayings (pendingLines source text) = sayings text.toList := by
  rw [pendingSayings_eq, map_text_pendingLines]
  rfl

/-- A source compiles when its includes can be followed and the lines that are left can be lowered. -/
theorem lowerSource_eq_ok_iff {lowered : Lowered} :
    (lowerSource catalogue { options } text).1 = .ok lowered ↔
      ∃ ctx lines, Expands catalogue { options } (pendingLines mainSource text) ctx lines ∧
        (lower { options } (reachableLines lines)).1 = .ok lowered := by
  have fresh : ∀ {ctx lines}, Expands catalogue { options } (pendingLines mainSource text) ctx lines →
      (lower ctx (reachableLines lines)).1 = (lower { options } (reachableLines lines)).1 := by
    intro ctx lines expanded
    obtain ⟨same, labels, bindings⟩ := expanded.context_eq
    rw [lower_fresh labels bindings, same]
  unfold lowerSource expandSource
  constructor
  · intro h
    cases expansion : expand catalogue { options } (pendingLines mainSource text) with
    | error e =>
        rw [expansion] at h
        cases h
    | ok result =>
        obtain ⟨ctx, lines⟩ := result
        rw [expansion] at h
        have expanded := expand_eq_ok_iff.1 expansion
        exact ⟨ctx, lines, expanded, (fresh expanded).symm.trans h⟩
  · rintro ⟨ctx, lines, expanded, h⟩
    rw [expand_eq_ok_iff.2 expanded]
    exact (fresh expanded).trans h

/-- More silent lines in a source change nothing of the instructions. -/
theorem lowerSource_of_insertsSilence {lowered : Lowered}
    (compiled : (lowerSource catalogue { options } text).1 = .ok lowered)
    (inserted : InsertsSilence text.toList more.toList) :
    ∃ lowered', (lowerSource catalogue { options } more).1 = .ok lowered' ∧
      lowered'.instructions = lowered.instructions := by
  obtain ⟨ctx, lines, expanded, hlower⟩ := lowerSource_eq_ok_iff.1 compiled
  have same : pendingSayings (pendingLines mainSource more) =
      pendingSayings (pendingLines mainSource text) := by
    rw [pendingSayings_pendingLines, pendingSayings_pendingLines, sayings_of_insertsSilence inserted]
  obtain ⟨lines', expanded', said⟩ := expanded.congr same
  obtain ⟨lowered', hlower', instructions⟩ := exists_lowered_of_sayings hlower said
  exact ⟨lowered', lowerSource_eq_ok_iff.2 ⟨ctx, lines', expanded', hlower'⟩, instructions⟩

/-- Blank lines, comments and remarks, put anywhere between the lines of a source that compiles, leave
    it a source that compiles. The program text with the exit appended, as it is or annotated, is read
    as the instructions of the first source and the exit. -/
theorem compileWithExit_of_insertsSilence {lowered : Lowered}
    (compiled : (lowerSource catalogue { options } text).1 = .ok lowered)
    (inserted : InsertsSilence text.toList more.toList) :
    (∃ code, compile catalogue options more = .ok code) ∧
      ∃ code, compileWithExit catalogue options more = .ok code ∧
        parseProgram code = .ok (lowered.instructions ++ [.flow .exit]) ∧
        parseProgram (annotate code) = .ok (lowered.instructions ++ [.flow .exit]) := by
  obtain ⟨lowered', compiled', same⟩ := lowerSource_of_insertsSilence compiled inserted
  refine ⟨⟨_, compile_of_lowerSource compiled'⟩, _, compileWithExit_of_lowerSource compiled', ?_, ?_⟩
  · apply parseProgram_of_symbols
    rw [String.toList_ofList, symbols_render_append_exit, same]
  · apply parseProgram_of_symbols
    rw [symbols_annotate, String.toList_ofList, symbols_render_append_exit, same]

/-- A source of two lines with a remark between them and a blank line at the end. -/
theorem compileWithExit_remarked :
    let program : List Instruction := [pushOf 1, .io .writeNumber, .flow .exit]
    (∃ code, compile .empty {} "push 1\n;#; a\tb\noutn\n " = .ok code) ∧
      ∃ code, compileWithExit .empty {} "push 1\n;#; a\tb\noutn\n " = .ok code ∧
        parseProgram code = .ok program ∧ parseProgram (annotate code) = .ok program := by
  let lines : List Line :=
    [⟨"main", 1, [.word "push", .integer 1]⟩, ⟨"main", 2, [.word "outn"]⟩]
  have push : tokenize "push 1".toList = .ok [.word "push", .integer 1] := by decide +kernel
  have write : tokenize "outn".toList = .ok [.word "outn"] := by decide +kernel
  have cut : pendingLines mainSource "push 1\noutn" =
      [⟨"main", 1, "push 1".toList⟩, ⟨"main", 2, "outn".toList⟩] := by decide +kernel
  have expanded : Expands .empty {} (pendingLines mainSource "push 1\noutn") {} lines := by
    rw [cut]
    have last := @Expands.kept .empty _ _ ⟨"main", 2, _⟩ _ _ _ write rfl (.done {})
    exact @Expands.kept .empty _ _ ⟨"main", 1, _⟩ _ _ _ push rfl last
  have first : Live (lines.map Line.conduct) 0 := .first rfl
  have second : Live (lines.map Line.conduct) 1 := .following first rfl (by decide +kernel) rfl
  have reachable : reachableLines lines = lines := by
    have kept : keptPlaces lines 0 = true ∧ keptPlaces lines 1 = true :=
      ⟨keptPlaces_iff.2 (.inr first), keptPlaces_iff.2 (.inr second)⟩
    rw [reachableLines_eq_pick]
    simp only [lines, pick, kept, if_true]
  have compiled : (lowerSource .empty {} "push 1\noutn").1 = .ok ⟨[pushOf 1, .io .writeNumber], []⟩ := by
    refine lowerSource_eq_ok_iff.2 ⟨{}, lines, expanded, ?_⟩
    rw [reachable]
    decide +kernel
  have inserted : InsertsSilence "push 1\noutn".toList "push 1\n;#; a\tb\noutn\n ".toList := by
    have remark : SilentLine ";#; a\tb".toList := ⟨by decide, .inr ⟨_, rfl⟩⟩
    have blank : SilentLine " ".toList := ⟨by decide, .inl (by decide)⟩
    have between : InsertsLine ";#; a\tb".toList "push 1\noutn".toList "push 1\n;#; a\tb\noutn".toList :=
      .between "push 1".toList "outn".toList
    have after : InsertsLine " ".toList "push 1\n;#; a\tb\noutn".toList
        "push 1\n;#; a\tb\noutn\n ".toList := .last _
    exact .tail (.tail .refl ⟨_, remark, between⟩) ⟨_, blank, after⟩
  exact compileWithExit_of_insertsSilence compiled inserted

end

end Assembly

end Whitespace
