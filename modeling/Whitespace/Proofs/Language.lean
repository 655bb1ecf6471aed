/-
Module: Whitespace.Proofs.Language
Purpose: The texts that are programs. A text is read as a program exactly if its spaces, tabs and line
  feeds, in their order, can be split into words for the instructions of the program; there is one such
  split at most. The codes of the instructions are words too, so the program can be written again and is
  read as before.
Main exports: Splits, exists_words_of_parseMarks, parseProgram_accepts_words
-/
import Whitespace.Proofs.RoundTrip

namespace Whitespace

/-- The spaces, tabs and line feeds of the text are those of the words, one word for each instruction of
    the program. -/
structure Splits (text : String) (program : List Instruction) (words : List (List Symbol)) : Prop where
  spelled : text.toList.filter isSymbol = spell words.flatten
  each : List.Forall₂ Instruction.Word program words

/-- Marks that are read to the end are words of the instructions that were read. -/
theorem exists_words_of_parseMarks {stop : Nat} {marks : List Mark}
    (whole : (parseMarks stop marks).error? = none) :
    ∃ words, List.Forall₂ Instruction.Word (parseMarks stop marks).instructions words ∧
      marks.map Mark.symbol = words.flatten := by
  fun_induction parseMarks stop marks with
  | case1 => exact ⟨[], .nil, rfl⟩
  | case2 m rest e read => cases whole
  | case3 m rest i left read shorter tail ih =>
      obtain ⟨words, each, spelled⟩ := ih whole
      obtain ⟨word, split, first⟩ := exists_word_of_readInstruction read
      refine ⟨word.map Mark.symbol :: words, .cons first each, ?_⟩
      rw [split, List.map_append, spelled, List.flatten_cons]

theorem symbols_eq_iff {text : List Char} {code : List Symbol} :
    symbols text = code ↔ text.filter isSymbol = spell code := by
  constructor
  · rintro rfl
    exact (spell_symbols text).symm
  · intro spelled
    rw [← symbols_spell code, ← spelled, ← spell_symbols, symbols_spell]

/-- A text is read as a program when it can be split into words for it, and only then. -/
theorem parseProgram_eq_ok_iff {text : String} {program : List Instruction} :
    parseProgram text = .ok program ↔ ∃ words, Splits text program words := by
  have scanned := map_symbol_scan 0 text.toList
  rw [parseProgram_eq_ok_iff_scan]
  constructor
  · intro read
    have whole : (scanProgram text).error? = none := by rw [read]
    obtain ⟨words, each, spelled⟩ := exists_words_of_parseMarks whole
    rw [scanned, symbols_eq_iff] at spelled
    have instructions : (scanProgram text).instructions = program := by rw [read]
    exact ⟨words, spelled, instructions ▸ each⟩
  · rintro ⟨words, spelled, each⟩
    exact parseMarks_words _ each (scanned.trans (symbols_eq_iff.2 spelled))

/-- Symbols are split into words in one way only. -/
theorem words_unique {program program' : List Instruction} {words words' : List (List Symbol)}
    (each : List.Forall₂ Instruction.Word program words)
    (each' : List.Forall₂ Instruction.Word program' words') (same : words.flatten = words'.flatten) :
    program = program' ∧ words = words' := by
  have nonempty {i : Instruction} {word rest : List Symbol} (first : i.Word word) :
      word ++ rest ≠ [] := by
    obtain ⟨operand, -, rfl⟩ := first
    cases category : i.category <;> simp [Category.code]
  induction each generalizing program' words' with
  | nil =>
      cases each' with
      | nil => exact ⟨rfl, rfl⟩
      | cons first _ => exact absurd same.symm (nonempty first)
  | cons first _ ih =>
      cases each' with
      | nil => exact absurd same (nonempty first)
      | cons first' others' =>
          obtain ⟨rfl, rfl, rests⟩ := first.unique first' same
          obtain ⟨rfl, rfl⟩ := ih others' rests
          exact ⟨rfl, rfl⟩

/-- A text is read as a program exactly if its spaces, tabs and line feeds split into words for the
    instructions of the program. The split is the only one that there is, for any program, and the code of
    the program is read as the program again. -/
theorem parseProgram_accepts_words (text : String) (program : List Instruction) :
    (parseProgram text = .ok program ↔ ∃ words, Splits text program words) ∧
      (∀ words other words', Splits text program words → Splits text other words' →
        program = other ∧ words = words') ∧
      parseProgram (String.ofList (spell (encodeProgram program))) = .ok program := by
  refine ⟨parseProgram_eq_ok_iff, ?_, ?_⟩
  · intro words other words' split split'
    apply words_unique split.each split'.each
    rw [← symbols_eq_iff.2 split.spelled, ← symbols_eq_iff.2 split'.spelled]
  · apply parseProgram_of_symbols
    rw [String.toList_ofList, symbols_spell]

/-- A negative zero, a one with zeros in front, and a label without digits. -/
theorem parseProgram_accepts_words_padded :
    Splits "0  \t\n1\t\t 2  \t  \t\n3\n  \n"
        [.stack (.push 0), .heap .store, .stack (.push (-1)), .flow (.mark ⟨0⟩)]
        [[.space, .space, .tab, .lineFeed], [.tab, .tab, .space],
          [.space, .space, .tab, .space, .space, .tab, .lineFeed],
          [.lineFeed, .space, .space, .lineFeed]] ∧
      parseProgram "0  \t\n1\t\t 2  \t  \t\n3\n  \n" =
        .ok [.stack (.push 0), .heap .store, .stack (.push (-1)), .flow (.mark ⟨0⟩)] := by
  have zero : NaturalWord [.lineFeed] 0 := @NaturalWord.digits [] nofun
  have one : NaturalWord [.space, .space, .tab, .lineFeed] 1 :=
    @NaturalWord.digits [.space, .space, .tab] (by decide)
  have split : Splits "0  \t\n1\t\t 2  \t  \t\n3\n  \n"
      [.stack (.push 0), .heap .store, .stack (.push (-1)), .flow (.mark ⟨0⟩)]
      [[.space, .space, .tab, .lineFeed], [.tab, .tab, .space],
        [.space, .space, .tab, .space, .space, .tab, .lineFeed],
        [.lineFeed, .space, .space, .lineFeed]] := by
    refine ⟨by decide +kernel, .cons ?_ (.cons ?_ (.cons ?_ (.cons ?_ .nil)))⟩
    · exact ⟨_, .tab zero, rfl⟩
    · exact ⟨[], rfl, rfl⟩
    · exact ⟨_, .tab one, rfl⟩
    · exact ⟨_, zero, rfl⟩
  exact ⟨split, (parseProgram_accepts_words _ _).1.2 ⟨_, split⟩⟩

end Whitespace
