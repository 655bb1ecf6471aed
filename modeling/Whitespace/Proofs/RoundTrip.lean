/-
Module: Whitespace.Proofs.RoundTrip
Purpose: Reading a program text undoes writing it, whatever comments stand between its symbols. The
  code of an instruction is one of its words, the one with a canonical operand, and marks that spell
  words one after another are read as their instructions.
Main exports: Instruction.encode_word, parseMarks_words, parseMarks_encodeProgram, parseProgram_of_symbols
-/
import Mathlib.Data.List.Forall2
import Whitespace.Proofs.Grammar

namespace Whitespace

/-! ### Codes -/

theorem encodeDigit_ne_lineFeed (digit : Nat) : encodeDigit digit ≠ .lineFeed := by
  unfold encodeDigit
  split <;> simp

/-- The written digits of a number denote the number. -/
theorem bitsOnto_binaryDigits (n : Nat) : bitsOnto 0 ((binaryDigits n).map encodeDigit) = n := by
  induction n using Nat.strongRecOn with
  | ind n ih =>
      rw [binaryDigits_eq]
      split
      · next small =>
          obtain rfl | rfl : n = 0 ∨ n = 1 := by omega
          · rfl
          · rfl
      · next large =>
          have half := ih (n / 2) (by omega)
          rw [List.map_append, bitsOnto_append, half]
          -- what is left is the last digit
          obtain even | odd : n % 2 = 0 ∨ n % 2 = 1 := by omega
          · simp [encodeDigit, even]
            omega
          · simp [encodeDigit, odd]
            omega

/-- The encoding of a natural number is a word that spells it. -/
theorem naturalWord_encodeNatural (n : Nat) : NaturalWord (encodeNatural n) n := by
  have digits : ∀ s ∈ (binaryDigits n).map encodeDigit, s ≠ .lineFeed := by
    intro s hs
    obtain ⟨d, -, rfl⟩ := List.mem_map.1 hs
    exact encodeDigit_ne_lineFeed d
  have word := NaturalWord.digits digits
  rw [bitsOnto_binaryDigits] at word
  exact word

/-- The encoding of an integer is a word that spells it. -/
theorem integerWord_encodeInteger (n : Int) : IntegerWord (encodeInteger n) n := by
  have magnitude := naturalWord_encodeNatural n.natAbs
  unfold encodeInteger
  split
  · next negative =>
      have word := IntegerWord.tab magnitude
      rw [Int.ofNat_natAbs_of_nonpos (Int.le_of_lt negative), Int.neg_neg] at word
      exact word
  · next positive =>
      have word := IntegerWord.space magnitude
      rw [Int.natAbs_of_nonneg (Int.not_lt.1 positive)] at word
      exact word

/-- The code of an instruction is a word for it. -/
theorem Instruction.encode_word (i : Instruction) : i.Word i.encode := by
  match i with
  | .stack (.push n) | .stack (.copy n) | .stack (.slide n) =>
      exact ⟨encodeInteger n, integerWord_encodeInteger n, rfl⟩
  | .flow (.mark l) | .flow (.call l) | .flow (.jump l) | .flow (.jumpZero l)
  | .flow (.jumpNegative l) => exact ⟨encodeNatural l.number, naturalWord_encodeNatural l.number, rfl⟩
  | .stack .duplicate | .stack .swap | .stack .discard | .flow .ret | .flow .exit
  | .flow .breakpoint => exact ⟨[], rfl, rfl⟩
  | .arithmetic c | .heap c | .io c => cases c <;> exact ⟨[], rfl, rfl⟩

/-! ### Programs -/

/-- An instruction that can be read is followed by what the rest gives. -/
theorem parseMarks_cons {stop : Nat} {m : Mark} {rest left : List Mark} {i : Instruction}
    (h : readInstruction stop m.symbol rest = .ok (i, left)) :
    parseMarks stop (m :: rest) =
      { parseMarks stop left with instructions := i :: (parseMarks stop left).instructions } := by
  rw [parseMarks]
  split
  · next e he =>
      rw [h] at he
      cases he
  · next j left' he =>
      rw [h] at he
      cases he
      rfl

/-- Marks that spell words one after another are read as the instructions of the words. -/
theorem parseMarks_words (stop : Nat) {program : List Instruction} {words : List (List Symbol)}
    (each : List.Forall₂ Instruction.Word program words) {marks : List Mark}
    (spelled : marks.map Mark.symbol = words.flatten) : parseMarks stop marks = ⟨program, none⟩ := by
  induction each generalizing marks with
  | nil =>
      obtain rfl := List.map_eq_nil_iff.1 spelled
      rw [parseMarks]
  | cons first _ ih =>
      obtain ⟨word, left, rfl, rfl, hleft⟩ := List.map_eq_append_iff.1 spelled
      obtain ⟨m, more, rfl, read⟩ := readInstruction_word stop first
      rw [List.cons_append, parseMarks_cons (read left), ih hleft]

theorem encodeProgram_words (program : List Instruction) :
    List.Forall₂ Instruction.Word program (program.map Instruction.encode) :=
  List.forall₂_map_right_iff.2 (List.forall₂_same.2 fun i _ => i.encode_word)

/-- Marks that spell the code of a program are read as the program. -/
theorem parseMarks_encodeProgram (stop : Nat) {program : List Instruction} {marks : List Mark}
    (spelled : marks.map Mark.symbol = encodeProgram program) :
    parseMarks stop marks = ⟨program, none⟩ :=
  parseMarks_words stop (encodeProgram_words program) spelled

/-- A text is a program when reading it meets no fault. -/
theorem parseProgram_eq_ok_iff_scan {program : List Instruction} {text : String} :
    parseProgram text = .ok program ↔ scanProgram text = ⟨program, none⟩ := by
  unfold parseProgram
  rcases scanProgram text with ⟨instructions, _ | e⟩ <;> simp

theorem parseProgram_eq_error_iff_scan {e : ParseError} {text : String} :
    parseProgram text = .error e ↔ (scanProgram text).error? = some e := by
  unfold parseProgram
  rcases scanProgram text with ⟨instructions, _ | e'⟩ <;> simp

/-- A text whose symbols are the code of a program is read as the program. -/
theorem parseProgram_of_symbols {program : List Instruction} {text : String}
    (spelled : symbols text.toList = encodeProgram program) : parseProgram text = .ok program :=
  parseProgram_eq_ok_iff_scan.2
    (parseMarks_encodeProgram _ ((map_symbol_scan 0 text.toList).trans spelled))

def isSymbol (c : Char) : Bool := c = ' ' || c = '\t' || c = '\n'

/-- The symbols of a text, spelled, are its characters that count. -/
theorem spell_symbols (text : List Char) : spell (symbols text) = text.filter isSymbol := by
  induction text with
  | nil => rfl
  | cons c rest ih =>
      have tail : symbols (c :: rest) = (Symbol.ofChar? c).toList ++ symbols rest := by
        cases h : Symbol.ofChar? c <;> simp [symbols, h]
      rw [tail, spell, List.map_append, ← spell, ← spell, ih]
      by_cases space : c = ' '
      · subst space; rfl
      · by_cases tab : c = '\t'
        · subst tab; rfl
        · by_cases lineFeed : c = '\n'
          · subst lineFeed; rfl
          · simp [Symbol.ofChar?, isSymbol, space, tab, lineFeed, spell]

/-- Spaces, tabs and line feeds are all that is read of a text: if those of the text, in their order,
    are the code of a program, then the text is read as exactly that program, whatever other characters
    stand before, between and after them. -/
theorem parseProgram_eq_of_filter_eq_spell {program : List Instruction} {text : String}
    (spelled : text.toList.filter isSymbol = spell (encodeProgram program)) :
    parseProgram text = .ok program := by
  have same : spell (symbols text.toList) = spell (encodeProgram program) :=
    (spell_symbols _).trans spelled
  have symbolsEq := congrArg symbols same
  rw [symbols_spell, symbols_spell] at symbolsEq
  exact parseProgram_of_symbols symbolsEq

/-- A negative operand with comments inside its digits, one of them wider than a byte. -/
theorem parseProgram_commented :
    "é  \tx\t→ \t\n\n\n\nend".toList.filter isSymbol =
        spell (encodeProgram [.stack (.push (-5)), .flow .exit]) ∧
      parseProgram "é  \tx\t→ \t\n\n\n\nend" = .ok [.stack (.push (-5)), .flow .exit] :=
  have spelled : "é  \tx\t→ \t\n\n\n\nend".toList.filter isSymbol =
      spell (encodeProgram [.stack (.push (-5)), .flow .exit]) := by decide +kernel
  ⟨spelled, parseProgram_eq_of_filter_eq_spell spelled⟩

end Whitespace
