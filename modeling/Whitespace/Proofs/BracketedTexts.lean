/-
Module: Whitespace.Proofs.BracketedTexts
Purpose: Bracketed texts are decoded in one pass. The words for the symbols are replaced one word after
  another, each in what the others left; yet this is what one scan from left to right gives that looks for
  all of them, in whatever order they are taken. For no word is the start of another, a word has its only
  opening bracket in front, and no symbol stands in a word, so nothing that was replaced or kept makes or
  breaks a word. Hence a text whose words spell the symbols of a program, with layout anywhere and remarks
  between the words, reads as the program does: what is read of a text depends on its symbols alone, but for
  the places of its faults.
Main exports: decodeWords, decodeWord_decodeWords, foldl_decodeWord_of_forall_mem, Bracketed,
  symbols_decodeBracketed, ReadAlike, scanProgram_alike, decodeBracketed_single_pass
-/
import Mathlib.Data.List.Forall2
import Whitespace.Bytecode.Spelling
import Whitespace.Proofs.JoinedTexts

namespace Whitespace

/-! ### One pass -/

/-- The symbol among those given whose word stands at the front of the text. -/
def leadingWord? (known : List Symbol) (text : List Char) : Option Symbol :=
  known.find? (·.word.isPrefixOf text)

/-- One scan from left to right for the words of several symbols. A word that is met is replaced by its
    symbol and passed over; any other character is kept. -/
def decodeWords (known : List Symbol) : List Char → List Char
  | [] => []
  | c :: rest =>
    match leadingWord? known (c :: rest) with
    | some s => s.toChar :: decodeWords known (rest.drop (s.word.length - 1))
    | none => c :: decodeWords known rest
termination_by text => text.length
decreasing_by
  · rw [List.length_drop, List.length_cons]
    omega
  · exact Nat.lt_succ_self rest.length

/-! ### Words -/

namespace Symbol

def all : List Symbol := [.space, .tab, .lineFeed]

theorem mem_all (s : Symbol) : s ∈ all := by
  cases s <;> decide

/-- A word is its opening bracket and a part without one. -/
theorem exists_word_eq (s : Symbol) : ∃ name, s.word = '[' :: name ∧ '[' ∉ name := by
  cases s <;> exact ⟨_, rfl, by decide⟩

theorem toChar_ne_bracket (s : Symbol) : s.toChar ≠ '[' := by
  cases s <;> decide

/-- No two words stand at the same place. -/
theorem word_unique {s t : Symbol} {text : List Char} (hs : s.word <+: text) (ht : t.word <+: text) :
    s = t := by
  have nested := List.prefix_or_prefix_of_prefix hs ht
  cases s <;> cases t <;> first | rfl | exact absurd nested (by decide)

/-- A word stands only where there is an opening bracket. -/
theorem head_of_word_prefix {s : Symbol} {c : Char} {text : List Char} (front : s.word <+: c :: text) :
    c = '[' := by
  obtain ⟨name, word, -⟩ := s.exists_word_eq
  rw [word, List.cons_prefix_cons] at front
  exact front.1.symm

end Symbol

/-! ### Scanning -/

variable {known : List Symbol} {s : Symbol} {c : Char} {text rest : List Char}

@[simp] theorem decodeWords_nil (known : List Symbol) : decodeWords known [] = [] := by
  rw [decodeWords]

theorem leadingWord?_eq_some (found : leadingWord? known text = some s) : s ∈ known ∧ s.word <+: text := by
  rw [leadingWord?] at found
  have front := List.find?_some found
  exact ⟨List.mem_of_find?_eq_some found, List.isPrefixOf_iff_prefix.1 front⟩

theorem leadingWord?_eq_none_iff : leadingWord? known text = none ↔ ∀ s ∈ known, ¬s.word <+: text := by
  simp [leadingWord?, List.isPrefixOf_iff_prefix]

/-- There is at most one word to be found. -/
theorem leadingWord?_of_prefix (member : s ∈ known) (front : s.word <+: text) :
    leadingWord? known text = some s := by
  cases found : leadingWord? known text with
  | none => exact absurd front (leadingWord?_eq_none_iff.1 found s member)
  | some t => rw [Symbol.word_unique (leadingWord?_eq_some found).2 front]

/-- Where no word stands, the character is kept. -/
theorem decodeWords_cons (missing : ∀ s ∈ known, ¬s.word <+: c :: rest) :
    decodeWords known (c :: rest) = c :: decodeWords known rest := by
  rw [decodeWords, leadingWord?_eq_none_iff.2 missing]

/-- A word is replaced by its symbol. -/
theorem decodeWords_word_append (member : s ∈ known) (rest : List Char) :
    decodeWords known (s.word ++ rest) = s.toChar :: decodeWords known rest := by
  have found := leadingWord?_of_prefix member (List.prefix_append s.word rest)
  obtain ⟨name, word, -⟩ := s.exists_word_eq
  rw [word, List.cons_append] at found ⊢
  rw [decodeWords, found]
  simp [word]

/-- Characters that are no opening bracket are kept. -/
theorem decodeWords_append (plain : '[' ∉ text) (rest : List Char) :
    decodeWords known (text ++ rest) = text ++ decodeWords known rest := by
  induction text with
  | nil => rfl
  | cons c more ih =>
      rw [List.mem_cons, not_or] at plain
      rw [List.cons_append, decodeWords_cons, ih plain.2, List.cons_append]
      intro s _ front
      exact plain.1 (Symbol.head_of_word_prefix front).symm

/-- A word that the scan does not look for is kept. -/
theorem decodeWords_word_append_of_not_mem (other : s ∉ known) (rest : List Char) :
    decodeWords known (s.word ++ rest) = s.word ++ decodeWords known rest := by
  have missing : ∀ t ∈ known, ¬t.word <+: s.word ++ rest := by
    intro t member front
    exact other (Symbol.word_unique front (List.prefix_append ..) ▸ member)
  obtain ⟨name, word, plain⟩ := s.exists_word_eq
  rw [word, List.cons_append] at missing ⊢
  rw [decodeWords_cons missing, decodeWords_append plain, List.cons_append]

/-- A scan makes no part of a word: where characters that are no symbols stand after it, they stood before. -/
theorem prefix_of_prefix_decodeWords {part : List Char} (lacks : ∀ s : Symbol, s.toChar ∉ part)
    (front : part <+: decodeWords known text) : part <+: text := by
  induction part generalizing text with
  | nil => exact List.nil_prefix
  | cons d part ih =>
      cases text with
      | nil => simp at front
      | cons c rest =>
          rw [decodeWords] at front
          split at front
          · next s _ =>
              -- the symbol would be a character of the part
              exact absurd (List.cons_prefix_cons.1 front).1 fun same => lacks s (same ▸ List.mem_cons_self)
          · rw [List.cons_prefix_cons] at front ⊢
            exact ⟨front.1, ih (fun s member => lacks s (List.mem_cons_of_mem d member)) front.2⟩

/-! ### One word after another -/

/-- The rest of a word that was found is passed over. -/
theorem replaceWord_append (word : List Char) (mark : Char) (passed rest : List Char) :
    replaceWord word mark passed.length (passed ++ rest) = replaceWord word mark 0 rest := by
  induction passed with
  | nil => rfl
  | cons c passed ih => exact ih

/-- The word of a symbol at the front is replaced, and the rest is looked at by itself. -/
theorem decodeWord_word_append (s : Symbol) (rest : List Char) :
    decodeWord s (s.word ++ rest) = s.toChar :: decodeWord s rest := by
  obtain ⟨name, word, -⟩ := s.exists_word_eq
  have front : s.word.isPrefixOf ('[' :: (name ++ rest)) = true := by
    rw [← List.cons_append, ← word, List.isPrefixOf_iff_prefix]
    exact List.prefix_append ..
  have passed : s.word.length - 1 = name.length := by simp [word]
  rw [decodeWord, word, List.cons_append, ← word, replaceWord, if_pos front, passed, replaceWord_append]
  rfl

theorem decodeWord_cons (none : ¬s.word <+: c :: rest) :
    decodeWord s (c :: rest) = c :: decodeWord s rest := by
  have missing : ¬s.word.isPrefixOf (c :: rest) = true := by rwa [List.isPrefixOf_iff_prefix]
  rw [decodeWord, replaceWord, if_neg missing]
  rfl

/-- Replacing the word of one more symbol in what a scan gives is the scan for that word too. -/
theorem decodeWord_decodeWords (s : Symbol) (known : List Symbol) (text : List Char) :
    decodeWord s (decodeWords known text) = decodeWords (s :: known) text := by
  fun_induction decodeWords (s :: known) text with
  | case1 =>
      rw [decodeWords_nil]
      rfl
  | case2 c rest t found ih =>
      obtain ⟨member, after, split⟩ := leadingWord?_eq_some found
      have behind : rest.drop (t.word.length - 1) = after := by
        obtain ⟨name, word, -⟩ := t.exists_word_eq
        rw [word, List.cons_append] at split
        obtain ⟨-, rfl⟩ := List.cons_eq_cons.1 split
        simp [word]
      rw [behind] at ih ⊢
      rw [← split]
      by_cases earlier : t ∈ known
      · -- the scan has replaced the word, and its symbol starts no word
        rw [decodeWords_word_append earlier, decodeWord_cons, ih]
        intro front
        exact t.toChar_ne_bracket (Symbol.head_of_word_prefix front)
      · -- the scan has kept the word, and it is the one that is replaced now
        obtain rfl := (List.mem_cons.1 member).resolve_right earlier
        rw [decodeWords_word_append_of_not_mem earlier, decodeWord_word_append, ih]
  | case3 c rest missing ih =>
      rw [leadingWord?_eq_none_iff, List.forall_mem_cons] at missing
      rw [decodeWords_cons missing.2, decodeWord_cons, ih]
      -- a word that the scan has put together would have stood there before
      intro front
      obtain ⟨name, word, -⟩ := s.exists_word_eq
      have lacks (t : Symbol) : t.toChar ∉ name := fun member =>
        t.toChar_not_mem_word s (word ▸ List.mem_cons_of_mem _ member)
      rw [word, List.cons_prefix_cons] at front missing
      exact missing.1 ⟨front.1, prefix_of_prefix_decodeWords lacks front.2⟩

theorem decodeWords_none (text : List Char) : decodeWords [] text = text := by
  induction text with
  | nil => exact decodeWords_nil []
  | cons c rest ih => rw [decodeWords_cons (by simp), ih]

/-- Words that are replaced one after another are looked for in one scan. -/
theorem foldl_decodeWord (order known : List Symbol) (text : List Char) :
    order.foldl (fun text s => decodeWord s text) (decodeWords known text) =
      decodeWords (order.reverse ++ known) text := by
  induction order generalizing known with
  | nil => rfl
  | cons s order ih => rw [List.foldl_cons, decodeWord_decodeWords, ih, List.reverse_cons, List.append_assoc,
      List.singleton_append]

/-- A scan depends on which words it looks for and not on their order. -/
theorem decodeWords_congr {known' : List Symbol} (same : ∀ s, s ∈ known ↔ s ∈ known') (text : List Char) :
    decodeWords known text = decodeWords known' text := by
  fun_induction decodeWords known text with
  | case1 => rw [decodeWords_nil]
  | case2 c rest s found ih =>
      obtain ⟨member, front⟩ := leadingWord?_eq_some found
      rw [decodeWords, leadingWord?_of_prefix ((same s).1 member) front, ih]
  | case3 c rest missing ih =>
      rw [leadingWord?_eq_none_iff] at missing
      rw [decodeWords_cons fun s member => missing s ((same s).2 member), ih]

/-- The three words are replaced in whatever order, even more than once, as by one scan. -/
theorem foldl_decodeWord_of_forall_mem {order : List Symbol} (each : ∀ s, s ∈ order) (text : List Char) :
    order.foldl (fun text s => decodeWord s text) text = decodeWords Symbol.all text := by
  rw [← decodeWords_none text, foldl_decodeWord, decodeWords_none, List.append_nil]
  exact decodeWords_congr (fun s => iff_of_true (List.mem_reverse.2 (each s)) s.mem_all) text

/-! ### Spelling symbols by their words -/

/-- The texts without layout that spell symbols in brackets, with remarks between the words. -/
inductive Bracketed : List Symbol → List Char → Prop where
  | nil : Bracketed [] []
  | remark {c : Char} {code : List Symbol} {text : List Char} : isLayout c = false → c ≠ '[' → c ≠ ']' →
      Bracketed code text → Bracketed code (c :: text)
  | word (s : Symbol) {code : List Symbol} {text : List Char} :
      Bracketed code text → Bracketed (s :: code) (s.word ++ text)

theorem symbols_cons_of_isLayout (h : isLayout c = false) (text : List Char) :
    symbols (c :: text) = symbols text := by
  simp only [isLayout, Bool.or_eq_false_iff, decide_eq_false_iff_not] at h
  simp [symbols, Symbol.ofChar?, h]

theorem symbols_toChar_cons (s : Symbol) (text : List Char) :
    symbols (s.toChar :: text) = s :: symbols text := by
  simp [symbols]

/-- The symbols that are spelled are what the scan puts into the text. -/
theorem symbols_decodeWords {code : List Symbol} (spelled : Bracketed code text) :
    symbols (decodeWords Symbol.all text) = code := by
  induction spelled with
  | nil =>
      rw [decodeWords_nil]
      rfl
  | remark layout opening _ _ ih =>
      rw [decodeWords_cons, symbols_cons_of_isLayout layout, ih]
      exact fun s _ front => opening (Symbol.head_of_word_prefix front)
  | word s _ ih => rw [decodeWords_word_append s.mem_all, symbols_toChar_cons, ih]

/-! ### Texts with the same symbols -/

abbrev SameSymbols : List Mark → List Mark → Prop :=
  List.Forall₂ fun m m' => m.symbol = m'.symbol

theorem sameSymbols_iff {marks marks' : List Mark} :
    SameSymbols marks marks' ↔ marks.map Mark.symbol = marks'.map Mark.symbol := by
  rw [← List.forall₂_eq_eq_eq, List.forall₂_map_left_iff, List.forall₂_map_right_iff]

/-- Two readings of the same symbols: the same part is read and the same symbols are left, or the reason for
    the fault is the same. -/
inductive ReadAlike {α : Type} : Reading α → Reading α → Prop where
  | read (a : α) {left left' : List Mark} : SameSymbols left left' → ReadAlike (.ok (a, left)) (.ok (a, left'))
  | fault {e e' : ParseError} : e.cause = e'.cause → ReadAlike (.error e) (.error e')

theorem ReadAlike.map {α β : Type} {r r' : Reading α} (f : α → β) (h : ReadAlike r r') :
    ReadAlike (r.map fun x => (f x.1, x.2)) (r'.map fun x => (f x.1, x.2)) := by
  cases h with
  | read a same => exact .read (f a) same
  | fault same => exact .fault same

section

variable (stop stop' : Nat) {marks marks' : List Mark}

/-- Bits are read alike from marks with the same symbols. -/
theorem readBits_alike (value : Nat) (same : SameSymbols marks marks') :
    ReadAlike (readBits stop value marks) (readBits stop' value marks') := by
  induction same generalizing value with
  | nil => exact .fault rfl
  | @cons m m' rest rest' head tail ih =>
      simp only [readBits, ← head]
      cases m.symbol with
      | space => exact ih _
      | tab => exact ih _
      | lineFeed => exact .read value tail

/-- Integers are read alike from marks with the same symbols. -/
theorem readInteger_alike (same : SameSymbols marks marks') :
    ReadAlike (readInteger stop marks) (readInteger stop' marks') := by
  cases same with
  | nil => exact .fault rfl
  | @cons m m' rest rest' head tail =>
      simp only [readInteger, ← head]
      have magnitude := readBits_alike stop stop' 0 tail
      cases m.symbol with
      | space => exact magnitude.map Int.ofNat
      | tab => exact magnitude.map fun n => -Int.ofNat n
      | lineFeed => exact .fault rfl

/-- Texts of the same symbols give the same instruction, or the same error up to its place, for any template.
    -/
theorem templateRead_alike (t : Template) (same : SameSymbols marks marks') :
    ReadAlike (t.read stop marks) (t.read stop' marks') := by
  cases t with
  | complete i => exact .read i same
  | integer build => exact (readInteger_alike stop stop' same).map fun n => Instruction.stack (build n)
  | label build => exact (readBits_alike stop stop' 0 same).map fun n => Instruction.flow (build ⟨n⟩)

/-- Commands are read alike from marks with the same symbols. -/
theorem readCommand_alike (c : Category) (code : List Symbol) (same : SameSymbols marks marks') :
    ReadAlike (readCommand stop c code marks) (readCommand stop' c code marks') := by
  induction same generalizing code with
  | nil => exact .fault rfl
  | @cons m m' rest rest' head tail ih =>
      simp only [readCommand, ← head]
      cases lookup c (code ++ [m.symbol]) with
      | known t => exact templateRead_alike stop stop' t tail
      | incomplete => exact ih _
      | unknown => exact .fault rfl

/-- Instructions are read alike from marks with the same symbols. -/
theorem readInstruction_alike (first : Symbol) (same : SameSymbols marks marks') :
    ReadAlike (readInstruction stop first marks) (readInstruction stop' first marks') := by
  cases first with
  | space => exact readCommand_alike stop stop' .stack [] same
  | lineFeed => exact readCommand_alike stop stop' .flow [] same
  | tab =>
      cases same with
      | nil => exact .fault rfl
      | @cons m m' rest rest' head tail =>
          simp only [readInstruction, readAfterTab, ← head]
          cases m.symbol with
          | space => exact readCommand_alike stop stop' .arithmetic [] tail
          | tab => exact readCommand_alike stop stop' .heap [] tail
          | lineFeed => exact readCommand_alike stop stop' .io [] tail

/-- The same instructions are read, and a fault has the same reason. -/
structure Parsed.Alike (p q : Parsed) : Prop where
  instructions : p.instructions = q.instructions
  cause : p.error?.map ParseError.cause = q.error?.map ParseError.cause

/-- Texts with the same symbols are parsed into the same instructions, up to the places that errors name. -/
theorem parseMarks_alike (same : SameSymbols marks marks') :
    (parseMarks stop marks).Alike (parseMarks stop' marks') := by
  induction marks using parseMarks.induct stop generalizing marks' with
  | case1 =>
      obtain - | _ := same
      rw [parseMarks, parseMarks]
      exact ⟨rfl, rfl⟩
  | case2 m rest e read =>
      obtain - | ⟨head, tail⟩ := same
      have alike := readInstruction_alike stop stop' m.symbol tail
      rw [read, head] at alike
      generalize result : readInstruction stop' _ _ = r at alike
      cases alike with
      | fault cause =>
          rw [parseMarks_error read, parseMarks_error result]
          exact ⟨rfl, congrArg some cause⟩
  | case3 m rest i left read shorter ih =>
      obtain - | ⟨head, tail⟩ := same
      have alike := readInstruction_alike stop stop' m.symbol tail
      rw [read, head] at alike
      generalize result : readInstruction stop' _ _ = r at alike
      cases alike with
      | read _ left =>
          rw [parseMarks_cons read, parseMarks_cons result]
          exact ⟨congrArg (i :: ·) (ih left).instructions, (ih left).cause⟩

end

/-- What is read of a text depends on its symbols alone, but for the places. -/
theorem scanProgram_alike {u v : String} (same : symbols u.toList = symbols v.toList) :
    (scanProgram u).Alike (scanProgram v) := by
  apply parseMarks_alike
  rw [sameSymbols_iff, map_symbol_scan, map_symbol_scan, same]

/-- Texts of the same symbols parse alike, and the errors name the same cause. -/
theorem parseProgram_alike {u v : String} (same : symbols u.toList = symbols v.toList) :
    (parseProgram u).mapError ParseError.cause = (parseProgram v).mapError ParseError.cause := by
  obtain ⟨instructions, cause⟩ := scanProgram_alike same
  unfold parseProgram
  generalize scanProgram u = p, scanProgram v = q at instructions cause
  obtain ⟨_, _ | e⟩ := p <;> obtain ⟨_, _ | e'⟩ := q <;> simp_all [Except.mapError]

/-! ### Bracketed texts -/

theorem decodeBracketed_eq (text : String) :
    decodeBracketed text = String.ofList (decodeWords Symbol.all (text.toList.filter (!isLayout ·))) := by
  have each : ∀ s, s ∈ [Symbol.lineFeed, .space, .tab] := fun s => by cases s <;> decide
  exact congrArg String.ofList (foldl_decodeWord_of_forall_mem each _)

/-- A text that spells the symbols of a program in brackets is decoded to a text with these symbols. -/
theorem symbols_decodeBracketed {code : List Symbol} {spelled : String}
    (brackets : Bracketed code (spelled.toList.filter (!isLayout ·))) :
    symbols (decodeBracketed spelled).toList = code := by
  rw [decodeBracketed_eq, String.toList_ofList]
  exact symbols_decodeWords brackets

/-- Bracketed texts are decoded in one pass. Decoding drops the layout and then replaces the words in one
    scan from left to right; the order in which the words are taken, and even how often, makes no
    difference to any text. So a text that spells the symbols of a program in brackets, with layout
    wherever one likes and remarks between the words, is decoded to a text that reads as the program
    does: with the same instructions, and a fault for the same reason. -/
theorem decodeBracketed_single_pass :
    (∀ text : String, decodeBracketed text =
      String.ofList (decodeWords Symbol.all (text.toList.filter (!isLayout ·)))) ∧
      (∀ (order : List Symbol) (text : List Char), (∀ s, s ∈ order) →
        order.foldl (fun text s => decodeWord s text) text = decodeWords Symbol.all text) ∧
      ∀ program spelled : String,
        Bracketed (symbols program.toList) (spelled.toList.filter (!isLayout ·)) →
          symbols (decodeBracketed spelled).toList = symbols program.toList ∧
            (scanProgram (decodeBracketed spelled)).Alike (scanProgram program) ∧
            (parseProgram (decodeBracketed spelled)).mapError ParseError.cause =
              (parseProgram program).mapError ParseError.cause := by
  refine ⟨decodeBracketed_eq, fun order text each => foldl_decodeWord_of_forall_mem each text, ?_⟩
  intro program spelled brackets
  have same := symbols_decodeBracketed brackets
  exact ⟨same, scanProgram_alike same, parseProgram_alike same⟩

/-- A word with another in it and a word that is taken twice; and a number that is pushed before a cut-off
    command, spelled with layout in the brackets and remarks between them. -/
theorem decodeBracketed_single_pass_nested :
    ([Symbol.tab, .space, .tab, .lineFeed].foldl (fun text s => decodeWord s text) "[Sp[Tab]ace][LF]".toList =
      decodeWords Symbol.all "[Sp[Tab]ace][LF]".toList) ∧
      Bracketed (symbols "p  \t\ni\t\n".toList)
        ("[Sp ace]é[\nSpace] [T\tab]→x[LF][Tab]\n[L\r\nF]!".toList.filter (!isLayout ·)) ∧
      (scanProgram (decodeBracketed "[Sp ace]é[\nSpace] [T\tab]→x[LF][Tab]\n[L\r\nF]!")).Alike
        (scanProgram "p  \t\ni\t\n") := by
  have brackets : Bracketed (symbols "p  \t\ni\t\n".toList)
      ("[Sp ace]é[\nSpace] [T\tab]→x[LF][Tab]\n[L\r\nF]!".toList.filter (!isLayout ·)) := by
    have tight : "[Sp ace]é[\nSpace] [T\tab]→x[LF][Tab]\n[L\r\nF]!".toList.filter (!isLayout ·) =
        Symbol.space.word ++ 'é' :: (Symbol.space.word ++ (Symbol.tab.word ++ '→' :: 'x' ::
          (Symbol.lineFeed.word ++ (Symbol.tab.word ++ (Symbol.lineFeed.word ++ ['!']))))) := by
      decide +kernel
    have code : symbols "p  \t\ni\t\n".toList = [.space, .space, .tab, .lineFeed, .tab, .lineFeed] := by
      decide +kernel
    rw [tight, code]
    refine .word _ (.remark ?_ ?_ ?_ (.word _ (.word _ (.remark ?_ ?_ ?_ (.remark ?_ ?_ ?_
      (.word _ (.word _ (.word _ (.remark ?_ ?_ ?_ .nil))))))))) <;> decide
  exact ⟨decodeBracketed_single_pass.2.1 _ _ fun s => by cases s <;> decide, brackets,
    (decodeBracketed_single_pass.2.2 _ _ brackets).2.1⟩

end Whitespace
