/-
Module: Whitespace.Proofs.WrittenLines
Purpose: Cutting up a line undoes writing its tokens. Each token can be written in several forms: integers in
  every notation, strings and characters with more or fewer escapes. The forms stand apart by blanks, a
  decoration may only come last, and a comment may end the line. Whatever forms and blanks are chosen, the
  line is cut into the tokens that were written.
Main exports: LiteralChar, LiteralText, Token.Written, Token.Writable, WrittenLine, WritableLine,
  Token.Written.read, tokenize_writtenLine
-/
import Mathlib.Data.List.TakeWhile
import Whitespace.Proofs.IntegerLiterals
import Whitespace.Proofs.SilentText

namespace Whitespace.Assembly

open Text (isBlank trimStart)

/-! ### Written forms -/

/-- The letters that stand behind a backslash, and the characters that they stand for. -/
def escapeLetters : List (Char × Char) :=
  [('b', '\x08'), ('f', '\x0c'), ('n', '\n'), ('r', '\r'), ('t', '\t'), ('v', '\x0b')]

/-- How a character is written between quotes. The quote, the backslash and the line feed have to be
    escaped. -/
inductive LiteralChar (quote : Char) : Char → List Char → Prop where
  | itself {c : Char} : c ≠ quote → c ≠ '\\' → c ≠ '\n' → LiteralChar quote c [c]
  | quote : LiteralChar quote quote ['\\', quote]
  | backslash : LiteralChar quote '\\' ['\\', '\\']
  | letter {letter c : Char} : (letter, c) ∈ escapeLetters → LiteralChar quote c ['\\', letter]

/-- How a text is written between quotes. -/
inductive LiteralText (quote : Char) : List Char → List Char → Prop where
  | nil : LiteralText quote [] []
  | cons {c : Char} {value form rest : List Char} : LiteralChar quote c form →
      LiteralText quote value rest → LiteralText quote (c :: value) (form ++ rest)

/-- Can the token be written anywhere in a line? A word must not look like a token of another sort, and a
    decoration takes up the rest of its line. -/
def Token.Writable : Token → Prop
  | .word name => name.toList ≠ [] ∧ (∀ c ∈ name.toList, isBare c = true) ∧
      name.toList.head? ≠ some '_' ∧ ∀ n, ¬ IntegerLiteral name.toList n
  | .variable name => ∃ rest, name.toList = '_' :: rest ∧ rest ≠ [] ∧ ∀ c ∈ rest, isBare c = true
  | .integer _ | .string _ | .character _ => True
  | .decoration _ => False

/-- The forms in which a token can be written. An integer may have underscores anywhere but in front, where
    one would make it a variable. -/
inductive Token.Written : Token → List Char → Prop where
  | word {name : String} : (Token.word name).Writable → Written (.word name) name.toList
  | variable {name : String} : (Token.variable name).Writable → Written (.variable name) name.toList
  | integer {form : List Char} {n : Int} : IntegerLiteral form n → form.head? ≠ some '_' →
      Written (.integer n) form
  | string {value : String} {form : List Char} : LiteralText '"' value.toList form →
      Written (.string value) ('"' :: (form ++ ['"']))
  | character {c : Char} {form : List Char} : LiteralChar '\'' c form →
      Written (.character c) ('\'' :: (form ++ ['\'']))

def Gap (text : List Char) : Prop := ∀ c ∈ text, isBlank c = true

instance (text : List Char) : Decidable (Gap text) := List.decidableBAll _ _

/-- How tokens are written from the first one on. A gap stands between two tokens; behind the last one there
    may be a comment that is no decoration. -/
inductive WrittenFrom : List Token → List Char → Prop where
  | blank {gap : List Char} : Gap gap → WrittenFrom [] gap
  | comment {gap text : List Char} : Gap gap → ¬ ['#', ';'] <+: text → WrittenFrom [] (gap ++ ';' :: text)
  | decoration (text : String) :
      WrittenFrom [.decoration text] (';' :: '#' :: ';' :: ' ' :: text.toList)
  | token {t : Token} {tokens : List Token} {form gap rest : List Char} : t.Written form → Gap gap →
      (tokens ≠ [] → gap ≠ []) → WrittenFrom tokens rest → WrittenFrom (t :: tokens) (form ++ (gap ++ rest))

/-- How tokens are written in a line. -/
inductive WrittenLine (tokens : List Token) : List Char → Prop where
  | indented {gap text : List Char} : Gap gap → WrittenFrom tokens text → WrittenLine tokens (gap ++ text)

inductive WritableLine : List Token → Prop where
  | nil : WritableLine []
  | decoration (text : String) : WritableLine [.decoration text]
  | cons {t : Token} {tokens : List Token} : t.Writable → WritableLine tokens → WritableLine (t :: tokens)

section

variable {quote c : Char} {value form gap rest : List Char} {t : Token} {tokens : List Token} {n : Int}

/-! ### Literals -/

theorem unescape_cons (plain : c ≠ '\\') (rest : List Char) :
    unescape quote (c :: rest) = (unescape quote rest).map (c :: ·) := by
  rw [unescape]
  · intro escape _
    exact plain escape
  · intro _ _ escape _
    exact plain escape

theorem escapedChar?_letter {letter : Char} (isQuote : quote = '"' ∨ quote = '\'')
    (known : (letter, c) ∈ escapeLetters) : escapedChar? quote letter = some c ∧ letter ≠ '\n' := by
  simp only [escapeLetters, List.mem_cons, Prod.mk.injEq, List.not_mem_nil, or_false] at known
  rcases isQuote with rfl | rfl <;>
    rcases known with ⟨rfl, rfl⟩ | ⟨rfl, rfl⟩ | ⟨rfl, rfl⟩ | ⟨rfl, rfl⟩ | ⟨rfl, rfl⟩ | ⟨rfl, rfl⟩ <;> decide

/-- A character is written as itself or by an escape that is known. -/
theorem LiteralChar.itself_or_escaped (isQuote : quote = '"' ∨ quote = '\'')
    (written : LiteralChar quote c form) :
    (form = [c] ∧ c ≠ quote ∧ c ≠ '\\' ∧ c ≠ '\n') ∨
      ∃ e, form = ['\\', e] ∧ escapedChar? quote e = some c ∧ e ≠ '\n' := by
  cases written with
  | itself quote backslash lineFeed => exact Or.inl ⟨rfl, quote, backslash, lineFeed⟩
  | quote =>
      refine Or.inr ⟨quote, rfl, if_pos (Or.inl rfl), ?_⟩
      rcases isQuote with rfl | rfl <;> decide
  | backslash => exact Or.inr ⟨'\\', rfl, if_pos (Or.inr rfl), by decide⟩
  | letter known => exact Or.inr ⟨_, rfl, escapedChar?_letter isQuote known⟩

/-- A written character is taken as a part of the literal. -/
theorem LiteralChar.split (isQuote : quote = '"' ∨ quote = '\'') (written : LiteralChar quote c form)
    (rest : List Char) :
    splitLiteral quote (form ++ rest) =
      (splitLiteral quote rest).map fun (literal, left) => (form ++ literal, left) := by
  rcases written.itself_or_escaped isQuote with ⟨rfl, open', plain, newline⟩ | ⟨e, rfl, -, newline⟩
  · rw [List.singleton_append, splitLiteral_cons plain, if_neg newline, if_neg open']
    rfl
  · simp only [List.cons_append, List.nil_append, splitLiteral, if_neg newline]

theorem LiteralChar.unescape (isQuote : quote = '"' ∨ quote = '\'') (written : LiteralChar quote c form)
    (rest : List Char) :
    unescape quote (form ++ rest) = (Assembly.unescape quote rest).map (c :: ·) := by
  rcases written.itself_or_escaped isQuote with ⟨rfl, -, plain, -⟩ | ⟨e, rfl, escaped, -⟩
  · exact unescape_cons plain rest
  · simp only [List.cons_append, List.nil_append, Assembly.unescape, escaped]

/-- A written literal ends at the quote behind it. -/
theorem LiteralText.split (isQuote : quote = '"' ∨ quote = '\'') (written : LiteralText quote value form)
    (rest : List Char) : splitLiteral quote (form ++ quote :: rest) = some (form, rest) := by
  induction written with
  | nil =>
      have plain : quote ≠ '\\' := by
        rcases isQuote with rfl | rfl <;> decide
      have newline : quote ≠ '\n' := by
        rcases isQuote with rfl | rfl <;> decide
      rw [List.nil_append, splitLiteral_cons plain, if_neg newline, if_pos rfl]
  | cons first _ ih =>
      rw [List.append_assoc, first.split isQuote, ih]
      rfl

theorem LiteralText.unescape (isQuote : quote = '"' ∨ quote = '\'')
    (written : LiteralText quote value form) : unescape quote form = .ok value := by
  induction written with
  | nil => rfl
  | cons first _ ih =>
      rw [first.unescape isQuote, ih]
      rfl

/-- Every character can be written in a literal. -/
theorem exists_literalChar (quote c : Char) : ∃ form, LiteralChar quote c form := by
  by_cases isQuote : c = quote
  · subst isQuote
    exact ⟨_, .quote⟩
  · by_cases backslash : c = '\\'
    · subst backslash
      exact ⟨_, .backslash⟩
    · by_cases lineFeed : c = '\n'
      · subst lineFeed
        exact ⟨['\\', 'n'], .letter (by decide)⟩
      · exact ⟨_, .itself isQuote backslash lineFeed⟩

theorem exists_literalText (quote : Char) (value : List Char) : ∃ form, LiteralText quote value form := by
  induction value with
  | nil => exact ⟨_, .nil⟩
  | cons c rest ih =>
      obtain ⟨first, written⟩ := exists_literalChar quote c
      obtain ⟨form, others⟩ := ih
      exact ⟨_, .cons written others⟩

/-! ### Bare runs -/

theorem ne_of_isBare (bare : isBare c = true) : isBlank c = false ∧ c ≠ ';' ∧ c ≠ '"' ∧ c ≠ '\'' := by
  simpa [isBare, and_assoc] using bare

/-- The text goes on with nothing that belongs to a run of bare characters. -/
def EndsRun (text : List Char) : Prop := ∀ c ∈ text.head?, isBare c = false

/-- A bare form ends where the run of bare characters ends. -/
theorem takeWhile_isBare (bare : ∀ c ∈ form, isBare c = true) (ends : EndsRun rest) :
    (form ++ rest).takeWhile isBare = form ∧ (form ++ rest).dropWhile isBare = rest := by
  rw [List.takeWhile_append_of_pos bare, List.dropWhile_append_of_pos bare]
  cases rest with
  | nil => exact ⟨List.append_nil _, rfl⟩
  | cons c more =>
      have stop : ¬ isBare c = true := by
        rw [ends c rfl]
        decide
      rw [List.takeWhile_cons_of_neg stop, List.dropWhile_cons_of_neg stop, List.append_nil]
      exact ⟨rfl, rfl⟩

theorem readToken_bare (bare : ∀ x ∈ c :: form, isBare x = true) (sigil : c ≠ '_') (ends : EndsRun rest) :
    readToken c (form ++ rest) = .ok (bareToken (c :: form), rest) := by
  obtain ⟨-, -, string, character⟩ := ne_of_isBare (bare c List.mem_cons_self)
  obtain ⟨taken, dropped⟩ := takeWhile_isBare (fun x member => bare x (List.mem_cons_of_mem c member)) ends
  rw [readToken, if_neg string, if_neg character, if_neg sigil, taken, dropped]

theorem isBare_of_isDigit {radix v : Nat} (small : radix ≤ 16) (digit : IsDigit radix c v) :
    isBare c = true := by
  obtain ⟨below, rfl | rfl⟩ := digit
  all_goals
    have v_lt : v < 16 := Nat.lt_of_lt_of_le below small
    interval_cases v <;> decide

theorem Numeral.isBare {radix m : Nat} (small : radix ≤ 16) (numeral : Numeral radix form m) :
    ∀ c ∈ form, isBare c = true := by
  intro c member
  obtain ⟨v, digit⟩ := numeral.2.exists_isDigit member
  exact isBare_of_isDigit small digit

/-- An integer literal without underscores consists of bare characters. -/
theorem PlainLiteral.isBare (literal : PlainLiteral form n) :
    form ≠ [] ∧ ∀ c ∈ form, isBare c = true := by
  cases literal with
  | unsigned numeral => exact ⟨numeral.1, numeral.isBare (by decide)⟩
  | plus numeral | minus numeral =>
      exact ⟨List.cons_ne_nil _ _, List.forall_mem_cons.2 ⟨by decide, numeral.isBare (by decide)⟩⟩
  | @announced letter radix digits m known numeral =>
      have small := radix_le_of_radixOf? (radixOf?_eq_some_iff.2 known)
      have bare : Assembly.isBare letter = true := by
        simp only [radixLetters, List.mem_cons, Prod.mk.injEq, List.not_mem_nil, or_false] at known
        rcases known with ⟨rfl, -⟩ | ⟨rfl, -⟩ | ⟨rfl, -⟩ | ⟨rfl, -⟩ | ⟨rfl, -⟩ | ⟨rfl, -⟩ <;> decide
      exact ⟨List.cons_ne_nil _ _,
        List.forall_mem_cons.2 ⟨by decide, List.forall_mem_cons.2 ⟨bare, numeral.isBare small⟩⟩⟩

/-- An integer literal consists of bare characters. -/
theorem IntegerLiteral.isBare (literal : IntegerLiteral form n) :
    form ≠ [] ∧ ∀ c ∈ form, isBare c = true := by
  obtain ⟨nonempty, bare⟩ := PlainLiteral.isBare literal
  constructor
  · rintro rfl
    exact nonempty rfl
  · intro c member
    by_cases underscore : c = '_'
    · subst underscore
      decide
    · exact bare c (List.mem_filter.2 ⟨member, decide_eq_true underscore⟩)

/-! ### Tokens -/

/-- A written token is read as it was meant, if nothing that follows could belong to it. -/
theorem Token.Written.read (written : t.Written form) (ends : EndsRun rest) :
    ∃ c more, form = c :: more ∧ isBlank c = false ∧ c ≠ ';' ∧
      readToken c (more ++ rest) = .ok (t, rest) := by
  cases written with
  | @word name writable =>
      obtain ⟨nonempty, bare, sigil, notInteger⟩ := writable
      obtain ⟨c, more, split⟩ := List.exists_cons_of_ne_nil nonempty
      rw [split] at bare sigil notInteger
      obtain ⟨blank, comment, -, -⟩ := ne_of_isBare (bare c List.mem_cons_self)
      refine ⟨c, more, split, blank, comment, ?_⟩
      have noInteger : integerOf? (c :: more) = none := by
        rw [Option.eq_none_iff_forall_ne_some]
        intro n read
        exact notInteger n (plainIntegerOf?_eq_some_iff.1 read)
      rw [readToken_bare bare (fun same => sigil (congrArg some same)) ends, bareToken, noInteger]
      simp only [← split, String.ofList_toList]
  | integer literal sigil =>
      obtain ⟨nonempty, bare⟩ := literal.isBare
      obtain ⟨c, more, rfl⟩ := List.exists_cons_of_ne_nil nonempty
      obtain ⟨blank, comment, -, -⟩ := ne_of_isBare (bare c List.mem_cons_self)
      refine ⟨c, more, rfl, blank, comment, ?_⟩
      have read : integerOf? (c :: more) = some _ := plainIntegerOf?_eq_some_iff.2 literal
      rw [readToken_bare bare (fun same => sigil (congrArg some same)) ends, bareToken, read]
  | @«variable» name writable =>
      obtain ⟨more, split, nonempty, bare⟩ := writable
      refine ⟨'_', more, split, by decide, by decide, ?_⟩
      obtain ⟨taken, dropped⟩ := takeWhile_isBare bare ends
      have named : more.isEmpty = false := by simp [nonempty]
      simp only [readToken, readVariable, taken, dropped, named, ← split, String.ofList_toList]
      rfl
  | @string value form literal =>
      refine ⟨'"', _, rfl, by decide, by decide, ?_⟩
      have ended := literal.split (Or.inl rfl) rest
      simp only [readToken, readString, List.append_assoc, List.singleton_append, ended,
        literal.unescape (Or.inl rfl), if_true]
      simp [Except.map]
  | @character c form literal =>
      refine ⟨'\'', _, rfl, by decide, by decide, ?_⟩
      have single : LiteralText '\'' [c] (form ++ []) := .cons literal .nil
      rw [List.append_nil] at single
      have ended := single.split (Or.inr rfl) rest
      simp only [readToken, readCharacter, List.append_assoc, List.singleton_append, ended,
        single.unescape (Or.inr rfl)]
      rfl

/-! ### Lines -/

theorem trimStart_gap (blank : Gap gap) (text : List Char) : trimStart (gap ++ text) = trimStart text :=
  List.dropWhile_append_of_pos blank

theorem commentTokens_of_remark (remark : ¬ ['#', ';'] <+: rest) : commentTokens rest = [] := by
  unfold commentTokens
  split
  · exact absurd ⟨_, rfl⟩ remark
  · exact absurd ⟨_, rfl⟩ remark
  · rfl

/-- A gap, or what may follow the last token, does not go on with a run of bare characters. -/
theorem endsRun_of_gap (blank : Gap gap) (apart : tokens ≠ [] → gap ≠ [])
    (written : WrittenFrom tokens rest) : EndsRun (gap ++ rest) := by
  have blank_not_bare {c : Char} (blank : isBlank c = true) : isBare c = false := by
    simp [isBare, blank]
  intro c first
  cases gap with
  | cons b more =>
      cases first
      exact blank_not_bare (blank c List.mem_cons_self)
  | nil =>
      cases written with
      | blank all =>
          exact blank_not_bare (all c (List.mem_of_mem_head? first))
      | @comment gap text all _ =>
          cases gap with
          | nil =>
              cases first
              decide
          | cons b more =>
              cases first
              exact blank_not_bare (all c List.mem_cons_self)
      | decoration | token => exact absurd rfl (apart (List.cons_ne_nil _ _))

/-- Tokens are cut off one after another, whatever gap stands in front. -/
theorem WrittenFrom.tokenize (written : WrittenFrom tokens rest) (blank : Gap gap) :
    tokenize (gap ++ rest) = .ok tokens := by
  induction written generalizing gap with
  | @blank gap' all =>
      apply tokenize_of_blank
      rw [trimStart_gap blank]
      exact List.dropWhile_eq_nil_iff.2 all
  | @comment gap' text all remark =>
      have start : trimStart (gap ++ (gap' ++ ';' :: text)) = ';' :: text := by
        rw [trimStart_gap blank, trimStart_gap all]
        rfl
      rw [tokenize_of_comment start, commentTokens_of_remark remark]
  | decoration text =>
      have start : trimStart (gap ++ ';' :: '#' :: ';' :: ' ' :: text.toList) =
          ';' :: '#' :: ';' :: ' ' :: text.toList := by
        rw [trimStart_gap blank]
        rfl
      rw [tokenize_of_comment start, commentTokens, String.ofList_toList]
  | @token t tokens form gap' rest first all apart others ih =>
      obtain ⟨c, more, rfl, visible, token, read⟩ := first.read (endsRun_of_gap all apart others)
      have start : trimStart (gap ++ (c :: more ++ (gap' ++ rest))) = c :: (more ++ (gap' ++ rest)) := by
        rw [trimStart_gap blank, List.cons_append]
        exact List.dropWhile_cons_of_neg (by simp [visible])
      rw [tokenize_of_token start token, read]
      simp only [ih all]
      rfl

/-! ### What can be written -/

/-- Every writable token has a written form. -/
theorem Token.exists_written (writable : t.Writable) : ∃ form, t.Written form := by
  cases t with
  | word | «variable» => exact ⟨_, by constructor; exact writable⟩
  | integer n =>
      refine ⟨_, .integer (integerLiteral_toString n) fun first => ?_⟩
      exact underscore_not_mem_toString n (List.mem_of_mem_head? first)
  | string value =>
      obtain ⟨form, written⟩ := exists_literalText '"' value.toList
      exact ⟨_, .string written⟩
  | character c =>
      obtain ⟨form, written⟩ := exists_literalChar '\'' c
      exact ⟨_, .character written⟩
  | decoration => cases writable

theorem Token.Written.writable (written : t.Written form) : t.Writable := by
  cases written with
  | word writable | «variable» writable => exact writable
  | integer | string | character => trivial

/-- Every line of writable tokens can be written. -/
theorem exists_writtenFrom (writable : WritableLine tokens) : ∃ text, WrittenFrom tokens text := by
  induction writable with
  | nil => exact ⟨[], .blank (List.forall_mem_nil _)⟩
  | decoration text => exact ⟨_, .decoration text⟩
  | cons first _ ih =>
      obtain ⟨form, written⟩ := Token.exists_written first
      obtain ⟨text, others⟩ := ih
      have gap : Gap [' '] := List.forall_mem_singleton.2 (by decide)
      exact ⟨_, .token written gap (fun _ => List.cons_ne_nil _ _) others⟩

theorem WrittenFrom.writable (written : WrittenFrom tokens rest) : WritableLine tokens := by
  induction written with
  | blank | comment => exact .nil
  | decoration text => exact .decoration text
  | token first _ _ _ ih => exact .cons first.writable ih

end

/-- Cutting up a line undoes writing its tokens, in whatever forms and with whatever gaps they are written.
    Tokens can be written in one line unless a word is empty, has a character that ends it or looks like a
    token of another sort, the name of a variable does, or a decoration is not the last token. -/
theorem tokenize_writtenLine (tokens : List Token) :
    (∀ line, WrittenLine tokens line → tokenize line = .ok tokens) ∧
      ((∃ line, WrittenLine tokens line) ↔ WritableLine tokens) := by
  refine ⟨?_, ?_, ?_⟩
  · rintro _ ⟨blank, written⟩
    exact written.tokenize blank
  · rintro ⟨_, -, written⟩
    exact written.writable
  · intro writable
    obtain ⟨text, written⟩ := exists_writtenFrom writable
    exact ⟨_, .indented (List.forall_mem_nil _) written⟩

/-- An indented line with a word, a hexadecimal integer, a quote, a text with three escapes, a variable and a
    decoration that starts with a blank. One of the gaps is an ideographic space. -/
theorem tokenize_writtenLine_mixed :
    let tokens : List Token := [.word "mix", .integer 255, .character '\'', .string "\"\n;\t",
      .variable "_x", .decoration " two"]
    let line := ['\t'] ++ ("mix".toList ++ ([' '] ++ ("0X_fF".toList ++ (['\u3000'] ++
      (['\'', '\\', '\'', '\''] ++ ([' '] ++ (['"', '\\', '"', '\\', 'n', ';', '\\', 't', '"'] ++
      ([' ', ' '] ++ ("_x".toList ++ (['\t'] ++ ";#;  two".toList))))))))))
    WrittenLine tokens line ∧ WritableLine tokens ∧ tokenize line = .ok tokens := by
  intro tokens line
  have bare : ∀ c ∈ "mix".toList, isBare c = true := List.all_eq_true.1 (by decide)
  have notInteger : ∀ n, ¬ IntegerLiteral "mix".toList n := by
    intro n literal
    have read := plainIntegerOf?_eq_some_iff.2 literal
    have none : plainIntegerOf? ("mix".toList.filter (· ≠ '_')) = none := by decide
    rw [none] at read
    cases read
  have hexadecimal : IntegerLiteral "0X_fF".toList 255 := by
    have digits : Denotes 16 ['f', 'F'] 255 :=
      ⟨[15, 15], .cons ⟨by decide, Or.inl rfl⟩ (.cons ⟨by decide, Or.inr rfl⟩ .nil), rfl⟩
    have letter : ('X', 16) ∈ radixLetters := by decide
    exact .announced letter ⟨List.cons_ne_nil _ _, digits⟩
  have character : LiteralChar '\'' '\'' ['\\', '\''] := .quote
  have text : LiteralText '"' "\"\n;\t".toList ['\\', '"', '\\', 'n', ';', '\\', 't'] := by
    have plain : LiteralChar '"' ';' [';'] := .itself (by decide) (by decide) (by decide)
    have newline : LiteralChar '"' '\n' ['\\', 'n'] := .letter (by decide)
    have tab : LiteralChar '"' '\t' ['\\', 't'] := .letter (by decide)
    exact .cons .quote (.cons newline (.cons plain (.cons tab .nil)))
  have written : WrittenLine tokens line := by
    refine .indented (by decide) (.token (.word ⟨by decide, bare, by decide, notInteger⟩) (by decide)
      (by decide) ?_)
    refine .token (.integer hexadecimal (by decide)) (by decide) (by decide) ?_
    refine .token (.character character) (by decide) (by decide) ?_
    refine .token (.string text) (by decide) (by decide) ?_
    refine .token (.variable ⟨['x'], by decide, by decide, List.forall_mem_singleton.2 (by decide)⟩)
      (by decide) (by decide) ?_
    exact .decoration " two"
  have undone := tokenize_writtenLine tokens
  exact ⟨written, undone.2.1 ⟨line, written⟩, undone.1 line written⟩

end Whitespace.Assembly
