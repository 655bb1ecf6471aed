/-
Module: Whitespace.Proofs.SilentText
Purpose: The lines of a source text that say something. Blank lines, comments and remarks are silent, and
  how a line ends does not matter. Putting silent lines between the lines of a text, before the first or
  after the last, leaves what the text says as it was.
Main exports: reading, significant?, sayings, reading_append_return, SilentLine, InsertsLine,
  sayings_of_insertsLine
-/
import Mathlib.Data.List.Basic
import Mathlib.Logic.Relation
import Whitespace.Assembly.Lexer
import Whitespace.Text.Lines

namespace Whitespace

namespace Assembly

open Text (isBlank trimStart)

/-! ### What a line says -/

def Token.erased : Token → Token
  | .decoration _ => .decoration ""
  | t => t

/-- The tokens of a line, whatever its remarks are. -/
def reading (line : List Char) : Except LexError (List Token) :=
  (tokenize line).map (List.map Token.erased)

/-- What a line says, unless it is blank, a comment or a remark. -/
def significant? (line : List Char) : Option (Except LexError (List Token)) :=
  match reading line with
  | .ok [] | .ok (.decoration _ :: _) => none
  | r => some r

section

variable {line rest : List Char} {c : Char}

theorem tokenize_of_blank (h : trimStart line = []) : tokenize line = .ok [] := by
  rw [tokenize]
  split
  · rfl
  · next c rest ht =>
      rw [h] at ht
      cases ht

/-- A line that begins with a semicolon is a comment. -/
theorem tokenize_of_comment (h : trimStart line = ';' :: rest) :
    tokenize line = .ok (commentTokens rest) := by
  rw [tokenize]
  split
  · next ht =>
      rw [h] at ht
      cases ht
  · next c rest ht =>
      rw [h] at ht
      cases ht
      rfl

/-- A line that begins with a token is read token by token. -/
theorem tokenize_of_token (h : trimStart line = c :: rest) (token : c ≠ ';') :
    tokenize line =
      match readToken c rest with
      | .error e => .error e
      | .ok (t, left) => (tokenize left).map (t :: ·) := by
  rw [tokenize]
  split
  · next ht =>
      rw [h] at ht
      cases ht
  · next c' rest' ht =>
      rw [h] at ht
      cases ht
      rw [if_neg token]
      split
      · next e read => simp only [read]
      · next t left read => simp only [read]

/-- The reading of a line goes token by token, too. -/
theorem reading_of_token (h : trimStart line = c :: rest) (token : c ≠ ';') :
    reading line =
      match readToken c rest with
      | .error e => .error e
      | .ok (t, left) => (reading left).map (t.erased :: ·) := by
  unfold reading
  rw [tokenize_of_token h token]
  cases readToken c rest with
  | error e => rfl
  | ok result =>
      obtain ⟨t, left⟩ := result
      simp only
      cases tokenize left <;> rfl

end

/-! ### Carriage returns -/

section

variable {rest : List Char} {c : Char}

theorem isBare_return : isBare '\r' = false := by decide

/-- A reading without its last character, a carriage return. -/
theorem trimStart_append_return (line : List Char) :
    trimStart (line ++ ['\r']) = if trimStart line = [] then [] else trimStart line ++ ['\r'] := by
  unfold trimStart
  rw [List.dropWhile_append]
  cases line.dropWhile isBlank with
  | nil => rfl
  | cons c rest => rfl

/-- Remarks apart, a comment only tells whether it is a remark. -/
theorem map_erased_commentTokens (rest : List Char) :
    (commentTokens rest).map Token.erased =
      if ['#', ';'] <+: rest then [.decoration ""] else [] := by
  unfold commentTokens
  split
  · rfl
  · rfl
  · next other =>
      rw [if_neg]
      · rfl
      · rintro ⟨text, rfl⟩
        exact other text rfl

/-- A carriage return at the end of a comment is no part of what the comment says. -/
theorem commentTokens_append_return (rest : List Char) :
    (commentTokens (rest ++ ['\r'])).map Token.erased = (commentTokens rest).map Token.erased := by
  have same : ['#', ';'] <+: rest ++ ['\r'] ↔ ['#', ';'] <+: rest := by
    constructor
    · intro h
      rcases List.prefix_concat_iff.1 h with whole | inside
      · have last := congrArg List.getLast? whole
        simp at last
      · exact inside
    · intro h
      exact h.trans (List.prefix_append _ _)
  rw [map_erased_commentTokens, map_erased_commentTokens]
  simp only [same]

/-- A plain character in front of a literal belongs to it, unless it ends the literal or the line. -/
theorem splitLiteral_cons {quote : Char} (h : c ≠ '\\') (rest : List Char) :
    splitLiteral quote (c :: rest) =
      if c = '\n' then none
      else if c = quote then some ([], rest)
      else (splitLiteral quote rest).map fun (literal, left) => (c :: literal, left) := by
  rw [splitLiteral]
  · intro escape _
    exact h escape
  · intro _ _ escape _
    exact h escape

/-- A character that starts no escape, alone or with another one behind it, is no backslash. -/
theorem ne_backslash_of_cases (single : c = '\\' → rest = [] → False)
    (double : ∀ d more, c = '\\' → rest = d :: more → False) : c ≠ '\\' := by
  intro escape
  cases rest with
  | nil => exact single escape rfl
  | cons d more => exact double d more escape rfl

/-- A carriage return at the end of a line stays behind its literals. -/
theorem splitLiteral_append_return {quote : Char} (h : quote ≠ '\r') (text : List Char) :
    splitLiteral quote (text ++ ['\r']) =
      (splitLiteral quote text).map fun (literal, left) => (literal, left ++ ['\r']) := by
  fun_induction splitLiteral quote text with
  | case1 => simp [splitLiteral, Ne.symm h]
  | case2 => simp [splitLiteral]
  | case3 rest => simp [splitLiteral]
  | case4 c rest newline ih => simp [splitLiteral, newline, ih, Function.comp_def]
  | case5 rest => simp [splitLiteral]
  | case6 rest single double newline =>
      have plain := ne_backslash_of_cases single double
      rw [List.cons_append, splitLiteral_cons plain, if_neg newline, if_pos rfl]
      rfl
  | case7 c rest single double newline open' ih =>
      have plain := ne_backslash_of_cases single double
      rw [List.cons_append, splitLiteral_cons plain, if_neg newline, if_neg open', ih, Option.map_map,
        Option.map_map]
      rfl

/-- A carriage return at the end of a line belongs to no bare word. -/
theorem takeWhile_append_return (rest : List Char) :
    (rest ++ ['\r']).takeWhile isBare = rest.takeWhile isBare := by
  rw [List.takeWhile_append]
  split
  · next whole =>
      rw [List.takeWhile_cons_of_neg (by simp [isBare_return]), List.append_nil]
      exact ((List.takeWhile_prefix isBare).eq_of_length whole).symm
  · rfl

theorem dropWhile_append_return (rest : List Char) :
    (rest ++ ['\r']).dropWhile isBare = rest.dropWhile isBare ++ ['\r'] := by
  rw [List.dropWhile_append, List.dropWhile_cons_of_neg (by simp [isBare_return])]
  cases rest.dropWhile isBare <;> rfl

/-- A carriage return at the end of a line stays behind its tokens. -/
theorem readToken_append_return (c : Char) (rest : List Char) :
    readToken c (rest ++ ['\r']) =
      (readToken c rest).map fun (t, left) => (t, left ++ ['\r']) := by
  unfold readToken
  split
  · unfold readString
    rw [splitLiteral_append_return (by decide)]
    cases splitLiteral '"' rest with
    | none => rfl
    | some parts =>
        obtain ⟨literal, left⟩ := parts
        simp only [Option.map_some]
        cases unescape '"' literal <;> rfl
  · split
    · unfold readCharacter
      rw [splitLiteral_append_return (by decide)]
      cases splitLiteral '\'' rest with
      | none => rfl
      | some parts =>
          obtain ⟨literal, left⟩ := parts
          simp only [Option.map_some]
          split <;> rfl
    · split
      · simp only [readVariable, takeWhile_append_return, dropWhile_append_return]
        split <;> rfl
      · rw [takeWhile_append_return, dropWhile_append_return]
        rfl

/-- A carriage return at the end of a line says nothing. -/
theorem reading_append_return (line : List Char) : reading (line ++ ['\r']) = reading line := by
  induction length : line.length using Nat.strongRecOn generalizing line with
  | ind n ih =>
      cases trimmed : trimStart line with
      | nil =>
          have trimmed' := trimStart_append_return line
          rw [if_pos trimmed] at trimmed'
          unfold reading
          rw [tokenize_of_blank trimmed, tokenize_of_blank trimmed']
      | cons c rest =>
          have trimmed' := trimStart_append_return line
          rw [trimmed, if_neg nofun, List.cons_append] at trimmed'
          by_cases comment : c = ';'
          · subst comment
            unfold reading
            rw [tokenize_of_comment trimmed, tokenize_of_comment trimmed']
            exact congrArg Except.ok (commentTokens_append_return rest)
          · rw [reading_of_token trimmed comment, reading_of_token trimmed' comment,
              readToken_append_return]
            cases read : readToken c rest with
            | error e => rfl
            | ok result =>
                obtain ⟨t, left⟩ := result
                have shorter : left.length < n := by
                  have taken := length_le_of_readToken read
                  have trim := length_trimStart_le line
                  rw [trimmed, List.length_cons] at trim
                  omega
                exact congrArg (Except.map (t.erased :: ·)) (ih left.length shorter left rfl)

end

/-- A carriage return at the end of a line does not make it significant. -/
theorem significant?_dropReturn (line : List Char) :
    significant? (Text.dropReturn line) = significant? line := by
  unfold Text.dropReturn
  split
  · next last =>
      have whole : line = line.dropLast ++ ['\r'] := (List.dropLast_append_getLast? _ last).symm
      have same := reading_append_return line.dropLast
      rw [← whole] at same
      unfold significant?
      rw [same]
  · rfl

/-! ### Silent lines -/

/-- A line that is blank or a comment; remarks are comments. -/
def SilentLine (line : List Char) : Prop :=
  '\n' ∉ line ∧ (trimStart line = [] ∨ ∃ text, trimStart line = ';' :: text)

/-- A silent line is not significant. -/
theorem significant?_of_silent {line : List Char} (h : SilentLine line) : significant? line = none := by
  unfold significant? reading
  rcases h.2 with blank | ⟨text, comment⟩
  · rw [tokenize_of_blank blank]
    rfl
  · rw [tokenize_of_comment comment]
    simp only [Except.map, map_erased_commentTokens]
    by_cases remark : ['#', ';'] <+: text
    · rw [if_pos remark]
    · rw [if_neg remark]

theorem significant?_nil : significant? [] = none :=
  significant?_of_silent ⟨List.not_mem_nil, .inl rfl⟩

/-- The second text is the first with one more line. It stands before, between or after the lines of
    the first text; a last line may lack its line feed. -/
inductive InsertsLine (line : List Char) : List Char → List Char → Prop where
  | only : InsertsLine line [] line
  | first (text : List Char) : InsertsLine line text (line ++ '\n' :: text)
  | between (before after : List Char) :
      InsertsLine line (before ++ '\n' :: after) (before ++ '\n' :: (line ++ '\n' :: after))
  | last (text : List Char) : InsertsLine line text (text ++ '\n' :: line)
  | unended (before : List Char) : InsertsLine line (before ++ ['\n']) (before ++ '\n' :: line)

/-- The second text is the first with more silent lines. -/
def InsertsSilence : List Char → List Char → Prop :=
  Relation.ReflTransGen fun text more => ∃ line, SilentLine line ∧ InsertsLine line text more

def sayings (text : List Char) : List (Except LexError (List Token)) :=
  (Text.endedLines (Text.pieces text)).filterMap significant?

/-- Every text has at least one piece, if only an empty one. -/
theorem pieces_ne_nil (text : List Char) : Text.pieces text ≠ [] := by
  cases text with
  | nil => nofun
  | cons c rest =>
      rw [Text.pieces]
      split
      · nofun
      · split <;> nofun

/-- A line feed cuts a text into pieces. -/
theorem pieces_append (before after : List Char) :
    Text.pieces (before ++ '\n' :: after) = Text.pieces before ++ Text.pieces after := by
  induction before with
  | nil => rfl
  | cons c rest ih =>
      rw [List.cons_append, Text.pieces, Text.pieces, ih]
      split
      · rfl
      · cases parts : Text.pieces rest with
        | nil => exact absurd parts (pieces_ne_nil rest)
        | cons part more => rfl

theorem pieces_of_not_mem {line : List Char} (h : '\n' ∉ line) : Text.pieces line = [line] := by
  induction line with
  | nil => rfl
  | cons c rest ih =>
      rw [List.mem_cons, not_or] at h
      rw [Text.pieces, if_neg (Ne.symm h.1), ih h.2]

/-- Neither the way a line ends nor an empty last line says anything. -/
theorem sayings_eq_filterMap_pieces (text : List Char) :
    sayings text = (Text.pieces text).filterMap significant? := by
  unfold sayings
  generalize Text.pieces text = parts
  induction parts with
  | nil => rfl
  | cons part more ih =>
      cases more with
      | nil =>
          rw [Text.endedLines]
          split
          · next empty =>
              rw [List.isEmpty_iff.1 empty, List.filterMap_cons, significant?_nil]
          · rfl
      | cons next more =>
          rw [Text.endedLines, List.filterMap_cons, List.filterMap_cons, significant?_dropReturn, ih]
          exact nofun

/-- A silent line in a text changes nothing of what the text says. -/
theorem sayings_of_insertsLine {line text more : List Char} (silent : SilentLine line)
    (h : InsertsLine line text more) : sayings more = sayings text := by
  have alone := pieces_of_not_mem silent.1
  have nothing := significant?_of_silent silent
  have empty := significant?_nil
  rw [sayings_eq_filterMap_pieces, sayings_eq_filterMap_pieces]
  cases h with
  | only => simp [alone, nothing, Text.pieces, empty]
  | first => simp [pieces_append, alone, nothing]
  | between before after => simp [pieces_append, alone, nothing]
  | last => simp [pieces_append, alone, nothing]
  | unended before => simp [pieces_append, alone, nothing, Text.pieces, empty]

theorem sayings_of_insertsSilence {text more : List Char} (h : InsertsSilence text more) :
    sayings more = sayings text := by
  induction h with
  | refl => rfl
  | tail _ step ih =>
      obtain ⟨line, silent, inserted⟩ := step
      rw [sayings_of_insertsLine silent inserted, ih]

end Assembly

end Whitespace
