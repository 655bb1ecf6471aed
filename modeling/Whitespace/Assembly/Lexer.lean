/-
Module: Whitespace.Assembly.Lexer
Purpose: Cut a line of assembly into tokens. Blank characters separate tokens; a semicolon starts a
  comment that ends the line, and `;#;` a decoration that does so too. Strings and characters are
  quoted and may hold escapes; anything else runs up to the next blank, semicolon or quote.
Main exports: LexError, tokenize
-/
import Whitespace.Assembly.Integer
import Whitespace.Assembly.Token
import Whitespace.Text.Blank

namespace Whitespace.Assembly

/-- Why a line cannot be cut into tokens. -/
inductive LexError where
  | unterminatedString
  | unterminatedCharacter
  | emptyCharacter
  | overlongCharacter
  /-- A backslash before a character that has no escape in this kind of literal. -/
  | invalidEscape (c : Char)
  | emptyVariable
deriving Repr, DecidableEq

/-- What is wrong with a line, in words. -/
def LexError.message : LexError → String
  | .unterminatedString => "unterminated string"
  | .unterminatedCharacter => "unterminated char"
  | .emptyCharacter => "empty char"
  | .overlongCharacter => "more than one char"
  | .invalidEscape c => "invalid escape \\" ++ String.singleton c
  | .emptyVariable => "empty variable name"

/-- May the character stand in a word, a number or the name of a variable? -/
def isBare (c : Char) : Bool :=
  !(Text.isBlank c || c = ';' || c = '"' || c = '\'')

/-- Splits the text after an opening quote at the closing one: the quote that no backslash stands
    before. A literal ends on the line it starts on. -/
def splitLiteral (quote : Char) : List Char → Option (List Char × List Char)
  | [] => none
  | '\\' :: [] => none
  | '\\' :: c :: rest =>
    if c = '\n' then none
    else (splitLiteral quote rest).map fun (literal, left) => ('\\' :: c :: literal, left)
  | c :: rest =>
    if c = '\n' then none
    else if c = quote then some ([], rest)
    else (splitLiteral quote rest).map fun (literal, left) => (c :: literal, left)

/-- The character that a backslash and a letter stand for. The quote that may be escaped is the one
    around the literal. -/
def escapedChar? (quote c : Char) : Option Char :=
  if c = quote ∨ c = '\\' then some c
  else match c with
    | 'b' => some '\x08'
    | 'f' => some '\x0c'
    | 'n' => some '\n'
    | 'r' => some '\r'
    | 't' => some '\t'
    | 'v' => some '\x0b'
    | _ => none

/-- The characters that a literal stands for. -/
def unescape (quote : Char) : List Char → Except LexError (List Char)
  | [] => .ok []
  | '\\' :: [] => .error (.invalidEscape '\\')
  | '\\' :: c :: rest =>
    match escapedChar? quote c with
    | some value => (unescape quote rest).map (value :: ·)
    | none => .error (.invalidEscape c)
  | c :: rest => (unescape quote rest).map (c :: ·)

/-- Reads a string whose opening quote has been taken off. -/
def readString (rest : List Char) : Except LexError (Token × List Char) :=
  match splitLiteral '"' rest with
  | none => .error .unterminatedString
  | some (literal, left) =>
    (unescape '"' literal).map fun value => (.string (String.ofList value), left)

/-- Reads a character whose opening quote has been taken off. -/
def readCharacter (rest : List Char) : Except LexError (Token × List Char) :=
  match splitLiteral '\'' rest with
  | none => .error .unterminatedCharacter
  | some (literal, left) =>
    match unescape '\'' literal with
    | .error e => .error e
    | .ok [] => .error .emptyCharacter
    | .ok [c] => .ok (.character c, left)
    | .ok _ => .error .overlongCharacter

/-- Reads the name of a variable whose underscore has been taken off. -/
def readVariable (rest : List Char) : Except LexError (Token × List Char) :=
  let name := rest.takeWhile isBare
  if name.isEmpty then .error .emptyVariable
  else .ok (.variable (String.ofList ('_' :: name)), rest.dropWhile isBare)

/-- The token that a run of bare characters is: an integer when it is written as one. -/
def bareToken (run : List Char) : Token :=
  match integerOf? run with
  | some value => .integer value
  | none => .word (String.ofList run)

/-- Reads the token that starts with a character that is neither blank nor a semicolon. -/
def readToken (c : Char) (rest : List Char) : Except LexError (Token × List Char) :=
  if c = '"' then readString rest
  else if c = '\'' then readCharacter rest
  else if c = '_' then readVariable rest
  else .ok (bareToken (c :: rest.takeWhile isBare), rest.dropWhile isBare)

/-- The tokens of a comment whose semicolon has been taken off: none, unless it is a decoration. One
    space after the mark of a decoration does not belong to its text. -/
def commentTokens : List Char → List Token
  | '#' :: ';' :: ' ' :: text => [.decoration (String.ofList text)]
  | '#' :: ';' :: text => [.decoration (String.ofList text)]
  | _ => []

/-! Every token takes at least one character, so cutting up a line ends. -/

/-- What is left behind a literal is no longer than the text that it stands in. -/
theorem length_le_of_splitLiteral {quote : Char} {text literal left : List Char}
    (h : splitLiteral quote text = some (literal, left)) : left.length ≤ text.length := by
  fun_induction splitLiteral quote text generalizing literal left with
  | case1 => cases h
  | case2 => cases h
  | case3 => cases h
  | case4 c rest hc ih =>
    obtain ⟨p, hp, he⟩ := Option.map_eq_some_iff.1 h
    cases he
    have := ih hp
    simp only [List.length_cons]; omega
  | case5 => cases h
  | case6 => cases h; simp
  | case7 c rest _ _ _ _ ih =>
    obtain ⟨p, hp, he⟩ := Option.map_eq_some_iff.1 h
    cases he
    have := ih hp
    simp only [List.length_cons]; omega

/-- A token uses up a part of the text, so the lexer comes to an end. -/
theorem length_le_of_readToken {c : Char} {rest left : List Char} {t : Token}
    (h : readToken c rest = .ok (t, left)) : left.length ≤ rest.length := by
  have drop_le : (rest.dropWhile isBare).length ≤ rest.length :=
    (List.dropWhile_suffix _).length_le
  unfold readToken at h
  split at h
  · unfold readString at h
    split at h
    · cases h
    · next literal left' hs =>
      cases hu : unescape '"' literal with
      | error e => simp [hu, Except.map] at h
      | ok value =>
        simp only [hu, Except.map, Except.ok.injEq, Prod.mk.injEq] at h
        exact h.2 ▸ length_le_of_splitLiteral hs
  · split at h
    · unfold readCharacter at h
      split at h
      · cases h
      · next literal left' hs =>
        split at h <;> cases h
        exact length_le_of_splitLiteral hs
    · split at h
      · simp only [readVariable] at h
        split at h <;> cases h
        exact drop_le
      · cases h
        exact drop_le

theorem length_trimStart_le (text : List Char) : (Text.trimStart text).length ≤ text.length :=
  (List.dropWhile_suffix _).length_le

/-- The tokens of a line. -/
def tokenize (line : List Char) : Except LexError (List Token) :=
  match ht : Text.trimStart line with
  | [] => .ok []
  | c :: rest =>
    if c = ';' then .ok (commentTokens rest)
    else
      match h : readToken c rest with
      | .error e => .error e
      | .ok (token, left) =>
        have : left.length < line.length := by
          have h₁ := length_le_of_readToken h
          have h₂ := length_trimStart_le line
          rw [ht, List.length_cons] at h₂
          omega
        (tokenize left).map (token :: ·)
termination_by line.length

end Whitespace.Assembly
