/-
Module: Whitespace.Proofs.LiteralScanners
Purpose: The two scanners of a quoted literal pair its backslashes alike. One looks for the closing quote, by
  its place in bytes or by splitting the text there, and the other gives the characters that the literal
  stands for. Which characters are taken by a backslash before them is said of the text alone, place by
  place: then the closing quote is the first quote that is not taken, no literal ends in a backslash that
  takes nothing, and an escape that is not supported is all that can be wrong inside a literal.
Main exports: splitBytes?, quotedLiteral?, isTaken, Closes, Escapes, IsLiteral, closingOffset?_eq,
  isLiteral_of_splitLiteral, newline_before_of_splitLiteral_eq_none, unescape_eq_error_iff, literal_scanners_agree
-/
import Whitespace.Bytecode.Symbol
import Whitespace.Proofs.SilentText
import Whitespace.Proofs.WrittenLines

namespace Whitespace.Assembly

/-! ### Places in bytes -/

/-- Takes a number of bytes off the front of a text. There is nothing when the text is too short or a
    character would be cut. -/
def splitBytes? : Nat → List Char → Option (List Char × List Char)
  | 0, text => some ([], text)
  | _ + 1, [] => none
  | n + 1, c :: rest =>
    if c.utf8Size ≤ n + 1 then
      (splitBytes? (n + 1 - c.utf8Size) rest).map fun (front, back) => (c :: front, back)
    else none

def sliceBytes? (start stop : Nat) (text : List Char) : Option (List Char) := do
  let (_, back) ← splitBytes? start text
  let (slice, _) ← splitBytes? (stop - start) back
  return slice

/-- The place of the closing quote in a text of which `offset` bytes were passed. A backslash takes the
    character after it, and a literal ends on the line it starts on. -/
def closingOffset? (quote : Char) : Nat → List Char → Option Nat
  | _, [] => none
  | _, '\\' :: [] => none
  | offset, '\\' :: c :: rest =>
    if c = '\n' then none
    else closingOffset? quote (offset + Char.utf8Size '\\' + c.utf8Size) rest
  | offset, c :: rest =>
    if c = '\n' then none
    else if c = quote then some offset
    else closingOffset? quote (offset + c.utf8Size) rest

/-- The literal that a text starts with, without its quotes, and its length in bytes with them. -/
def quotedLiteral? (quote : Char) (text : List Char) : Option (List Char × Nat) := do
  let stop ← closingOffset? quote (byteLength (text.take 1)) (text.drop 1)
  let literal ← sliceBytes? 1 stop text
  return (literal, stop + 1)

/-! ### What backslashes take -/

/-- Is the character at a place taken by a backslash right before it, one that is not taken itself? -/
def isTaken (text : List Char) : Nat → Bool
  | 0 => false
  | k + 1 => decide (text[k]? = some '\\') && !isTaken text k

/-- A quote that is not taken stands at the place. -/
def Closes (quote : Char) (text : List Char) (k : Nat) : Prop :=
  text[k]? = some quote ∧ isTaken text k = false

/-- A backslash that is not taken stands at the place and takes the character. -/
def Escapes (text : List Char) (k : Nat) (c : Char) : Prop :=
  text[k]? = some '\\' ∧ isTaken text k = false ∧ text[k + 1]? = some c

/-- Every backslash that is not taken takes a character. -/
def Paired (text : List Char) : Prop :=
  ∀ k, text[k]? = some '\\' → isTaken text k = false → k + 1 < text.length

def escapable (quote : Char) : List Char := [quote, '\\', 'b', 'f', 'n', 'r', 't', 'v']

/-- The first escape that is not supported is that of the character. -/
def FirstRefused (quote : Char) (text : List Char) (c : Char) : Prop :=
  ∃ k, Escapes text k c ∧ c ∉ escapable quote ∧ ∀ j < k, ∀ d, Escapes text j d → d ∈ escapable quote

/-- The text goes on with the literal and its closing quote, which is the first one that is not taken and
    stands on the same line. -/
structure IsLiteral (quote : Char) (text literal left : List Char) : Prop where
  split : text = literal ++ quote :: left
  closes : Closes quote text literal.length
  first : ∀ k < literal.length, ¬Closes quote text k
  sameLine : '\n' ∉ literal

variable {quote c d : Char} {text rest literal left : List Char} {k : Nat}

theorem isTaken_cons (plain : c ≠ '\\') (text : List Char) (k : Nat) :
    isTaken (c :: text) (k + 1) = isTaken text k := by
  induction k with
  | zero => simp [isTaken, plain]
  | succ k ih => rw [isTaken, ih, List.getElem?_cons_succ, isTaken]

theorem isTaken_pair_one (c : Char) (text : List Char) : isTaken ('\\' :: c :: text) 1 = true := rfl

theorem isTaken_pair (c : Char) (text : List Char) (k : Nat) :
    isTaken ('\\' :: c :: text) (k + 2) = isTaken text k := by
  induction k with
  | zero => exact Bool.and_false _
  | succ k ih => rw [isTaken, ih, List.getElem?_cons_succ, List.getElem?_cons_succ, isTaken]

/-- What is taken at a place depends on the text before it. -/
theorem isTaken_append (h : k ≤ literal.length) (rest : List Char) :
    isTaken (literal ++ rest) k = isTaken literal k := by
  induction k with
  | zero => rfl
  | succ k ih => rw [isTaken, ih (by omega), List.getElem?_append_left (by omega), isTaken]

/-! ### The closing quote -/

theorem closes_cons (plain : c ≠ '\\') : Closes quote (c :: text) (k + 1) ↔ Closes quote text k := by
  rw [Closes, isTaken_cons plain, List.getElem?_cons_succ, Closes]

theorem not_closes_zero (other : c ≠ quote) : ¬Closes quote (c :: text) 0 := by
  rintro ⟨there, -⟩
  exact other (Option.some.inj there)

theorem not_closes_pair_one : ¬Closes quote ('\\' :: c :: text) 1 := by
  rintro ⟨-, free⟩
  rw [isTaken_pair_one] at free
  cases free

theorem closes_pair : Closes quote ('\\' :: c :: text) (k + 2) ↔ Closes quote text k := by
  rw [Closes, isTaken_pair, List.getElem?_cons_succ, List.getElem?_cons_succ, Closes]

/-- The literal goes on with a character that is neither a backslash nor the quote. -/
theorem IsLiteral.cons (plain : c ≠ '\\') (other : c ≠ quote) (newline : c ≠ '\n')
    (h : IsLiteral quote text literal left) : IsLiteral quote (c :: text) (c :: literal) left where
  split := by rw [h.split, List.cons_append]
  closes := (closes_cons plain).2 h.closes
  first := by
    rintro (_ | k) before
    · exact not_closes_zero other
    · rw [closes_cons plain]
      exact h.first k (Nat.lt_of_succ_lt_succ before)
  sameLine := by
    rw [List.mem_cons, not_or]
    exact ⟨Ne.symm newline, h.sameLine⟩

/-- The literal goes on with a backslash and the character that it takes. -/
theorem IsLiteral.pair (backslash : '\\' ≠ quote) (newline : c ≠ '\n')
    (h : IsLiteral quote text literal left) :
    IsLiteral quote ('\\' :: c :: text) ('\\' :: c :: literal) left where
  split := by rw [h.split, List.cons_append, List.cons_append]
  closes := closes_pair.2 h.closes
  first := by
    rintro (_ | _ | k) before
    · exact not_closes_zero backslash
    · exact not_closes_pair_one
    · rw [closes_pair]
      exact h.first k (by simpa using before)
  sameLine := by
    rw [List.mem_cons, List.mem_cons, not_or, not_or]
    exact ⟨by decide, Ne.symm newline, h.sameLine⟩

/-- A text is split at its closing quote. -/
theorem isLiteral_of_splitLiteral (backslash : '\\' ≠ quote)
    (h : splitLiteral quote text = some (literal, left)) : IsLiteral quote text literal left := by
  fun_induction splitLiteral quote text generalizing literal with
  | case1 => cases h
  | case2 => cases h
  | case3 => cases h
  | case4 c rest newline ih =>
      obtain ⟨⟨inside, behind⟩, split, same⟩ := Option.map_eq_some_iff.1 h
      cases same
      exact (ih split).pair backslash newline
  | case5 => cases h
  | case6 rest single double newline =>
      cases h
      exact ⟨rfl, ⟨rfl, rfl⟩, fun k before => absurd before k.not_lt_zero, List.not_mem_nil⟩
  | case7 c rest single double newline other ih =>
      obtain ⟨⟨inside, behind⟩, split, same⟩ := Option.map_eq_some_iff.1 h
      cases same
      exact (ih split).cons (ne_backslash_of_cases single double) other newline

/-- Where a text is not split, every quote that is not taken stands on a later line. -/
theorem newline_before_of_splitLiteral_eq_none (backslash : '\\' ≠ quote) (lineFeed : '\n' ≠ quote)
    (h : splitLiteral quote text = none) (closes : Closes quote text k) :
    ∃ j < k, text[j]? = some '\n' := by
  fun_induction splitLiteral quote text generalizing k with
  | case1 => cases closes.1
  | case2 =>
      cases k with
      | zero => exact absurd closes (not_closes_zero backslash)
      | succ k => cases closes.1
  | case3 rest =>
      rcases k with _ | _ | k
      · exact absurd closes (not_closes_zero backslash)
      · exact absurd closes not_closes_pair_one
      · exact ⟨1, by omega, rfl⟩
  | case4 c rest newline ih =>
      rcases k with _ | _ | k
      · exact absurd closes (not_closes_zero backslash)
      · exact absurd closes not_closes_pair_one
      · obtain ⟨j, before, there⟩ := ih (Option.map_eq_none_iff.1 h) (closes_pair.1 closes)
        exact ⟨j + 2, by omega, there⟩
  | case5 rest =>
      cases k with
      | zero => exact absurd closes (not_closes_zero lineFeed)
      | succ k => exact ⟨0, by omega, rfl⟩
  | case6 => cases h
  | case7 c rest single double newline other ih =>
      cases k with
      | zero => exact absurd closes (not_closes_zero other)
      | succ k =>
          have plain := ne_backslash_of_cases single double
          obtain ⟨j, before, there⟩ := ih (Option.map_eq_none_iff.1 h) ((closes_cons plain).1 closes)
          exact ⟨j + 1, by omega, there⟩

/-- No literal ends in a backslash that takes nothing: it would take the closing quote. -/
theorem IsLiteral.paired (h : IsLiteral quote text literal left) : Paired literal := by
  intro k backslash free
  have inside : k < literal.length := (List.getElem?_eq_some_iff.1 backslash).1
  rcases Nat.lt_or_eq_of_le (Nat.succ_le_of_lt inside) with before | last
  · exact before
  · have taken : isTaken text (k + 1) = true := by
      rw [h.split, isTaken, isTaken_append (Nat.le_of_lt inside), List.getElem?_append_left inside,
        backslash, free]
      rfl
    have closes := h.closes.2
    rw [← last, taken] at closes
    cases closes

/-! ### Escapes -/

theorem escapes_cons (plain : c ≠ '\\') : Escapes (c :: text) (k + 1) d ↔ Escapes text k d := by
  rw [Escapes, isTaken_cons plain, List.getElem?_cons_succ, List.getElem?_cons_succ, Escapes]

theorem not_escapes_zero (plain : c ≠ '\\') : ¬Escapes (c :: text) 0 d := by
  rintro ⟨backslash, -⟩
  exact plain (Option.some.inj backslash)

theorem escapes_pair_zero : Escapes ('\\' :: c :: text) 0 d ↔ c = d := by
  simp [Escapes, isTaken]

theorem not_escapes_pair_one : ¬Escapes ('\\' :: c :: text) 1 d := by
  rintro ⟨-, free, -⟩
  rw [isTaken_pair_one] at free
  cases free

theorem escapes_pair : Escapes ('\\' :: c :: text) (k + 2) d ↔ Escapes text k d := by
  rw [Escapes, isTaken_pair, List.getElem?_cons_succ, List.getElem?_cons_succ, List.getElem?_cons_succ,
    List.getElem?_cons_succ, Escapes]

theorem not_firstRefused_nil : ¬FirstRefused quote [] c := by
  rintro ⟨k, ⟨backslash, -⟩, -⟩
  cases backslash

/-- A plain character in front does not change which escape is refused first. -/
theorem firstRefused_cons (plain : c ≠ '\\') :
    FirstRefused quote (c :: text) d ↔ FirstRefused quote text d := by
  constructor
  · rintro ⟨_ | k, escapes, refused, before⟩
    · exact absurd escapes (not_escapes_zero plain)
    · refine ⟨k, (escapes_cons plain).1 escapes, refused, fun j earlier e there => ?_⟩
      exact before (j + 1) (by omega) e ((escapes_cons plain).2 there)
  · rintro ⟨k, escapes, refused, before⟩
    refine ⟨k + 1, (escapes_cons plain).2 escapes, refused, ?_⟩
    rintro (_ | j) earlier e there
    · exact absurd there (not_escapes_zero plain)
    · exact before j (by omega) e ((escapes_cons plain).1 there)

/-- An escape that is not supported is refused before any later one. -/
theorem firstRefused_pair_of_not_mem (refused : c ∉ escapable quote) :
    FirstRefused quote ('\\' :: c :: text) d ↔ c = d := by
  constructor
  · rintro ⟨_ | k, escapes, -, before⟩
    · exact escapes_pair_zero.1 escapes
    · exact absurd (before 0 k.succ_pos c (escapes_pair_zero.2 rfl)) refused
  · rintro rfl
    exact ⟨0, escapes_pair_zero.2 rfl, refused, fun j earlier => absurd earlier j.not_lt_zero⟩

/-- A supported escape in front does not change which escape is refused first. -/
theorem firstRefused_pair_of_mem (supported : c ∈ escapable quote) :
    FirstRefused quote ('\\' :: c :: text) d ↔ FirstRefused quote text d := by
  constructor
  · rintro ⟨_ | _ | k, escapes, refused, before⟩
    · exact absurd (escapes_pair_zero.1 escapes ▸ supported) refused
    · exact absurd escapes not_escapes_pair_one
    · refine ⟨k, escapes_pair.1 escapes, refused, fun j earlier e there => ?_⟩
      exact before (j + 2) (by omega) e (escapes_pair.2 there)
  · rintro ⟨k, escapes, refused, before⟩
    refine ⟨k + 2, escapes_pair.2 escapes, refused, ?_⟩
    rintro (_ | _ | j) earlier e there
    · exact escapes_pair_zero.1 there ▸ supported
    · exact absurd there not_escapes_pair_one
    · exact before j (by omega) e (escapes_pair.1 there)

theorem escapedChar?_eq_none_iff : escapedChar? quote c = none ↔ c ∉ escapable quote := by
  unfold escapedChar?
  split
  · next known => rcases known with rfl | rfl <;> simp [escapable]
  · next unknown => split <;> simp_all [escapable]

theorem Paired.cons (plain : c ≠ '\\') (h : Paired (c :: text)) : Paired text := by
  intro k backslash free
  have next := h (k + 1) (by rwa [List.getElem?_cons_succ]) (by rwa [isTaken_cons plain])
  exact Nat.lt_of_succ_lt_succ next

theorem Paired.pair (h : Paired ('\\' :: c :: text)) : Paired text := by
  intro k backslash free
  have next := h (k + 2) (by rwa [List.getElem?_cons_succ, List.getElem?_cons_succ]) (by rwa [isTaken_pair])
  exact Nat.lt_of_succ_lt_succ (Nat.lt_of_succ_lt_succ next)

/-- A mapped result fails as the result does. -/
theorem map_eq_error_iff {ε α β : Type} {r : Except ε α} {f : α → β} {e : ε} :
    r.map f = .error e ↔ r = .error e := by
  cases r <;> simp [Except.map]

/-- The first escape that is not supported is all that is wrong with a text whose backslashes all take a
    character. -/
theorem unescape_eq_error_iff {e : LexError} (paired : Paired text) :
    unescape quote text = .error e ↔ ∃ c, FirstRefused quote text c ∧ e = .invalidEscape c := by
  fun_induction unescape quote text with
  | case1 => simp [not_firstRefused_nil]
  | case2 => exact absurd (paired 0 rfl rfl) (by decide)
  | case3 c rest value known ih =>
      have supported : c ∈ escapable quote := by
        by_contra refused
        rw [escapedChar?_eq_none_iff.2 refused] at known
        cases known
      simp only [firstRefused_pair_of_mem supported, ← ih paired.pair, map_eq_error_iff]
  | case4 c rest unknown =>
      simp [firstRefused_pair_of_not_mem (escapedChar?_eq_none_iff.1 unknown), eq_comm]
  | case5 c rest single double ih =>
      have plain := ne_backslash_of_cases single double
      simp only [firstRefused_cons plain, ← ih (paired.cons plain), map_eq_error_iff]

/-! ### Bytes -/

theorem byteLength_append (front back : List Char) :
    byteLength (front ++ back) = byteLength front + byteLength back := by
  induction front with
  | nil => exact (Nat.zero_add _).symm
  | cons c front ih => rw [List.cons_append, byteLength, ih, byteLength, Nat.add_assoc]

/-- Bytes that are whole characters are taken off as these. -/
theorem splitBytes?_append (front back : List Char) :
    splitBytes? (byteLength front) (front ++ back) = some (front, back) := by
  induction front with
  | nil => rw [byteLength, List.nil_append, splitBytes?]
  | cons c front ih =>
      have size := c.utf8Size_pos
      obtain ⟨n, bytes⟩ : ∃ n, byteLength (c :: front) = n + 1 :=
        ⟨byteLength (c :: front) - 1, by rw [byteLength]; omega⟩
      have fits : c.utf8Size ≤ n + 1 := by
        rw [← bytes, byteLength]
        omega
      have more : n + 1 - c.utf8Size = byteLength front := by
        rw [← bytes, byteLength, Nat.add_sub_cancel_left]
      rw [bytes, List.cons_append, splitBytes?, if_pos fits, more, ih]
      rfl

theorem sliceBytes?_append (front middle back : List Char) :
    sliceBytes? (byteLength front) (byteLength front + byteLength middle) (front ++ (middle ++ back)) =
      some middle := by
  simp [sliceBytes?, splitBytes?_append]

/-- Looking for the place of the closing quote finds the end of what splitting gives. -/
theorem closingOffset?_eq (quote : Char) (offset : Nat) (text : List Char) :
    closingOffset? quote offset text =
      (splitLiteral quote text).map fun (literal, _) => offset + byteLength literal := by
  fun_induction closingOffset? quote offset text with
  | case1 => rfl
  | case2 => rfl
  | case3 => simp [splitLiteral]
  | case4 offset c rest newline ih =>
      rw [ih, splitLiteral, if_neg newline, Option.map_map]
      simp [Function.comp_def, byteLength, Nat.add_assoc]
  | case5 offset rest => simp [splitLiteral]
  | case6 offset rest single double newline =>
      have plain := ne_backslash_of_cases single double
      rw [splitLiteral_cons plain, if_neg newline, if_pos rfl]
      rfl
  | case7 offset c rest single double newline other ih =>
      have plain := ne_backslash_of_cases single double
      rw [splitLiteral_cons plain, if_neg newline, if_neg other, ih]
      simp [Function.comp_def, byteLength, Nat.add_assoc]

theorem backslash_ne_quote (isQuote : quote = '"' ∨ quote = '\'') : '\\' ≠ quote := by
  rcases isQuote with rfl | rfl <;> decide

/-- A quote is one byte. -/
theorem byteLength_quote (isQuote : quote = '"' ∨ quote = '\'') : byteLength [quote] = 1 := by
  rcases isQuote with rfl | rfl <;> decide

/-- The slice inside the quotes is what splitting gives, and no character is cut by its ends. -/
theorem quotedLiteral?_eq (isQuote : quote = '"' ∨ quote = '\'') (rest : List Char) :
    quotedLiteral? quote (quote :: rest) =
      (splitLiteral quote rest).map fun (literal, _) =>
        (literal, byteLength (quote :: (literal ++ [quote]))) := by
  have one := byteLength_quote isQuote
  have backslash := backslash_ne_quote isQuote
  have offset : byteLength ((quote :: rest).take 1) = 1 := one
  rw [quotedLiteral?, offset, List.drop_one, List.tail_cons, closingOffset?_eq]
  cases found : splitLiteral quote rest with
  | none => rfl
  | some result =>
      obtain ⟨literal, left⟩ := result
      obtain rfl := (isLiteral_of_splitLiteral backslash found).split
      have slice := sliceBytes?_append [quote] literal (quote :: left)
      have whole : byteLength (quote :: (literal ++ [quote])) = 1 + byteLength literal + 1 := by
        rw [← List.singleton_append, byteLength_append, byteLength_append, one, Nat.add_assoc]
      rw [one, List.singleton_append] at slice
      simp [slice, whole]

/-- The scanners of a literal agree. For any text behind an opening quote, the place of the closing quote in
    bytes and the slice before it are what splitting the text gives, and the ends of the slice cut no
    character. When there is a literal, the text starts with it between its quotes, which is the length in
    bytes; the closing quote is the first one that no backslash takes, and stands on the same line; every
    backslash of the literal that is not taken takes a character of it, so reading the characters fails
    exactly when one of them has no escape, for the first such one, and never for a backslash at the end. And
    there is no literal exactly when every quote that is not taken stands behind a line feed. -/
theorem literal_scanners_agree {quote : Char} (isQuote : quote = '"' ∨ quote = '\'') (rest : List Char) :
    (closingOffset? quote 1 rest =
      (splitLiteral quote rest).map fun (literal, _) => 1 + byteLength literal) ∧
      (quotedLiteral? quote (quote :: rest) =
        (splitLiteral quote rest).map fun (literal, _) =>
          (literal, byteLength (quote :: (literal ++ [quote])))) ∧
      (∀ literal length, quotedLiteral? quote (quote :: rest) = some (literal, length) →
        ∃ left, splitLiteral quote rest = some (literal, left) ∧ IsLiteral quote rest literal left ∧
          splitBytes? length (quote :: rest) = some (quote :: (literal ++ [quote]), left) ∧
          Paired literal ∧
          (∀ e, unescape quote literal = .error e ↔
            ∃ c, FirstRefused quote literal c ∧ e = .invalidEscape c) ∧
          unescape quote literal ≠ .error (.invalidEscape '\\')) ∧
      (quotedLiteral? quote (quote :: rest) = none ↔
        ∀ k, Closes quote rest k → ∃ j < k, rest[j]? = some '\n') := by
  have backslash := backslash_ne_quote isQuote
  have lineFeed : '\n' ≠ quote := by rcases isQuote with rfl | rfl <;> decide
  have agree := quotedLiteral?_eq isQuote rest
  refine ⟨closingOffset?_eq quote 1 rest, agree, ?_, ?_⟩
  · intro literal length found
    rw [agree] at found
    obtain ⟨⟨literal, left⟩, split, same⟩ := Option.map_eq_some_iff.1 found
    obtain ⟨rfl, rfl⟩ := Prod.mk.inj same
    have isLiteral := isLiteral_of_splitLiteral backslash split
    have wrong (e : LexError) : unescape quote literal = .error e ↔
        ∃ c, FirstRefused quote literal c ∧ e = .invalidEscape c :=
      unescape_eq_error_iff isLiteral.paired
    refine ⟨left, split, isLiteral, ?_, isLiteral.paired, wrong, ?_⟩
    · have whole := splitBytes?_append (quote :: (literal ++ [quote])) left
      rwa [List.cons_append, List.append_assoc, List.singleton_append, ← isLiteral.split] at whole
    · intro fault
      obtain ⟨c, ⟨k, -, refused, -⟩, same⟩ := (wrong _).1 fault
      cases same
      exact refused (by simp [escapable])
  · rw [agree, Option.map_eq_none_iff]
    constructor
    · intro missing k closes
      exact newline_before_of_splitLiteral_eq_none backslash lineFeed missing closes
    · intro later
      cases found : splitLiteral quote rest with
      | none => rfl
      | some result =>
          obtain ⟨literal, left⟩ := result
          have isLiteral := isLiteral_of_splitLiteral backslash found
          obtain ⟨j, before, there⟩ := later _ isLiteral.closes
          rw [isLiteral.split, List.getElem?_append_left before] at there
          exact absurd (List.mem_of_getElem? there) isLiteral.sameLine

/-- A string with an escaped quote, a pair of backslashes and an escape that is not supported, and a quote
    that is taken in front of the end. -/
theorem literal_scanners_agree_mixed :
    quotedLiteral? '"' "\"é\\\"\\\\\\q\" x".toList = some ("é\\\"\\\\\\q".toList, 10) ∧
      unescape '"' "é\\\"\\\\\\q".toList = .error (.invalidEscape 'q') ∧
      FirstRefused '"' "é\\\"\\\\\\q".toList 'q' ∧
      quotedLiteral? '\'' "'\\\\\\'".toList = none := by
  have found : quotedLiteral? '"' ('"' :: "é\\\"\\\\\\q\" x".toList) =
      some ("é\\\"\\\\\\q".toList, 10) := by
    decide +kernel
  obtain ⟨left, -, -, -, -, wrong, -⟩ := (literal_scanners_agree (Or.inl rfl) _).2.2.1 _ _ found
  have fault : unescape '"' "é\\\"\\\\\\q".toList = .error (.invalidEscape 'q') := by decide +kernel
  obtain ⟨c, refused, same⟩ := (wrong _).1 fault
  cases same
  exact ⟨found, fault, refused, by decide +kernel⟩

end Whitespace.Assembly
