/-
Module: Whitespace.Proofs.SilentLines
Purpose: Silent lines make no difference to which other lines are live, nor to the instructions that
  lines are lowered to. Both are told by the lines that say something, with what they say for their
  tokens: a silent line passes control on, defines no label and makes no statement.
Main exports: spokenLines, live_pick_iff, sayings_reachableLines, lower_spokenLines, lower_congr
-/
import Whitespace.Proofs.KeptLines
import Whitespace.Proofs.SilentExpansion

namespace Whitespace.Assembly

/-! ### One line -/

/-- A line that has only tokens. -/
def Line.spoken (tokens : List Token) : Line := ⟨"", 0, tokens⟩

/-- The lines that say something, with what they say for their tokens. -/
def spokenLines (lines : List Line) : List Line :=
  (lines.filterMap Line.saying?).map Line.spoken

section

variable {options : Options} {vs : Variables} {l l' : Line} {tokens : List Token}

theorem Token.erased_erased (t : Token) : t.erased.erased = t.erased := by
  cases t <;> rfl

theorem Line.eq_of_saying? (h : l.saying? = some tokens) : tokens = l.tokens.map Token.erased := by
  unfold saying? at h
  split at h
  · cases h
  · cases h
  · exact (Option.some.inj h).symm

/-- A line says what it says also without its source, its number and the text of its remarks. -/
theorem Line.saying?_spoken (h : l.saying? = some tokens) :
    (Line.spoken tokens).saying? = some tokens := by
  have whole := eq_of_saying? h
  rw [← h]
  unfold saying? spoken
  have same : tokens.map Token.erased = l.tokens.map Token.erased := by
    rw [whole, List.map_map]
    exact List.map_congr_left fun t _ => Token.erased_erased t
  rw [same]

/-- The lines that make no statement are the silent ones. -/
theorem Statement.ofLine_eq_none_iff :
    Statement.ofLine options vs l = .ok none ↔ l.saying? = none := by
  unfold ofLine Line.saying?
  cases l.tokens with
  | nil => simp
  | cons t rest =>
      cases t with
      | decoration text => simp [Token.erased]
      | word name =>
          simp only [List.map_cons, Token.erased, reduceCtorEq, iff_false]
          cases readStatement options vs (Text.lowerText name) rest <;> simp [Except.map]
      | _ => simp [Token.erased]

/-- Tokens without remarks are told by their erased forms. -/
theorem tokens_eq_of_erased {tokens' : List Token}
    (same : tokens'.map Token.erased = tokens.map Token.erased)
    (plain : ∀ t ∈ tokens, t.kind ≠ .decoration) : tokens' = tokens := by
  induction tokens generalizing tokens' with
  | nil => exact List.map_eq_nil_iff.1 same
  | cons t rest ih =>
      rw [List.map_cons, List.map_eq_cons_iff] at same
      obtain ⟨t', rest', rfl, first, others⟩ := same
      rw [List.forall_mem_cons] at plain
      rw [Token.eq_of_erased first plain.1, ih others plain.2]

/-- Lines that say the same make the same statement, when they make one. -/
theorem Statement.ofLine_of_saying? {s? : Option Statement} (h : Statement.ofLine options vs l = .ok s?)
    (said : l.saying? = some tokens) (said' : l'.saying? = some tokens) :
    Statement.ofLine options vs l' = .ok s? := by
  cases s? with
  | none =>
      rw [ofLine_eq_none_iff, said] at h
      cases h
  | some s =>
      obtain ⟨name, arguments, opcode, htokens, -, fit⟩ := exists_opcode_of_ofLine h
      have plain : ∀ t ∈ l.tokens, t.kind ≠ .decoration := by
        rw [htokens, List.forall_mem_cons]
        exact ⟨by simp [Token.kind], fit.plain⟩
      have same : l'.tokens = l.tokens := by
        apply tokens_eq_of_erased _ plain
        rw [← Line.eq_of_saying? said', ← Line.eq_of_saying? said]
      rw [← h]
      unfold ofLine
      rw [same]

/-- What a line says is enough to read its statement. -/
theorem Statement.ofLine_spoken_iff {s? : Option Statement} (said : l.saying? = some tokens) :
    Statement.ofLine options vs (.spoken tokens) = .ok s? ↔ Statement.ofLine options vs l = .ok s? := by
  have said' := Line.saying?_spoken said
  constructor
  · intro h
    exact ofLine_of_saying? h said' said
  · intro h
    exact ofLine_of_saying? h said said'

/-- A silent line passes control on. -/
theorem Line.conduct_of_silent (h : l.saying? = none) : l.conduct = ⟨none, none, true⟩ := by
  have nothing : Statement.ofLine {} [] l = .ok none := Statement.ofLine_eq_none_iff.2 h
  exact conduct_of_ofLine_none nothing

/-- The text of its remarks has nothing to do with the conduct of a line. -/
theorem Line.conduct_spoken (said : l.saying? = some tokens) : (Line.spoken tokens).conduct = l.conduct := by
  have opcode : (Line.spoken tokens).opcode? = l.opcode? := by
    rw [eq_of_saying? said]
    unfold Line.opcode? spoken
    cases l.tokens with
    | nil => rfl
    | cons t rest => cases t <;> rfl
  have label : (Line.spoken tokens).labelName? = l.labelName? := by
    rw [eq_of_saying? said]
    unfold Line.labelName? Line.arguments spoken
    cases l.tokens with
    | nil => rfl
    | cons t rest =>
        cases rest with
        | nil => rfl
        | cons u more => cases u <;> rfl
  unfold Line.conduct Line.marksLabel Line.refersTo Line.continues Line.opcodeText
  rw [opcode, label]

end

/-! ### Live lines -/

section

variable {seen : Nat → Bool} {conducts : List Conduct} {j k : Nat}

/-- Control goes on from a live line over lines that only pass it on. -/
theorem Live.over (quiet : ∀ i c, conducts[i]? = some c → seen i = false → c = ⟨none, none, true⟩)
    (live : Live conducts j) (after : j ≤ k) (inside : k < conducts.length)
    (same : rank seen j = rank seen k) : Live conducts k := by
  induction k, after using Nat.le_induction with
  | base => exact live
  | succ k after ih =>
      have low : rank seen j ≤ rank seen k := rank_mono seen after
      have high : rank seen k ≤ rank seen (k + 1) := rank_mono seen (Nat.le_succ k)
      have hidden : seen k = false := by
        by_contra shown
        have next : rank seen (k + 1) = rank seen k + 1 := rank_succ_of_keep (by simpa using shown)
        omega
      have bound : k < conducts.length := Nat.lt_of_succ_lt inside
      have before : conducts[k]? = some conducts[k] := List.getElem?_eq_getElem bound
      have passes : conducts[k] = ⟨none, none, true⟩ := quiet k _ before hidden
      refine .following (ih bound (by omega)) before ?_ (List.getElem?_eq_getElem inside)
      rw [passes]

/-- A live line stays live at its rank when lines are left out that only pass control on. -/
theorem Live.into_pick (quiet : ∀ i c, conducts[i]? = some c → seen i = false → c = ⟨none, none, true⟩)
    (live : Live conducts k) (inside : rank seen k < (pick seen 0 conducts).length) :
    Live (pick seen 0 conducts) (rank seen k) := by
  have known : ∀ {r}, r < (pick seen 0 conducts).length →
      ∃ c, (pick seen 0 conducts)[r]? = some c := fun bound => ⟨_, List.getElem?_eq_getElem bound⟩
  induction live with
  | first here =>
      rw [rank_zero] at inside ⊢
      obtain ⟨c, first⟩ := known inside
      exact .first first
  | @following k c d live before continues here ih =>
      cases shown : seen k with
      | true =>
          rw [rank_succ_of_keep shown] at inside ⊢
          obtain ⟨c', next⟩ := known inside
          refine .following (ih (Nat.lt_of_succ_lt inside)) ?_ continues next
          rw [pick_getElem? shown]
          exact before
      | false =>
          rw [rank_succ_of_drop shown] at inside ⊢
          exact ih inside
  | @referred k j c d name live before refers here marks ih =>
      have source : seen k = true := by
        by_contra hidden
        have passes := quiet k c before (by simpa using hidden)
        rw [passes] at refers
        cases refers
      have target : seen j = true := by
        by_contra hidden
        have passes := quiet j d here (by simpa using hidden)
        rw [passes] at marks
        cases marks
      rw [← pick_getElem? source] at before
      rw [← pick_getElem? target] at here
      exact .referred (ih (List.getElem?_eq_some_iff.1 before).1) before refers here marks

/-- A line that is live among the lines seen is live among all lines. -/
theorem Live.of_pick {r : Nat}
    (quiet : ∀ i c, conducts[i]? = some c → seen i = false → c = ⟨none, none, true⟩)
    (live : Live (pick seen 0 conducts) r) (shown : seen k = true) (inside : k < conducts.length)
    (place : rank seen k = r) : Live conducts k := by
  induction live generalizing k with
  | first here =>
      have first : Live conducts 0 := .first (List.getElem?_eq_getElem (Nat.zero_lt_of_lt inside))
      exact first.over quiet (Nat.zero_le k) inside (by rw [rank_zero, place])
  | @following r c d live before continues here ih =>
      obtain ⟨j, shown', item, rfl⟩ := exists_of_pick_getElem? before
      have earlier : j < k := by
        by_contra later
        have order := rank_mono seen (Nat.le_of_not_lt later)
        omega
      have bound : j < conducts.length := Nat.lt_trans earlier inside
      have next : Live conducts (j + 1) :=
        .following (ih shown' bound rfl) item continues
          (List.getElem?_eq_getElem (Nat.lt_of_le_of_lt earlier inside))
      apply next.over quiet earlier inside
      rw [rank_succ_of_keep shown', place]
  | @referred r r' c d name live before refers here marks ih =>
      obtain ⟨j, shown', item, rfl⟩ := exists_of_pick_getElem? before
      rw [← place, pick_getElem? shown] at here
      exact .referred (ih shown' (List.getElem?_eq_some_iff.1 item).1 rfl) item refers here marks

/-- Leaving out lines that only pass control on makes no other line live or dead. -/
theorem live_pick_iff (quiet : ∀ i c, conducts[i]? = some c → seen i = false → c = ⟨none, none, true⟩)
    (shown : seen k = true) (inside : k < conducts.length) :
    Live (pick seen 0 conducts) (rank seen k) ↔ Live conducts k := by
  constructor
  · intro live
    exact live.of_pick quiet shown inside rfl
  · intro live
    apply live.into_pick quiet
    have here : (pick seen 0 conducts)[rank seen k]? = some conducts[k] := by
      rw [pick_getElem? shown]
      exact List.getElem?_eq_getElem inside
    exact (List.getElem?_eq_some_iff.1 here).1

end

/-! ### All lines -/

theorem spokenLines_of_silent {l : Line} {rest : List Line} (silent : l.saying? = none) :
    spokenLines (l :: rest) = spokenLines rest := by
  unfold spokenLines
  rw [List.filterMap_cons_none silent]

theorem spokenLines_of_said {l : Line} {rest : List Line} {tokens : List Token}
    (said : l.saying? = some tokens) :
    spokenLines (l :: rest) = .spoken tokens :: spokenLines rest := by
  unfold spokenLines
  rw [List.filterMap_cons_some said, List.map_cons]

/-- Which lines that say something are live is told by what lines say. -/
theorem sayings_reachableLines (lines : List Line) :
    (reachableLines lines).filterMap Line.saying? =
      pick (keptPlaces (spokenLines lines)) 0 (lines.filterMap Line.saying?) := by
  let seen : Nat → Bool := fun k => (lines[k]?.bind Line.saying?).isSome
  have shown : ∀ i l, lines[i]? = some l → seen (0 + i) = l.saying?.isSome := by
    intro i l item
    simp only [seen, Nat.zero_add, item, Option.bind_some]
  have conducts : (spokenLines lines).map Line.conduct = pick seen 0 (lines.map Line.conduct) := by
    unfold spokenLines
    rw [List.map_map]
    exact map_filterMap_eq_pick shown fun l tokens said => Line.conduct_spoken said
  have quiet : ∀ i c, (lines.map Line.conduct)[i]? = some c → seen i = false → c = ⟨none, none, true⟩ := by
    intro i c item hidden
    obtain ⟨l, line, rfl⟩ := exists_line_of_conduct item
    have silent := shown i l line
    rw [Nat.zero_add, hidden] at silent
    exact Line.conduct_of_silent (Option.isNone_iff_eq_none.1 (Option.isSome_eq_false_iff.1 silent.symm))
  rw [reachableLines_eq_pick, filterMap_pick shown, rank_zero]
  intro i inside spoken
  rw [Nat.zero_add] at spoken ⊢
  have bound : i < (lines.map Line.conduct).length := by rwa [List.length_map]
  have place : rank seen i < (spokenLines lines).length := by
    have item : (pick seen 0 (lines.map Line.conduct))[rank seen i]? = some _ :=
      (pick_getElem? spoken).trans (List.getElem?_eq_getElem bound)
    rw [← conducts] at item
    have fits := (List.getElem?_eq_some_iff.1 item).1
    rwa [List.length_map] at fits
  rw [Bool.eq_iff_iff, keptPlaces_iff, keptPlaces_iff, conducts, live_pick_iff quiet spoken bound]
  simp only [Nat.not_le.2 inside, Nat.not_le.2 place]

section

variable {options : Options} {vs : Variables} {lines : List Line}

/-- Lines can be read when those that say something can. -/
theorem readable_spokenLines_iff :
    (readStatements options vs (spokenLines lines)).error? = none ↔
      (readStatements options vs lines).error? = none := by
  induction lines generalizing vs with
  | nil => rfl
  | cons l rest ih =>
      cases said : l.saying? with
      | none =>
          have silent : Statement.ofLine options vs l = .ok none := Statement.ofLine_eq_none_iff.2 said
          rw [spokenLines_of_silent said, ih]
          conv => rhs; rw [readStatements, silent]
      | some tokens =>
          rw [spokenLines_of_said said, readStatements_cons_error?, readStatements_cons_error?]
          simp only [Statement.ofLine_spoken_iff said, ih]

/-- Silent lines make no statements. -/
theorem statements_spokenLines (readable : (readStatements options vs lines).error? = none) :
    (readStatements options vs (spokenLines lines)).statements.map Prod.snd =
      (readStatements options vs lines).statements.map Prod.snd := by
  induction lines generalizing vs with
  | nil => rfl
  | cons l rest ih =>
      obtain ⟨s?, hl, others⟩ := readStatements_cons_error?.1 readable
      cases said : l.saying? with
      | none =>
          rw [Statement.ofLine_eq_none_iff.2 said] at hl
          cases hl
          rw [spokenLines_of_silent said, readStatements_cons (Statement.ofLine_eq_none_iff.2 said)]
          exact ih others
      | some tokens =>
          rw [spokenLines_of_said said, readStatements_cons hl,
            readStatements_cons ((Statement.ofLine_spoken_iff said).2 hl), ih others]

/-- The instructions that lines are lowered to, in terms of their statements. -/
theorem lower_instructions_iff {instructions : List Instruction} :
    (lower { options } lines).1.map Lowered.instructions = .ok instructions ↔
      (readStatements options [] lines).error? = none ∧
        LineProgram.Closed (.ofLines options [] lines) ∧
        instructions = LineProgram.code (.ofLines options [] lines) := by
  constructor
  · intro h
    cases lowered : (lower { options } lines).1 with
    | error e =>
        rw [lowered] at h
        cases h
    | ok result =>
        rw [lowered] at h
        obtain ⟨readable, closed, rfl⟩ := lower_eq_ok_iff.1 lowered
        cases h
        exact ⟨readable, closed, rfl⟩
  · rintro ⟨readable, closed, rfl⟩
    rw [lower_eq_ok_iff.2 ⟨readable, closed, rfl⟩]
    rfl

theorem LineProgram.closed_iff_of_reduceOption {p q : LineProgram}
    (same : p.reduceOption = q.reduceOption) : p.Closed ↔ q.Closed := by
  have member : ∀ s, some s ∈ p ↔ some s ∈ q := by
    intro s
    rw [← List.reduceOption_mem_iff, same, List.reduceOption_mem_iff]
  unfold Closed
  simp only [member]

/-- Lines are lowered to the instructions of those that say something. -/
theorem lower_spokenLines {instructions : List Instruction} :
    (lower { options } (spokenLines lines)).1.map Lowered.instructions = .ok instructions ↔
      (lower { options } lines).1.map Lowered.instructions = .ok instructions := by
  rw [lower_instructions_iff, lower_instructions_iff, readable_spokenLines_iff]
  apply and_congr_right
  intro readable
  have same : (LineProgram.ofLines options [] (spokenLines lines)).reduceOption =
      (LineProgram.ofLines options [] lines).reduceOption := by
    rw [← readStatements_map_snd readable, ← statements_spokenLines readable,
      readStatements_map_snd (readable_spokenLines_iff.2 readable)]
  have code : LineProgram.code (.ofLines options [] (spokenLines lines)) =
      LineProgram.code (.ofLines options [] lines) := by
    unfold LineProgram.code LineProgram.emit
    rw [same]
  rw [LineProgram.closed_iff_of_reduceOption same, code]

/-- Lines that say the same are lowered to the same instructions, dead lines being dropped. -/
theorem lower_reachableLines_congr {lines' : List Line} {instructions : List Instruction}
    (same : lines'.filterMap Line.saying? = lines.filterMap Line.saying?) :
    (lower { options } (reachableLines lines')).1.map Lowered.instructions = .ok instructions ↔
      (lower { options } (reachableLines lines)).1.map Lowered.instructions = .ok instructions := by
  have spoken : spokenLines lines' = spokenLines lines := by
    unfold spokenLines
    rw [same]
  have reached : spokenLines (reachableLines lines') = spokenLines (reachableLines lines) := by
    conv => lhs; unfold spokenLines
    conv => rhs; unfold spokenLines
    rw [sayings_reachableLines, sayings_reachableLines, spoken, same]
  rw [← lower_spokenLines, reached, lower_spokenLines]

/-- Lines that say the same lower to the same instructions, whatever silent lines stand between them. -/
theorem exists_lowered_of_sayings {lines' : List Line} {lowered : Lowered}
    (accepted : (lower { options } (reachableLines lines)).1 = .ok lowered)
    (same : lines'.filterMap Line.saying? = lines.filterMap Line.saying?) :
    ∃ lowered', (lower { options } (reachableLines lines')).1 = .ok lowered' ∧
      lowered'.instructions = lowered.instructions := by
  have instructions := congrArg (Except.map Lowered.instructions) accepted
  exact map_eq_ok.1 ((lower_reachableLines_congr same).2 instructions)

end

end Whitespace.Assembly
