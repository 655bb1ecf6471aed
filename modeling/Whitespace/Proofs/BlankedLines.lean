/-
Module: Whitespace.Proofs.BlankedLines
Purpose: Dead lines made blank instead of dropped. Blank lines keep the places of the other lines, and
  lowering takes no notice of them. Lines that have nothing to do with variables make their statements
  wherever they stand, so a block of such lines can be put between other lines without a change to what
  these mean.
Main exports: blanked, lower_blanked, Line.Bare, readable_arrange_iff, ofLines_arrange
-/
import Whitespace.Proofs.Detours
import Whitespace.Proofs.VariableValues

namespace Whitespace.Assembly

/-! ### Blank lines -/

def Line.blank (l : Line) : Line := { l with tokens := [] }

/-- The lines, blank but at the places to be kept. -/
def blanked (keep : Nat → Bool) (lines : List Line) : List Line :=
  lines.mapIdx fun k l => if keep k then l else l.blank

section

variable {options : Options} {vs : Variables} {keep : Nat → Bool} {lines : List Line} {l : Line} {k : Nat}

theorem Line.ofLine_blank : Statement.ofLine options vs l.blank = .ok none := rfl

theorem Line.conduct_blank : l.blank.conduct = ⟨none, none, true⟩ := by
  have silent : Statement.ofLine {} [] l.blank = .ok none := ofLine_blank
  exact conduct_of_ofLine_none silent

/-- Blanking lines and leaving them out come to the same statements. -/
theorem readStatements_blanked_from (keep : Nat → Bool) (start : Nat) (vs : Variables) (lines : List Line) :
    readStatements options vs (lines.mapIdx fun k l => if keep (start + k) then l else l.blank) =
      readStatements options vs (pick keep start lines) := by
  induction lines generalizing start vs with
  | nil => rfl
  | cons l rest ih =>
      have others (vs : Variables) := ih (start + 1) vs
      simp only [succ_add_place] at others
      rw [List.mapIdx_cons, Nat.add_zero, pick]
      cases keep start with
      | true => simp only [if_true, readStatements, others]
      | false =>
          simp only [Bool.false_eq_true, if_false]
          rw [readStatements, Line.ofLine_blank]
          exact others vs

/-- Blanking lines and leaving them out come to the same remarks. -/
theorem decorations_blanked_from (keep : Nat → Bool) (start : Nat) (lines : List Line) :
    (lines.mapIdx fun k l => if keep (start + k) then l else l.blank).filterMap Line.decoration? =
      (pick keep start lines).filterMap Line.decoration? := by
  induction lines generalizing start with
  | nil => rfl
  | cons l rest ih =>
      have others := ih (start + 1)
      simp only [succ_add_place] at others
      rw [List.mapIdx_cons, Nat.add_zero, pick]
      cases keep start with
      | true => simp only [if_true, List.filterMap_cons, others]
      | false =>
          simp only [Bool.false_eq_true, if_false, ← others]
          exact List.filterMap_cons_none rfl

/-- Blank lines are lowered as if they were dropped. -/
theorem lower_blanked (ctx : Context) (lines : List Line) :
    lower ctx (blanked (keptPlaces lines) lines) = lower ctx (reachableLines lines) := by
  have statements (vs : Variables) := @readStatements_blanked_from ctx.options (keptPlaces lines) 0 vs lines
  have decorations := decorations_blanked_from (keptPlaces lines) 0 lines
  simp only [Nat.zero_add] at statements decorations
  simp only [lower, reachableLines_eq_pick, blanked, statements, decorations]

theorem blanked_getElem? (keep : Nat → Bool) (lines : List Line) (k : Nat) :
    (blanked keep lines)[k]? = lines[k]?.map fun l => if keep k then l else l.blank := by
  rw [blanked, List.getElem?_mapIdx]

/-- The conduct of a blanked line is that of the line, if it was kept. -/
theorem conductOf_blanked (readable : (readStatements options vs (blanked keep lines)).error? = none)
    {s? : Option Statement} (line : (LineProgram.ofLines options vs (blanked keep lines))[k]? = some s?) :
    ∃ l, lines[k]? = some l ∧ conductOf s? = if keep k then l.conduct else ⟨none, none, true⟩ := by
  have same := congrArg (·[k]?) (LineProgram.map_conductOf_ofLines readable)
  simp only [List.getElem?_map, line, Option.map_some, blanked_getElem?] at same
  obtain ⟨l', item, conduct⟩ := Option.map_eq_some_iff.1 same.symm
  obtain ⟨l, here, rfl⟩ := Option.map_eq_some_iff.1 item
  refine ⟨l, here, conduct.symm.trans ?_⟩
  cases keep k with
  | true => rfl
  | false => exact Line.conduct_blank

/-- A line that has a statement was kept. -/
theorem keep_of_blanked_statement {s : Statement} {l' : Line} (line : (blanked keep lines)[k]? = some l')
    (read : Statement.ofLine options vs l' = .ok (some s)) : keep k = true ∧ lines[k]? = some l' := by
  rw [blanked_getElem?, Option.map_eq_some_iff] at line
  obtain ⟨l, here, rfl⟩ := line
  cases kept : keep k with
  | true =>
      rw [kept, if_pos rfl] at read
      simp [here]
  | false =>
      rw [kept, if_neg nofun, Line.ofLine_blank] at read
      cases read

end

/-! ### Lines without variables -/

/-- The line neither reads nor defines a variable. -/
def Line.Bare (l : Line) : Prop := l.reads? = none ∧ l.isDefinition = false

section

variable {options : Options} {vs vs' : Variables} {l : Line} {lines block rest : List Line}

theorem Line.bare_blank (l : Line) : l.blank.Bare := ⟨rfl, rfl⟩

theorem Line.Bare.ofLine_eq (bare : l.Bare) (vs vs' : Variables) :
    Statement.ofLine options vs l = Statement.ofLine options vs' l := by
  apply ofLine_congr
  intro name reads
  rw [bare.1] at reads
  cases reads

/-- Lines are read one after another, the later ones with the variables that the earlier ones have defined.
    -/
theorem ofLines_append (options : Options) (vs : Variables) (lines rest : List Line) :
    LineProgram.ofLines options vs (lines ++ rest) =
      LineProgram.ofLines options vs lines ++
        LineProgram.ofLines options ((LineProgram.ofLines options vs lines).variablesAfter vs) rest := by
  induction lines generalizing vs with
  | nil => rfl
  | cons l lines ih =>
      rw [List.cons_append, LineProgram.ofLines, LineProgram.ofLines]
      split <;> rw [ih] <;> rfl

/-- All lines can be read exactly if the first ones can and the others can after them. -/
theorem readable_append_iff :
    (readStatements options vs (lines ++ rest)).error? = none ↔
      (readStatements options vs lines).error? = none ∧
        (readStatements options ((LineProgram.ofLines options vs lines).variablesAfter vs) rest).error? =
          none := by
  induction lines generalizing vs with
  | nil => exact (and_iff_right rfl).symm
  | cons l lines ih =>
      rw [List.cons_append, readStatements_cons_error?, readStatements_cons_error?]
      constructor
      · rintro ⟨s?, read, others⟩
        obtain ⟨first, second⟩ := ih.1 others
        refine ⟨⟨s?, read, first⟩, ?_⟩
        rwa [LineProgram.ofLines_cons read]
      · rintro ⟨⟨s?, read, first⟩, second⟩
        rw [LineProgram.ofLines_cons read] at second
        exact ⟨s?, read, ih.2 ⟨first, second⟩⟩

/-- The statements of the first lines are the first statements. -/
theorem ofLines_take (options : Options) (vs : Variables) (lines : List Line) (k : Nat) :
    LineProgram.ofLines options vs (lines.take k) = (LineProgram.ofLines options vs lines).take k := by
  induction lines generalizing vs k with
  | nil => rw [List.take_nil, LineProgram.ofLines, List.take_nil]
  | cons l lines ih =>
      cases k with
      | zero => rfl
      | succ k =>
          rw [List.take_succ_cons, LineProgram.ofLines, LineProgram.ofLines]
          split <;> rw [ih, List.take_succ_cons]

/-- The statements of the other lines, read after the first ones, are the other statements. -/
theorem ofLines_drop (options : Options) (vs : Variables) (lines : List Line) (k : Nat) :
    LineProgram.ofLines options ((LineProgram.ofLines options vs (lines.take k)).variablesAfter vs)
        (lines.drop k) =
      (LineProgram.ofLines options vs lines).drop k := by
  have whole := ofLines_append options vs (lines.take k) (lines.drop k)
  rw [List.take_append_drop, ofLines_take] at whole
  rw [ofLines_take]
  rw [← List.append_right_inj ((LineProgram.ofLines options vs lines).take k), ← whole,
    List.take_append_drop]

/-- Lines without variables are the same program with whatever variables. -/
theorem ofLines_of_bare (bare : ∀ l ∈ block, l.Bare) (vs vs' : Variables) :
    LineProgram.ofLines options vs block = LineProgram.ofLines options vs' block ∧
      (LineProgram.ofLines options vs block).variablesAfter vs = vs := by
  induction block generalizing vs vs' with
  | nil => exact ⟨rfl, rfl⟩
  | cons l block ih =>
      rw [List.forall_mem_cons] at bare
      have same : Statement.ofLine options vs l = Statement.ofLine options vs' l :=
        bare.1.ofLine_eq vs vs'
      unfold LineProgram.ofLines
      rw [← same]
      cases read : Statement.ofLine options vs l with
      | error e =>
          obtain ⟨program, after⟩ := ih bare.2 vs vs'
          exact ⟨congrArg _ program, after⟩
      | ok s? =>
          have unchanged (vs' : Variables) : vs'.after s? = vs' :=
            Variables.after_of_not_definition ((bare.1.ofLine_eq vs' vs).trans read) bare.1.2
          obtain ⟨program, after⟩ := ih bare.2 vs vs'
          cases s? with
          | none => exact ⟨congrArg _ program, after⟩
          | some s =>
              have still : s.applyTo vs = vs := unchanged vs
              have still' : s.applyTo vs' = vs' := unchanged vs'
              simp only [still, still', program, true_and]
              change LineProgram.variablesAfter (s.applyTo vs) _ = vs
              rw [still, ← program]
              exact after

/-- Lines without variables can be read when each of them can, with whatever variables. -/
theorem readable_iff_of_bare (bare : ∀ l ∈ block, l.Bare) :
    (readStatements options vs block).error? = none ↔
      ∀ l ∈ block, ∃ s?, Statement.ofLine options [] l = .ok s? := by
  induction block generalizing vs with
  | nil => exact iff_of_true rfl (List.forall_mem_nil _)
  | cons l block ih =>
      rw [List.forall_mem_cons] at bare
      rw [readStatements_cons_error?, List.forall_mem_cons, bare.1.ofLine_eq vs []]
      constructor
      · rintro ⟨s?, read, others⟩
        exact ⟨⟨s?, read⟩, (ih bare.2).1 others⟩
      · rintro ⟨⟨s?, read⟩, others⟩
        exact ⟨s?, read, (ih bare.2).2 others⟩

theorem readable_of_bare (bare : ∀ l ∈ block, l.Bare)
    (readable : (readStatements options vs block).error? = none) (vs' : Variables) :
    (readStatements options vs' block).error? = none :=
  (readable_iff_of_bare bare).2 ((readable_iff_of_bare bare).1 readable)

/-- A line is left as it was or blanked. -/
theorem mem_blanked {keep : Nat → Bool} (h : l ∈ blanked keep lines) :
    ∃ l' ∈ lines, l = l' ∨ l = l'.blank := by
  obtain ⟨k, here⟩ := List.mem_iff_getElem?.1 h
  rw [blanked_getElem?, Option.map_eq_some_iff] at here
  obtain ⟨l', item, rfl⟩ := here
  refine ⟨l', List.mem_of_getElem? item, ?_⟩
  cases keep k with
  | true => exact .inl rfl
  | false => exact .inr rfl

theorem bare_blanked {keep : Nat → Bool} (bare : ∀ l ∈ block, l.Bare) : ∀ l ∈ blanked keep block, l.Bare := by
  intro l member
  obtain ⟨l', member', rfl | rfl⟩ := mem_blanked member
  · exact bare l member'
  · exact l'.bare_blank

/-- Lines that neither use nor define variables can still be read when some of them are blanked. -/
theorem readable_blanked {keep : Nat → Bool} (bare : ∀ l ∈ block, l.Bare)
    (readable : (readStatements options [] block).error? = none) :
    (readStatements options [] (blanked keep block)).error? = none := by
  rw [readable_iff_of_bare (bare_blanked bare)]
  rw [readable_iff_of_bare bare] at readable
  intro l member
  obtain ⟨l', member', rfl | rfl⟩ := mem_blanked member
  · exact readable l member'
  · exact ⟨none, Line.ofLine_blank⟩

variable {at? : Option Nat} {core : List Line}

/-- A block of lines without variables does not keep the other lines from being read. -/
theorem readable_arrange_iff (bare : ∀ l ∈ block, l.Bare)
    (readable : (readStatements options [] block).error? = none) :
    (readStatements options vs (arrange at? block core)).error? = none ↔
      (readStatements options vs core).error? = none := by
  cases at? with
  | none => rfl
  | some c =>
      conv => rhs; rw [← List.take_append_drop c core]
      simp only [arrange, readable_append_iff, readable_of_bare bare readable, true_and,
        (ofLines_of_bare bare _ []).2]

/-- A block of lines without variables stands in the program of lines as it does alone. -/
theorem ofLines_arrange (bare : ∀ l ∈ block, l.Bare) :
    LineProgram.ofLines options vs (arrange at? block core) =
      arrange at? (LineProgram.ofLines options [] block) (LineProgram.ofLines options vs core) := by
  cases at? with
  | none => rfl
  | some c =>
      rw [arrange, arrange, ofLines_append, ofLines_append, (ofLines_of_bare bare _ []).2,
        (ofLines_of_bare bare _ []).1, ofLines_drop, ofLines_take]

end

end Whitespace.Assembly
