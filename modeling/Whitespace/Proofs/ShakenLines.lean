/-
Module: Whitespace.Proofs.ShakenLines
Purpose: Dropping the lines that control cannot reach keeps the behaviour of a program. The code that is
  left moves to other places and its labels get other numbers, but from the code of a live line control
  only ever comes to the code of a live line, and the last of several lines that define a label is kept
  whenever the label is used. So both programs run in lockstep, and neither can be told from the other.
Main exports: LineProgram.Retains, LineProgram.Aligned, LineProgram.lockstep_pick, Machine.Alike,
  reachableLines_alike
-/
import Whitespace.Proofs.KeptLines
import Whitespace.Proofs.Lockstep

namespace Whitespace

namespace Assembly

/-! ### Control in the code of a statement -/

/-- Control goes on after every statement but a return and an unconditional jump. -/
theorem Statement.continues_or (s : Statement) :
    s.conduct.continues = true ∨ s = .plain (.flow .ret) ∨ ∃ name, s = .jump .always name := by
  cases s with
  | jump condition name =>
      cases condition with
      | always => exact .inr (.inr ⟨name, rfl⟩)
      | _ => exact .inl rfl
  | plain i =>
      cases i with
      | flow command =>
          cases command with
          | ret => exact .inr (.inl rfl)
          | _ => exact .inl rfl
      | _ => exact .inl rfl
  | _ => exact .inl rfl

/-- A statement whose last instruction can hand control to the following one continues. -/
theorem Statement.continues_of_last {s : Statement} {d : Nat} {x : Symbolic}
    (last : s.symbolic[d]? = some x) (ret : x ≠ .fixed (.flow .ret))
    (jump : ∀ r, x ≠ .branch .jump r) (length : d + 1 = s.symbolic.length) :
    s.conduct.continues = true := by
  rcases s.continues_or with continues | rfl | ⟨name, rfl⟩
  · exact continues
  · obtain rfl : d = 0 := by simpa [symbolic] using length
    exact absurd (Option.some.inj last).symm ret
  · obtain rfl : d = 0 := by simpa [symbolic, Condition.symbolic] using length
    exact absurd (Option.some.inj last).symm (jump _)

theorem Statement.continues_of_symbolic_nil {s : Statement} (h : s.symbolic = []) :
    s.conduct.continues = true := by
  rcases s.continues_or with continues | rfl | ⟨name, rfl⟩
  · exact continues
  · cases h
  · cases h

theorem Statement.continues_of_past {s : Statement} {b : Branch} (h : .branch b .past ∈ s.symbolic) :
    s.conduct.continues = true := by
  rcases s.continues_or with continues | rfl | ⟨name, rfl⟩
  · exact continues
  · simp [symbolic] at h
  · simp [symbolic, Condition.symbolic] at h

/-- A name in the code of a statement is the label that it defines or the one that it uses. -/
theorem Statement.defines_or_uses {s : Statement} {b : Branch} {name : String}
    (h : .branch b (.named name) ∈ s.symbolic) :
    (b = .mark ∧ s = .label name) ∨ s.uses? = some name := by
  cases s with
  | label other =>
      obtain ⟨rfl, rfl⟩ : b = .mark ∧ name = other := by simpa [symbolic] using h
      exact .inl ⟨rfl, rfl⟩
  | call other =>
      obtain ⟨rfl, rfl⟩ : b = .call ∧ name = other := by simpa [symbolic] using h
      exact .inr rfl
  | jump condition other =>
      have same : name = other := by
        cases condition <;> simp [symbolic, Condition.symbolic] at h <;> exact h.2
      subst same
      exact .inr rfl
  | store n? | retrieve n? => cases n? <;> simp [symbolic] at h
  | _ => simp [symbolic] at h

/-! ### Places that correspond -/

namespace LineProgram

/-- Control stays among the lines that are kept. -/
structure Retains (p : LineProgram) (keep : Nat → Bool) : Prop where
  first : keep 0 = true
  following : ∀ {k s?}, p[k]? = some s? → keep k = true → (conductOf s?).continues = true →
    keep (k + 1) = true
  referred : ∀ {k j s name}, p[k]? = some (some s) → keep k = true → s.uses? = some name →
    p[j]? = some (some (.label name)) → keep j = true

/-- The same instruction of the same line, before and after the other lines are dropped. Behind the
    code of all lines places correspond when they are equally far behind it. -/
inductive Aligned (p : LineProgram) (keep : Nat → Bool) : Nat → Nat → Prop where
  | inside {k d : Nat} {s : Statement} : p[k]? = some (some s) → keep k = true →
      d < s.symbolic.length → Aligned p keep (p.place k + d) (place (pick keep 0 p) (rank keep k) + d)
  | past (d : Nat) : Aligned p keep (p.code.length + d) ((code (pick keep 0 p)).length + d)

section

variable {p : LineProgram} {keep : Nat → Bool} {k d : Nat} {s : Statement}

/-- A line either has code or hands over to the line after it, which then has the same place. -/
theorem code_or_empty (s? : Option Statement) :
    (∃ s, s? = some s ∧ 0 < s.symbolic.length) ∨
      (conductOf s?).continues = true ∧
        ∀ {p : LineProgram} {k : Nat}, p[k]? = some s? → p.place (k + 1) = p.place k := by
  cases s? with
  | none => exact .inr ⟨rfl, place_succ_none⟩
  | some s =>
      by_cases empty : s.symbolic = []
      · refine .inr ⟨Statement.continues_of_symbolic_nil empty, ?_⟩
        intro p k line
        rw [place_succ line, empty, List.length_nil, Nat.add_zero]
      · exact .inl ⟨s, rfl, List.length_pos_iff.2 empty⟩

theorem pick_line (line : p[k]? = some (some s)) (kept : keep k = true) :
    (pick keep 0 p)[rank keep k]? = some (some s) := by
  rw [pick_getElem? kept]
  exact line

theorem wellFormed_pick (keep : Nat → Bool) (wf : p.WellFormed) : WellFormed (pick keep 0 p) := by
  intro k s line
  obtain ⟨j, -, line', -⟩ := exists_of_pick_getElem? line
  exact wf j s line'

/-- The beginnings of lines that are kept correspond, also when the lines have no code. -/
theorem aligned_of_keep (retains : p.Retains keep) (kept : keep k = true) (bound : k ≤ p.length) :
    Aligned p keep (p.place k) (place (pick keep 0 p) (rank keep k)) := by
  induction rest : p.length - k generalizing k with
  | zero =>
      have last : k = p.length := by omega
      have length := length_pick_add_rank keep 0 p
      rw [rank_zero, Nat.zero_add, Nat.add_zero, ← last] at length
      rw [place_of_length_le (Nat.le_of_eq last.symm), place_of_length_le (Nat.le_of_eq length)]
      exact .past 0
  | succ n ih =>
      have here : k < p.length := by omega
      cases line : p[k]? with
      | none => simp [here] at line
      | some s? =>
          have line' : (pick keep 0 p)[rank keep k]? = some s? := by rw [pick_getElem? kept, line]
          rcases code_or_empty s? with ⟨s, rfl, code⟩ | ⟨continues, empty⟩
          · exact .inside (d := 0) line kept code
          · have next := ih (retains.following line kept continues) here (by omega)
            rw [rank_succ_of_keep kept, empty line, empty line'] at next
            exact next

theorem aligned_succ (retains : p.Retains keep) (line : p[k]? = some (some s)) (kept : keep k = true)
    (continues : s.conduct.continues = true) :
    Aligned p keep (p.place (k + 1)) (place (pick keep 0 p) (rank keep k + 1)) := by
  rw [← rank_succ_of_keep kept]
  have here : k < p.length := (List.getElem?_eq_some_iff.1 line).1
  exact aligned_of_keep retains (retains.following line kept continues) here

/-- Instructions that follow corresponding ones correspond, if control can come to them that way. -/
theorem aligned_next (retains : p.Retains keep) (line : p[k]? = some (some s)) (kept : keep k = true)
    {x : Symbolic} (here : s.symbolic[d]? = some x) (ret : x ≠ .fixed (.flow .ret))
    (jump : ∀ r, x ≠ .branch .jump r) :
    Aligned p keep (p.place k + d + 1) (place (pick keep 0 p) (rank keep k) + d + 1) := by
  by_cases last : d + 1 = s.symbolic.length
  · have next := aligned_succ retains line kept (Statement.continues_of_last here ret jump last)
    rw [place_succ line, place_succ (pick_line line kept), ← last] at next
    exact next
  · have bound : d < s.symbolic.length := (List.getElem?_eq_some_iff.1 here).1
    exact .inside (d := d + 1) line kept (by omega)

/-- The last line that defines a label is still the last one. -/
theorem labelPlace?_pick {name : String} {j : Nat} (kept : keep j = true)
    (label : p[j]? = some (some (.label name)))
    (last : ∀ k, j < k → p[k]? ≠ some (some (.label name))) :
    labelPlace? (pick keep 0 p) name = some (rank keep j + 1) := by
  rw [labelPlace?_eq_some_iff]
  refine ⟨rank keep j, rfl, pick_line label kept, ?_⟩
  intro r hr found
  obtain ⟨k, -, line, rfl⟩ := exists_of_pick_getElem? found
  have order : j < k := by
    apply Nat.lt_of_not_le
    intro le
    exact absurd hr (Nat.not_lt.2 (rank_mono keep le))
  exact last k order line

/-- A reference means corresponding places, unless it only marks its place. -/
theorem exists_referents (closed : p.Closed) (retains : p.Retains keep)
    (line : p[k]? = some (some s)) (kept : keep k = true) {b : Branch} {r : Reference}
    (h : .branch b r ∈ s.symbolic) :
    ∃ t t', p.referent? k r = some t ∧ referent? (pick keep 0 p) (rank keep k) r = some t' ∧
      (b ≠ .mark → Aligned p keep (p.place t) (place (pick keep 0 p) t')) := by
  cases r with
  | past =>
      refine ⟨k + 1, rank keep k + 1, rfl, rfl, ?_⟩
      intro _
      exact aligned_succ retains line kept (Statement.continues_of_past h)
  | named name =>
      rcases Statement.defines_or_uses h with ⟨rfl, rfl⟩ | uses
      · obtain ⟨t, place⟩ := exists_labelPlace (List.mem_of_getElem? line)
        obtain ⟨t', place'⟩ := exists_labelPlace (List.mem_of_getElem? (pick_line line kept))
        exact ⟨t, t', place, place', fun marks => absurd rfl marks⟩
      · obtain ⟨t, place⟩ := exists_labelPlace (closed s name (List.mem_of_getElem? line) uses)
        obtain ⟨j, rfl, label, last⟩ := labelPlace?_eq_some_iff.1 place
        have live := retains.referred line kept uses label
        refine ⟨j + 1, rank keep j + 1, place, labelPlace?_pick live label last, ?_⟩
        intro _
        exact aligned_succ retains label live rfl

/-- A program runs in lockstep with what is left of it, also when the same instructions without labels
    are put behind both. -/
theorem lockstep_pick (wf : p.WellFormed) (closed : p.Closed) (retains : p.Retains keep)
    {suffix : List Instruction} (unlabelled : ∀ i ∈ suffix, i.label? = none) :
    Lockstep (.ofInstructions (p.code ++ suffix)) (.ofInstructions (code (pick keep 0 p) ++ suffix))
      (Aligned p keep) := by
  have unmarked := unmarked_of_unlabelled unlabelled
  have layout := layout_ofInstructions wf unmarked
  have layout' := layout_ofInstructions (wellFormed_pick keep wf) unmarked
  rintro i j (⟨line, kept, bound⟩ | d)
  · next k d s =>
    refine .inr ?_
    have here := List.getElem?_eq_getElem bound
    have line' := pick_line line kept
    refine ⟨_, _, layout.fetch line here, layout'.fetch line' here,
      .of_layout layout layout' (wf k s line) line line' here ?_ ?_⟩
    · exact aligned_next retains line kept here
    · rintro b r same
      rw [same] at here
      exact exists_referents closed retains line kept (List.mem_of_getElem? here)
  · exact Corresponds.of_suffix unlabelled (.past (d + 1))

end

/-- Control stays among the lines that the search for dead lines leaves. -/
theorem retains_keptPlaces {options : Options} {lines : List Line}
    (readable : (readStatements options [] lines).error? = none) :
    Retains (ofLines options [] lines) (keptPlaces lines) := by
  have same := map_conductOf_ofLines readable
  have conducts : ∀ {k : Nat} {s? : Option Statement}, (ofLines options [] lines)[k]? = some s? →
      (lines.map Line.conduct)[k]? = some (conductOf s?) := by
    intro k s? line
    rw [← same, List.getElem?_map, line]
    rfl
  have live : ∀ {k : Nat} {s? : Option Statement}, (ofLines options [] lines)[k]? = some s? → keptPlaces lines k = true →
      Live (lines.map Line.conduct) k := by
    intro k s? line kept
    rcases keptPlaces_iff.1 kept with past | live
    · have here := (List.getElem?_eq_some_iff.1 (conducts line)).1
      rw [List.length_map] at here
      omega
    · exact live
  constructor
  · rw [keptPlaces_iff]
    cases lines with
    | nil => exact .inl (Nat.le_refl 0)
    | cons l rest => exact .inr (.first rfl)
  · intro k s? line kept continues
    rw [keptPlaces_iff]
    by_cases past : lines.length ≤ k + 1
    · exact .inl past
    · have bound : k + 1 < (lines.map Line.conduct).length := by
        rw [List.length_map]
        omega
      have following := List.getElem?_eq_getElem bound
      exact .inr (.following (live line kept) (conducts line) continues following)
  · intro k j s name line kept uses label
    rw [keptPlaces_iff]
    exact .inr (.referred (live line kept) (conducts line) uses (conducts label) rfl)

end LineProgram

end Assembly

/-- Machines that only their places can tell apart. -/
structure Machine.Alike (m m' : Machine) : Prop where
  stack : m.state.stack = m'.state.stack
  heap : m.state.heap = m'.state.heap
  depth : m.state.calls.length = m'.state.calls.length
  halted : m.state.halted = m'.state.halted
  steps : m.state.steps = m'.state.steps
  input : m.input = m'.input
  output : m.output = m'.output

theorem Machine.Agree.alike {R : Nat → Nat → Prop} {m m' : Machine} (h : m.Agree R m') :
    m.Alike m' :=
  { h with depth := h.calls.length_eq }

namespace Assembly

/-- Lines that are lowered are also lowered without those that control cannot reach, if none of these
    defines a variable; and from the first step on, with any input and with or without an exit behind
    the code, the machines that run the two programs do the same and fail in the same way. -/
theorem reachableLines_alike {options : Options} {lines : List Line} {lowered : Lowered}
    (accepted : (lower { options } lines).1 = .ok lowered)
    (definitions : (reachableLines lines).filter Line.isDefinition = lines.filter Line.isDefinition) :
    ∃ shaken : Lowered, (lower { options } (reachableLines lines)).1 = .ok shaken ∧
      ∀ suffix, suffix = [] ∨ suffix = [.flow .exit] → ∀ (port : Input.Port) (n : Nat),
        let P := Program.ofInstructions (lowered.instructions ++ suffix)
        let Q := Program.ofInstructions (shaken.instructions ++ suffix)
        let m := Machine.after P n { input := port }
        let m' := Machine.after Q n { input := port }
        m.Alike m' ∧ (m.step P).1.Agree (m'.step Q).1 := by
  obtain ⟨readable, closed, rfl⟩ := lower_eq_ok_iff.1 accepted
  have retains := LineProgram.retains_keptPlaces readable
  have wf := LineProgram.wellFormed_ofLines options [] lines
  rw [reachableLines_eq_pick] at definitions ⊢
  obtain ⟨readable', statements⟩ := readable_pick readable (filter_pick_eq_iff.1 definitions)
  have closed' : LineProgram.Closed (pick (keptPlaces lines) 0 (LineProgram.ofLines options [] lines)) := by
    intro s name member uses
    obtain ⟨d, line⟩ := List.mem_iff_getElem?.1 member
    obtain ⟨k, live, line, -⟩ := exists_of_pick_getElem? line
    obtain ⟨j, label⟩ := List.mem_iff_getElem?.1 (closed s name (List.mem_of_getElem? line) uses)
    exact List.mem_of_getElem? (LineProgram.pick_line label (retains.referred line live uses label))
  rw [← statements] at closed'
  refine ⟨_, lower_eq_ok_iff.2 ⟨readable', closed', rfl⟩, ?_⟩
  intro suffix exit port n
  have unlabelled : ∀ i ∈ suffix, i.label? = none := by
    rcases exit with rfl | rfl <;> simp [Instruction.label?, FlowCommand.label?]
  have lockstep := LineProgram.lockstep_pick wf closed retains unlabelled
  rw [← statements] at lockstep
  have start : LineProgram.Aligned (.ofLines options [] lines) (keptPlaces lines) 0 0 :=
    LineProgram.aligned_of_keep retains retains.first (Nat.zero_le _)
  have fresh : Machine.Agree (LineProgram.Aligned (.ofLines options [] lines) (keptPlaces lines))
      { input := port } { input := port } :=
    ⟨rfl, rfl, .nil, start, rfl, rfl, rfl, rfl⟩
  have agree := Machine.after_agree lockstep fresh n
  exact ⟨agree.alike, (Machine.step_agree lockstep agree).1⟩

/-- Lines with a jump over two of them. -/
def detour : List Line :=
  [⟨"main", 1, [.word "valueinteger", .variable "_three", .integer 3]⟩,
    ⟨"main", 2, [.word "push", .variable "_three"]⟩, ⟨"main", 3, [.word "jump", .word "end"]⟩,
    ⟨"main", 4, [.word "pop"]⟩, ⟨"main", 5, [.word "push", .integer 7]⟩,
    ⟨"main", 6, [.word "label", .word "end"]⟩, ⟨"main", 7, [.word "outn"]⟩]

/-- The detour runs as it does without the lines that it jumps over. -/
theorem reachableLines_alike_detour :
    ∃ shaken : Lowered, (lower {} (reachableLines detour)).1 = .ok shaken ∧
      ∀ suffix, suffix = [] ∨ suffix = [.flow .exit] → ∀ (port : Input.Port) (n : Nat),
        let P := Program.ofInstructions
          ([pushOf 3, .flow (.jump ⟨0⟩), .stack .discard, pushOf 7, .flow (.mark ⟨0⟩),
            .io .writeNumber] ++ suffix)
        let Q := Program.ofInstructions (shaken.instructions ++ suffix)
        let m := Machine.after P n { input := port }
        let m' := Machine.after Q n { input := port }
        m.Alike m' ∧ (m.step P).1.Agree (m'.step Q).1 := by
  have accepted : (lower {} detour).1 =
      .ok
        ⟨[pushOf 3, .flow (.jump ⟨0⟩), .stack .discard, pushOf 7, .flow (.mark ⟨0⟩),
          .io .writeNumber], []⟩ := by
    decide +kernel
  have definitions :
      (reachableLines detour).filter Line.isDefinition = detour.filter Line.isDefinition := by
    rw [reachableLines_eq_pick, filter_pick_eq_iff]
    have others : ∀ l ∈ detour.tail, l.isDefinition = false := by decide +kernel
    intro k l line definition
    cases k with
    | zero => exact keptPlaces_iff.2 (.inr (.first rfl))
    | succ k =>
        have plain := others l (List.mem_of_getElem? (i := k) line)
        rw [plain] at definition
        cases definition
  exact reachableLines_alike accepted definitions

end Assembly

end Whitespace
