/-
Module: Whitespace.Proofs.Layout
Purpose: Where the code of every line stands in a program, and what its labels stand for. The layout of
  a program says that the codes of the lines stand one after another and that every label leads to the
  place of the line it is meant for, so that nothing that follows needs to speak of numbers of labels.
  A lowered program has the layout of its lines, whatever is put behind it.
Main exports: Instruction.label?, Statement.WellFormed, LineProgram.referent?, Layout,
  layout_ofInstructions
-/
import Whitespace.Proofs.SymbolicCode

namespace Whitespace

def Instruction.label? : Instruction → Option Label
  | .flow command => command.label?
  | _ => none

namespace Assembly

@[simp] theorem Branch.label?_command (b : Branch) (l : Label) : (b.command l).label? = some l := by
  cases b <;> rfl

/-! ### Marks -/

/-- Statements as lines make them: an instruction that an opcode stands for alone has no label. -/
def Statement.WellFormed : Statement → Prop
  | .plain i => i.label? = none
  | _ => True

/-- The instructions of a statement whose label is not left open have none. -/
theorem Statement.label?_of_fixed {s : Statement} (wf : s.WellFormed) {i : Instruction}
    (h : .fixed i ∈ s.symbolic) : i.label? = none := by
  cases s with
  | arithmetic command n? =>
      cases n? with
      | none =>
          obtain rfl : i = .arithmetic command := by simpa [symbolic, emitArithmetic] using h
          rfl
      | some n =>
          by_cases neutral : neutral? command = some n
          · simp [symbolic, emitArithmetic, neutral] at h
          · obtain rfl | rfl : i = pushOf n ∨ i = .arithmetic command := by
              simpa [symbolic, emitArithmetic, neutral] using h
            · rfl
            · rfl
  | storeString text =>
      simp only [symbolic, emitString, emitCharacter, List.map_append, List.mem_append, List.mem_map,
        List.mem_flatMap, Symbolic.fixed.injEq, exists_eq_right, List.mem_cons, List.not_mem_nil,
        or_false] at h
      obtain ⟨c, -, rfl | rfl | rfl | rfl | rfl⟩ | rfl := h <;> rfl
  | store n? | retrieve n? =>
      cases n? <;> simp only [symbolic, List.mem_cons, Symbolic.fixed.injEq, List.not_mem_nil, or_false] at h
      · cases h
        rfl
      · rcases h with rfl | rfl | rfl <;> rfl
  | jump condition name =>
      cases condition <;>
        simp only [symbolic, Condition.symbolic, List.mem_cons, Symbolic.fixed.injEq, List.not_mem_nil,
          or_false, reduceCtorEq] at h
      · rcases h with rfl | rfl | rfl <;> rfl
      · rcases h with rfl | rfl <;> rfl
  | plain j =>
      obtain rfl : i = j := by simpa [symbolic] using h
      exact wf
  | push n | copy n | slide n =>
      simp only [symbolic, List.mem_singleton, Symbolic.fixed.injEq] at h
      cases h
      rfl
  | label name | call name | define name value => simp [symbolic] at h

/-- Only a label line marks a name, and only with its single instruction. -/
theorem Statement.mark_named {s : Statement} {d : Nat} {name : String}
    (h : s.symbolic[d]? = some (.branch .mark (.named name))) : s = .label name ∧ d = 0 := by
  have member := List.mem_of_getElem? h
  cases s with
  | label other =>
      obtain rfl : name = other := by simpa [symbolic] using member
      refine ⟨rfl, ?_⟩
      have short : d < 1 := by simpa [symbolic] using List.getElem?_eq_some_iff.1 h |>.1
      omega
  | jump condition other => cases condition <;> simp [symbolic, Condition.symbolic] at member
  | store n? | retrieve n? => cases n? <;> simp [symbolic] at member
  | _ => simp [symbolic] at member

/-- A statement marks the place after it with its last instruction, if at all. -/
theorem Statement.mark_past {s : Statement} {d : Nat}
    (h : s.symbolic[d]? = some (.branch .mark .past)) : s.symbolic.length = d + 1 := by
  have member := List.mem_of_getElem? h
  cases s with
  | jump condition other =>
      cases condition with
      | notNegative | notZero =>
          rcases d with _ | _ | _ | d <;> simp [symbolic, Condition.symbolic] at h ⊢
      | _ => simp [symbolic, Condition.symbolic] at member
  | store n? | retrieve n? => cases n? <;> simp [symbolic] at member
  | _ => simp [symbolic] at member

/-- A statement that refers to the place after it marks that place. -/
theorem Statement.exists_mark_past {s : Statement} {b : Branch} (h : .branch b .past ∈ s.symbolic) :
    s.symbolic[2]? = some (.branch .mark .past) := by
  cases s with
  | jump condition other =>
      cases condition with
      | notNegative | notZero => rfl
      | _ => simp [symbolic, Condition.symbolic] at h
  | store n? | retrieve n? => cases n? <;> simp [symbolic] at h
  | _ => simp [symbolic] at h

/-- The label that a statement has for itself is the last one that it gives away. -/
theorem Statement.own_spec {s : Statement} {b : Branch} (h : .branch b .past ∈ s.symbolic)
    (ls : Labels) :
    (s.emit ls).2.origins.toList[s.own ls]? = some .internal ∧
      ls.origins.size ≤ s.own ls ∧ s.own ls < (s.emit ls).2.origins.size := by
  cases s with
  | jump condition other =>
      have grown := (Labels.number_extends ls other).size_le
      cases condition with
      | notNegative | notZero =>
          simpa [own, emit, emitJump, emitInverted, Labels.fresh, Labels.add] using grown
      | _ => simp [symbolic, Condition.symbolic] at h
  | store n? | retrieve n? => cases n? <;> simp [symbolic] at h
  | _ => simp [symbolic] at h

/-- The names in the code of a statement have numbers after it. -/
theorem Statement.knows_of_named {s : Statement} {b : Branch} {name : String}
    (h : .branch b (.named name) ∈ s.symbolic) (ls : Labels) : (s.emit ls).2.Knows name := by
  cases s with
  | label other | call other =>
      obtain rfl : name = other := by
        simp [symbolic] at h
        exact h.2
      exact Labels.number_knows ls name
  | jump condition other =>
      have same : name = other := by
        cases condition <;> simp [symbolic, Condition.symbolic] at h <;> exact h.2
      subst same
      exact (Labels.number_knows ls name).mono (emitJump_extends _ _ condition)
  | store n? | retrieve n? => cases n? <;> simp [symbolic] at h
  | _ => simp [symbolic] at h

/-! ### What the labels of a lowered program stand for -/

namespace LineProgram

/-- All statements are such as lines make them. -/
def WellFormed (p : LineProgram) : Prop :=
  ∀ (k : Nat) (s : Statement), p[k]? = some (some s) → s.WellFormed

/-- The position that a reference in the line at a position is meant for. -/
def referent? (p : LineProgram) (k : Nat) : Reference → Option Nat
  | .named name => p.labelPlace? name
  | .past => some (k + 1)

/-- A label stands for the place after its last definition. -/
theorem labelPlace?_eq_some_iff {p : LineProgram} {name : String} {t : Nat} :
    p.labelPlace? name = some t ↔
      ∃ j, t = j + 1 ∧ p[j]? = some (some (.label name)) ∧
        ∀ k, j < k → p[k]? ≠ some (some (.label name)) := by
  rw [labelPlace?, positionAfterLast?_eq_some_iff]
  constructor
  · rintro ⟨j, a, rfl, line, passed, later⟩
    obtain rfl : a = some (.label name) := by simpa using passed
    refine ⟨j, rfl, line, ?_⟩
    intro k hk same
    have failed := later k _ hk same
    simp at failed
  · rintro ⟨j, rfl, line, later⟩
    refine ⟨j, _, rfl, line, by simp, ?_⟩
    intro k a hk ha
    have different : a ≠ some (.label name) := by
      rintro rfl
      exact later k hk ha
    simpa using different

/-- A label that some line defines has a place. -/
theorem exists_labelPlace {p : LineProgram} {name : String} (h : some (.label name) ∈ p) :
    ∃ t, p.labelPlace? name = some t := by
  rw [← Option.ne_none_iff_exists']
  intro none
  rw [labelPlace?, positionAfterLast?_eq_none_iff] at none
  have failed := none _ h
  simp at failed

section

variable {p : LineProgram} {k : Nat} {s : Statement} {b : Branch}

/-- The own label of a line has been given away at that line and to nobody else. -/
theorem own_spec (line : p[k]? = some (some s)) (h : .branch b .past ∈ s.symbolic) :
    p.emit.2.origins.toList[p.own k]? = some .internal ∧
      (p.labelsBefore k).origins.size ≤ p.own k ∧
      p.own k < (p.labelsBefore (k + 1)).origins.size := by
  have spec := Statement.own_spec h (p.labelsBefore k)
  rw [Statement.own, ← labelsBefore_succ line, ← own] at spec
  obtain ⟨origin, least, bound⟩ := spec
  refine ⟨?_, least, bound⟩
  obtain ⟨rest, whole⟩ := p.labelsBefore_extends_emit (k + 1)
  rw [← whole, List.getElem?_append_left (by simpa using bound)]
  exact origin

theorem knows_of_named {name : String} (line : p[k]? = some (some s))
    (h : .branch b (.named name) ∈ s.symbolic) : p.emit.2.Knows name := by
  have known := Statement.knows_of_named h (p.labelsBefore k)
  rw [← labelsBefore_succ line] at known
  exact known.mono (p.labelsBefore_extends_emit (k + 1))

/-- Two lines that refer to labels with one number refer to one name, or they are one line. -/
theorem address_injective {k' : Nat} {s' : Statement} {b' : Branch} {r r' : Reference}
    (line : p[k]? = some (some s)) (h : .branch b r ∈ s.symbolic)
    (line' : p[k']? = some (some s')) (h' : .branch b' r' ∈ s'.symbolic)
    (same : p.address k r = p.address k' r') : r = r' ∧ (r = .past → k = k') := by
  have clash : ∀ {name own}, p.emit.2.Knows name →
      p.emit.2.origins.toList[own]? = some .internal → p.emit.2.addressOf name ≠ ⟨own⟩ := by
    intro name own known internal same
    have origin := Labels.origin_addressOf known
    rw [same, internal] at origin
    cases origin
  cases r with
  | named name =>
      cases r' with
      | named other =>
          have names : name = other :=
            Labels.addressOf_injective (knows_of_named line h) (knows_of_named line' h') same
          exact ⟨congrArg _ names, nofun⟩
      | past => exact absurd same (clash (knows_of_named line h) (own_spec line' h').1)
  | past =>
      cases r' with
      | named other => exact absurd same.symm (clash (knows_of_named line' h') (own_spec line h).1)
      | past =>
          refine ⟨rfl, ?_⟩
          intro _
          have numbers : p.own k = p.own k' := congrArg Label.number same
          obtain ⟨-, least, bound⟩ := own_spec line h
          obtain ⟨-, least', bound'⟩ := own_spec line' h'
          -- the numbers given away at different lines do not overlap
          rcases Nat.lt_trichotomy k k' with before | rfl | after
          · have grown := (p.labelsBefore_extends (show k + 1 ≤ k' from before)).size_le
            omega
          · rfl
          · have grown := (p.labelsBefore_extends (show k' + 1 ≤ k from after)).size_le
            omega

end

end LineProgram

/-- The program holds the codes of the lines one after another, and its labels lead to the places of
    the lines they are meant for. -/
structure Layout (program : Program) (p : LineProgram) (address : Nat → Reference → Label) : Prop where
  fetch : ∀ {k s d x}, p[k]? = some (some s) → s.symbolic[d]? = some x →
    program.instruction? (p.place k + d) = some (x.numbered (address k))
  target : ∀ {k s b r t}, p[k]? = some (some s) → .branch b r ∈ s.symbolic →
    p.referent? k r = some t → program.target? (address k r) = some (p.place t)

section

variable {p : LineProgram} {suffix : List Instruction}

/-- The code of a statement starts at its place, with the numbers of the labels filled in. -/
theorem code_append_getElem? (suffix : List Instruction) {k d : Nat} {s : Statement} {x : Symbolic}
    (line : p[k]? = some (some s)) (h : s.symbolic[d]? = some x) :
    (p.code ++ suffix)[p.place k + d]? = some (x.numbered (p.address k)) := by
  have bound : d < s.symbolic.length := (List.getElem?_eq_some_iff.1 h).1
  have code := LineProgram.code_getElem? line bound
  have inside : p.place k + d < p.code.length := by
    rw [h] at code
    exact (List.getElem?_eq_some_iff.1 code).1
  rw [List.getElem?_append_left inside, code, h]
  rfl

/-- Every mark in a lowered program is one that a line has asked for. -/
theorem exists_line_of_mark (wf : p.WellFormed) (unmarked : ∀ l, .flow (.mark l) ∉ suffix) {i : Nat}
    {l : Label} (h : (p.code ++ suffix)[i]? = some (.flow (.mark l))) :
    ∃ k s d r, p[k]? = some (some s) ∧ s.symbolic[d]? = some (.branch .mark r) ∧
      i = p.place k + d ∧ p.address k r = l := by
  by_cases inside : i < p.code.length
  · rw [← LineProgram.place_of_length_le (Nat.le_refl _)] at inside
    obtain ⟨k, s, d, -, line, hd, rfl⟩ := LineProgram.exists_line_of_lt_place inside
    have symbolic := List.getElem?_eq_getElem hd
    rw [code_append_getElem? suffix line symbolic] at h
    refine ⟨k, s, d, ?_⟩
    cases hx : s.symbolic[d] with
    | fixed j =>
        rw [hx] at h symbolic
        have none := Statement.label?_of_fixed (wf k s line) (List.mem_of_getElem? symbolic)
        obtain rfl : j = .flow (.mark l) := Option.some.inj h
        cases none
    | branch b r =>
        rw [hx] at h symbolic
        cases b <;> cases h
        exact ⟨r, line, symbolic, rfl, rfl⟩
  · rw [List.getElem?_append_right (by omega)] at h
    exact absurd (List.mem_of_getElem? h) (unmarked l)

/-- Instructions without labels mark none. -/
theorem unmarked_of_unlabelled (unlabelled : ∀ i ∈ suffix, i.label? = none) (l : Label) :
    .flow (.mark l) ∉ suffix := by
  intro member
  have none := unlabelled _ member
  cases none

/-- The code of lines, followed by instructions without marks, has the layout of the lines. -/
theorem layout_ofInstructions (wf : p.WellFormed) (unmarked : ∀ l, .flow (.mark l) ∉ suffix) :
    Layout (Program.ofInstructions (p.code ++ suffix)) p p.address := by
  constructor
  · intro k s d x line h
    rw [Program.instruction?_ofInstructions]
    exact code_append_getElem? suffix line h
  intro k s b r t line h referent
  -- it is enough to find the mark of the reference and to see that no other mark follows it
  suffices last : ∃ i, p.place t = i + 1 ∧
      (p.code ++ suffix)[i]? = some (.flow (.mark (p.address k r))) ∧
      ∀ k' s' d', p[k']? = some (some s') → s'.symbolic[d']? = some (.branch .mark r) →
        (r = .past → k = k') → p.place k' + d' ≤ i by
    obtain ⟨i, place, mark, later⟩ := last
    rw [Program.target?_ofInstructions, positionAfterLast?_eq_some_iff]
    refine ⟨i, _, place, mark, by simp, ?_⟩
    intro j a hj ha
    by_contra passed
    obtain rfl : a = .flow (.mark (p.address k r)) := by simpa using passed
    obtain ⟨k', s', d', r', line', mark', rfl, same⟩ := exists_line_of_mark wf unmarked ha
    obtain ⟨rfl, own⟩ :=
      LineProgram.address_injective line h line' (List.mem_of_getElem? mark') same.symm
    exact absurd (later k' s' d' line' mark' own) (by omega)
  cases r with
  | named name =>
      obtain ⟨j, rfl, label, last⟩ := LineProgram.labelPlace?_eq_some_iff.1 referent
      refine ⟨p.place j, LineProgram.place_succ label, ?_, ?_⟩
      · exact code_append_getElem? suffix label (x := .branch .mark (.named name)) (d := 0) rfl
      · intro k' s' d' line' mark' _
        obtain ⟨rfl, rfl⟩ := Statement.mark_named mark'
        have order : k' ≤ j := Nat.le_of_not_lt fun after => last k' after line'
        exact p.place_mono order
  | past =>
      obtain rfl : k + 1 = t := Option.some.inj referent
      have mark := Statement.exists_mark_past h
      have length := Statement.mark_past mark
      refine ⟨p.place k + 2, ?_, code_append_getElem? suffix line mark, ?_⟩
      · rw [LineProgram.place_succ line, length]
      · intro k' s' d' line' mark' own
        obtain rfl := own rfl
        obtain rfl : s = s' := by rw [line] at line'; cases line'; rfl
        have length' := Statement.mark_past mark'
        omega

end

end Assembly

end Whitespace
