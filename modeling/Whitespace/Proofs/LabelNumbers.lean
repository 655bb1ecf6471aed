/-
Module: Whitespace.Proofs.LabelNumbers
Purpose: How lowering numbers labels. Every name has one number and no other name has it; the jumps that
  need a label of their own get numbers that no name has, and mark them once; the numbers in use are
  exactly those below the count of labels, and each of them is marked somewhere. So the names of labels
  do not matter but for being told apart.
Main exports: Reference.origin, LineProgram.exists_reference_of_origin, Numbering, numbering_of_lower,
  label_names_immaterial
-/
import Mathlib.Data.List.Duplicate
import Mathlib.Logic.Equiv.Basic
import Whitespace.Proofs.RenamedLabels
import Whitespace.Proofs.ShakenLines

namespace Whitespace.Assembly

/-! ### The numbering of a program -/

/-- Some line marks the label or refers to it. -/
def NamesLabel (lines : List Line) (name : String) : Prop :=
  ∃ l ∈ lines, l.marksLabel = some name ∨ l.refersTo = some name

def Line.mintsLabel (l : Line) : Bool :=
  l.opcodeText = "jumppz" || l.opcodeText = "jumppn" || l.opcodeText = "jumpnp"

/-- The labels of lowered lines are numbered as they should be. -/
structure Numbering (lines : List Line) (labels : Labels) (instructions : List Instruction) : Prop where
  /-- The number of a name is listed under the name. -/
  listed : ∀ name, NamesLabel lines name →
    labels.names[(labels.number name).1.number]? = some name
  apart : ∀ name other, NamesLabel lines name → NamesLabel lines other →
    (labels.number name).1 = (labels.number other).1 → name = other
  /-- A line that marks a name marks the number of the name. -/
  given : ∀ l ∈ lines, ∀ name, l.marksLabel = some name →
    .flow (.mark (labels.number name).1) ∈ instructions
  /-- A line that refers to a name sends control to the number of the name. -/
  used : ∀ l ∈ lines, ∀ name, l.refersTo = some name →
    ∃ b : Branch, b ≠ .mark ∧ .flow (b.command (labels.number name).1) ∈ instructions
  bounded : ∀ i ∈ instructions, ∀ l, i.label? = some l → l.number < labels.names.length
  marked : ∀ k < labels.names.length, .flow (.mark ⟨k⟩) ∈ instructions
  /-- There is a number without a name for each jump that needs one. -/
  minted : labels.origins.toList.count .internal = lines.countP Line.mintsLabel
  /-- Such a number is marked once, and no name gets it. -/
  own : ∀ k, labels.origins.toList[k]? = some .internal →
    instructions.count (.flow (.mark ⟨k⟩)) = 1 ∧ ∀ name, (labels.number name).1 ≠ ⟨k⟩

/-! ### What a number was given to -/

section

variable {ls : Labels} {s : Statement} {name : String} {k : Nat}

theorem Labels.length_names (ls : Labels) : ls.names.length = ls.origins.size := by
  simp [names]

theorem Labels.names_getElem?_of_named (h : ls.origins.toList[k]? = some (.named name)) :
    ls.names[k]? = some name := by
  rw [names, List.getElem?_map, List.getElem?_zipIdx, h]
  rfl

/-- No name has a number that was not given to a name. -/
theorem Labels.number_ne_of_internal (h : ls.origins.toList[k]? = some .internal) (name : String) :
    (ls.number name).1 ≠ ⟨k⟩ := by
  intro same
  by_cases known : ls.Knows name
  · have origin := origin_addressOf known
    have number : (ls.number name).1 = ls.addressOf name := congrArg Prod.fst (number_of_knows known)
    rw [← number, same, h] at origin
    cases origin
  · rw [number_of_not_knows known] at same
    have past : ls.origins.size = k := congrArg Label.number same
    have bound := (List.getElem?_eq_some_iff.1 h).1
    rw [Array.length_toList] at bound
    omega

def Reference.origin : Reference → LabelOrigin
  | .named name => .named name
  | .past => .internal

/-- A label that is new after a name was numbered belongs to the name. -/
theorem Labels.number_new {origin : LabelOrigin}
    (h : (ls.number name).2.origins.toList[k]? = some origin) (new : ls.origins.size ≤ k) :
    origin = .named name ∧ (ls.number name).1 = ⟨k⟩ := by
  have bound := (List.getElem?_eq_some_iff.1 h).1
  by_cases known : ls.Knows name
  · rw [number_of_knows known, Array.length_toList] at bound
    exact absurd bound (Nat.not_lt_of_le new)
  · rw [number_of_not_knows known] at h bound ⊢
    simp only [add, Array.toList_push, List.length_append, Array.length_toList,
      List.length_singleton] at bound
    obtain rfl : k = ls.origins.size := by omega
    have last : LabelOrigin.named name = origin := by simpa [add] using h
    exact ⟨last.symm, rfl⟩

/-- A statement gives away no number, or that of a name, or that of a name and one more. -/
theorem Statement.emit_labels (ls : Labels) (s : Statement) :
    (s.emit ls).2 = ls ∨
      (∃ b name, .branch b (.named name) ∈ s.symbolic ∧ (s.emit ls).2 = (ls.number name).2) ∨
      ∃ name, .branch .jump (.named name) ∈ s.symbolic ∧ .branch .mark .past ∈ s.symbolic ∧
        (s.emit ls).2 = ((ls.number name).2.add .internal).2 := by
  cases s with
  | label name => exact .inr (.inl ⟨.mark, name, .head _, rfl⟩)
  | call name => exact .inr (.inl ⟨.call, name, .head _, rfl⟩)
  | jump condition name =>
      cases condition with
      | always => exact .inr (.inl ⟨.jump, name, .head _, rfl⟩)
      | zero => exact .inr (.inl ⟨.jumpZero, name, .head _, rfl⟩)
      | negative => exact .inr (.inl ⟨.jumpNegative, name, .head _, rfl⟩)
      | positive | notPositive =>
          exact .inr (.inl ⟨.jumpNegative, name, by simp [symbolic, Condition.symbolic], rfl⟩)
      | notNegative | notZero =>
          exact .inr (.inr ⟨name, by simp [symbolic, Condition.symbolic],
            by simp [symbolic, Condition.symbolic], rfl⟩)
  | store n? | retrieve n? => cases n? <;> exact .inl rfl
  | _ => exact .inl rfl

/-- Every number that a statement gives away is behind one of its references. -/
theorem Statement.exists_reference_of_new {origin : LabelOrigin}
    (h : (s.emit ls).2.origins.toList[k]? = some origin) (new : ls.origins.size ≤ k) :
    ∃ b r, .branch b r ∈ s.symbolic ∧ r.origin = origin ∧
      (s.emit ls).2.address (s.own ls) r = ⟨k⟩ := by
  have bound := (List.getElem?_eq_some_iff.1 h).1
  rw [Array.length_toList] at bound
  rw [own]
  rcases s.emit_labels ls with same | ⟨b, name, reference, same⟩ | ⟨name, jumps, marks, same⟩
  · rw [same] at bound
    exact absurd bound (Nat.not_lt_of_le new)
  · rw [same] at h ⊢
    obtain ⟨rfl, number⟩ := Labels.number_new h new
    refine ⟨b, .named name, reference, rfl, ?_⟩
    rw [Labels.address, ← number, Labels.number_fst (Labels.Extends.refl _)]
  · rw [same] at h bound ⊢
    by_cases old : k < (ls.number name).2.origins.size
    · rw [Labels.add, Array.toList_push, List.getElem?_append_left (by simpa using old)] at h
      obtain ⟨rfl, number⟩ := Labels.number_new h new
      refine ⟨.jump, .named name, jumps, rfl, ?_⟩
      rw [Labels.address, ← number, Labels.number_fst (Labels.add_extends _ .internal)]
    · rw [Labels.add, Array.size_push] at bound
      obtain rfl : k = (ls.number name).2.origins.size := by omega
      have last : LabelOrigin.internal = origin := by simpa [Labels.add] using h
      refine ⟨.mark, .past, marks, last, ?_⟩
      simp [Labels.address, Labels.add]

end

namespace LineProgram

variable {p : LineProgram} {k n : Nat} {s : Statement} {b : Branch} {r : Reference}

/-- The number behind a reference was given to what the reference is meant for. -/
theorem origin_address (line : p[k]? = some (some s)) (h : .branch b r ∈ s.symbolic) :
    p.emit.2.origins.toList[(p.address k r).number]? = some r.origin := by
  cases r with
  | named name => exact Labels.origin_addressOf (knows_of_named line h)
  | past => exact (own_spec line h).1

/-- Every label that has a number was met in an earlier statement: some branch of it refers to the label or
    marks it. -/
theorem exists_reference_of_labelsBefore {origin : LabelOrigin}
    (h : (p.labelsBefore n).origins.toList[k]? = some origin) :
    ∃ j s b r, p[j]? = some (some s) ∧ .branch b r ∈ s.symbolic ∧ r.origin = origin ∧
      p.address j r = ⟨k⟩ := by
  induction n with
  | zero => simp [labelsBefore, emit, emitAll, List.reduceOption] at h
  | succ n ih =>
      cases line : p[n]? with
      | none =>
          have past : p.length ≤ n := by simpa using line
          have same : p.labelsBefore (n + 1) = p.labelsBefore n := by
            rw [labelsBefore, labelsBefore, List.take_of_length_le past,
              List.take_of_length_le (Nat.le_succ_of_le past)]
          exact ih (same ▸ h)
      | some s? =>
          cases s? with
          | none =>
              have same : p.labelsBefore (n + 1) = p.labelsBefore n := by
                rw [labelsBefore, labelsBefore, emit_take_none line]
              exact ih (same ▸ h)
          | some s =>
              by_cases old : k < (p.labelsBefore n).origins.size
              · obtain ⟨more, whole⟩ := p.labelsBefore_extends (Nat.le_succ n)
                rw [← whole, List.getElem?_append_left (by simpa using old)] at h
                exact ih h
              · rw [labelsBefore_succ line] at h
                obtain ⟨b, r, reference, same, address⟩ :=
                  Statement.exists_reference_of_new h (Nat.le_of_not_lt old)
                refine ⟨n, s, b, r, line, reference, same, ?_⟩
                have final := p.labelsBefore_extends_emit (n + 1)
                cases r with
                | named name =>
                    have known := Statement.knows_of_named reference (p.labelsBefore n)
                    rw [← labelsBefore_succ line] at known address
                    rw [LineProgram.address, Labels.address, Labels.addressOf_extends known final]
                    exact address
                | past =>
                    rw [LineProgram.address, Labels.address, own, labelsBefore_succ line]
                    exact address

/-- Every number in use is behind a reference of some line. -/
theorem exists_reference_of_origin {origin : LabelOrigin}
    (h : p.emit.2.origins.toList[k]? = some origin) :
    ∃ j s b r, p[j]? = some (some s) ∧ .branch b r ∈ s.symbolic ∧ r.origin = origin ∧
      p.address j r = ⟨k⟩ := by
  have whole : p.emit.2 = p.labelsBefore p.length := by rw [labelsBefore, List.take_length]
  exact exists_reference_of_labelsBefore (whole ▸ h)

/-- A reference of a line is an instruction of its own in the code. -/
theorem branch_mem_code (line : p[k]? = some (some s)) (h : .branch b r ∈ s.symbolic) :
    .flow (b.command (p.address k r)) ∈ p.code := by
  obtain ⟨d, hd⟩ := List.mem_iff_getElem?.1 h
  have code := code_append_getElem? [] line hd
  rw [List.append_nil] at code
  exact List.mem_of_getElem? code

/-- Every number in use is marked somewhere, if the names that are used are defined. -/
theorem mark_mem_code_of_origin (closed : p.Closed) {origin : LabelOrigin}
    (h : p.emit.2.origins.toList[k]? = some origin) : .flow (.mark ⟨k⟩) ∈ p.code := by
  obtain ⟨j, s, b, r, line, reference, -, address⟩ := exists_reference_of_origin h
  rw [← address]
  cases r with
  | past =>
      have mark := Statement.exists_mark_past reference
      exact branch_mem_code line (List.mem_of_getElem? mark)
  | named name =>
      -- the name is used or defined, so some line defines it
      have defined : some (.label name) ∈ p := by
        rcases Statement.defines_or_uses reference with ⟨-, rfl⟩ | uses
        · exact List.mem_of_getElem? line
        · exact closed s name (List.mem_of_getElem? line) uses
      obtain ⟨j', line'⟩ := List.mem_iff_getElem?.1 defined
      -- a name has the same address at every line
      have mark : .flow (.mark (p.address j' (.named name))) ∈ p.code :=
        branch_mem_code line' (.head _)
      exact mark

/-- The labels in the code are those that lines refer to. -/
theorem exists_reference_of_mem_code (wf : p.WellFormed) {i : Instruction} {l : Label}
    (h : i ∈ p.code) (labelled : i.label? = some l) :
    ∃ k s b r, p[k]? = some (some s) ∧ .branch b r ∈ s.symbolic ∧ p.address k r = l := by
  obtain ⟨n, bound, here⟩ := List.mem_iff_getElem.1 h
  rw [← place_of_length_le (Nat.le_refl _)] at bound
  obtain ⟨k, s, d, -, line, hd, rfl⟩ := exists_line_of_lt_place bound
  have symbolic := List.getElem?_eq_getElem hd
  have code := code_getElem? line hd
  rw [List.getElem?_eq_getElem (by assumption), here, symbolic] at code
  have same : i = (s.symbolic[d]).numbered (p.address k) := Option.some.inj code
  cases hx : s.symbolic[d] with
  | fixed j =>
      rw [hx] at same symbolic
      have unlabelled := Statement.label?_of_fixed (wf k s line) (List.mem_of_getElem? symbolic)
      obtain rfl : i = j := same
      rw [unlabelled] at labelled
      cases labelled
  | branch b r =>
      rw [hx] at same symbolic
      refine ⟨k, s, b, r, line, List.mem_of_getElem? symbolic, ?_⟩
      rw [same] at labelled
      exact Option.some.inj ((Branch.label?_command b _).symm.trans labelled)

/-- A number that belongs to one jump alone is marked once. -/
theorem count_mark_of_internal (wf : p.WellFormed)
    (h : p.emit.2.origins.toList[k]? = some .internal) :
    p.code.count (.flow (.mark ⟨k⟩)) = 1 := by
  obtain ⟨j, s, b, r, line, reference, origin, address⟩ := exists_reference_of_origin h
  obtain rfl : r = .past := by
    cases r with
    | named name => cases origin
    | past => rfl
  have mark := Statement.exists_mark_past reference
  have member : .flow (.mark ⟨k⟩) ∈ p.code := by
    rw [← address]
    exact branch_mem_code line (List.mem_of_getElem? mark)
  -- a mark of the number stands at the end of the code of the line, so there are no two of them
  have place : ∀ {i}, p.code[i]? = some (.flow (.mark ⟨k⟩)) → i + 1 = p.place (j + 1) := by
    intro i here
    have inside : (p.code ++ [])[i]? = some (.flow (.mark ⟨k⟩)) := by rwa [List.append_nil]
    obtain ⟨j', s', d, r, line', mark', rfl, same⟩ :=
      exists_line_of_mark wf (fun _ => List.not_mem_nil) inside
    obtain ⟨rfl, own⟩ := address_injective line reference line' (List.mem_of_getElem? mark')
      (address.trans same.symm)
    obtain rfl := own rfl
    rw [place_succ line', Statement.mark_past mark']
    omega
  have once : ¬ List.Duplicate (.flow (.mark ⟨k⟩)) p.code := by
    intro twice
    obtain ⟨n, m, less, first, second⟩ := List.duplicate_iff_exists_distinct_get.1 twice
    have left := place (List.getElem?_eq_some_iff.2 ⟨n.2, first.symm⟩)
    have right := place (List.getElem?_eq_some_iff.2 ⟨m.2, second.symm⟩)
    have order : n.1 < m.1 := less
    omega
  rw [List.duplicate_iff_two_le_count] at once
  have positive := List.count_pos_iff.2 member
  omega

end LineProgram

/-! ### Jumps that need a label of their own -/

def Statement.mintsLabel : Statement → Bool
  | .jump .notNegative _ | .jump .notZero _ => true
  | _ => false

section

variable {options : Options} {vs : Variables} {l : Line} {lines : List Line}

theorem Labels.count_internal_number (ls : Labels) (name : String) :
    (ls.number name).2.origins.toList.count .internal = ls.origins.toList.count .internal := by
  by_cases known : ls.Knows name
  · rw [number_of_knows known]
  · rw [number_of_not_knows known]
    simp [add]

/-- A statement makes one label of its own if it is of the kind that needs one, and else none. -/
theorem Statement.count_internal_emit (ls : Labels) (s : Statement) :
    (s.emit ls).2.origins.toList.count .internal =
      ls.origins.toList.count .internal + s.mintsLabel.toNat := by
  cases s with
  | label name | call name => exact Labels.count_internal_number ls name
  | jump condition name =>
      have named := Labels.count_internal_number ls name
      cases condition <;>
        simp [emit, emitJump, emitInverted, Labels.fresh, Labels.add, mintsLabel, named]
  | store n? | retrieve n? => cases n? <;> rfl
  | _ => rfl

/-- Statements make as many labels of their own as there are statements that need one. -/
theorem count_internal_emitAll (ls : Labels) (statements : List Statement) :
    (emitAll ls statements).2.origins.toList.count .internal =
      ls.origins.toList.count .internal + statements.countP Statement.mintsLabel := by
  induction statements generalizing ls with
  | nil => rfl
  | cons s rest ih =>
      have others := ih (s.emit ls).2
      rw [Statement.count_internal_emit] at others
      rw [emitAll, others, List.countP_cons]
      cases s.mintsLabel <;> simp [Nat.add_assoc, Nat.add_comm 1]

/-- The name of an opcode tells whether its statements need a label. -/
theorem Opcode.mintsLabel_of_ofName? {text : String} {opcode : Opcode}
    (h : ofName? text = some opcode) :
    (text = "jumppz" || text = "jumppn" || text = "jumpnp") =
      (opcode = .jump .notNegative || opcode = .jump .notZero) := by
  unfold ofName? at h
  split at h <;> cases h <;> rfl

/-- Whether a line needs a label of its own can be told from the line itself. -/
theorem Line.mintsLabel_of_ofLine {s? : Option Statement}
    (h : Statement.ofLine options vs l = .ok s?) : l.mintsLabel = s?.any Statement.mintsLabel := by
  cases s? with
  | none =>
      rw [mintsLabel, Line.opcodeText_of_ofLine_none h]
      rfl
  | some s =>
      obtain ⟨name, tokens, opcode, spelled, named, fit⟩ := Statement.exists_opcode_of_ofLine h
      have text : l.opcodeText = Text.lowerText name := by
        simp [opcodeText, opcode?, spelled]
      rw [mintsLabel, text, Opcode.mintsLabel_of_ofName? named, ← fit.opcode_eq, Option.any_some]
      cases s with
      | jump condition other => cases condition <;> rfl
      | define name value => cases value <;> rfl
      | _ => rfl

/-- As many statements need a label of their own as lines do. -/
theorem countP_mintsLabel_ofLines (h : (readStatements options vs lines).error? = none) :
    (LineProgram.ofLines options vs lines).reduceOption.countP Statement.mintsLabel =
      lines.countP Line.mintsLabel := by
  induction lines generalizing vs with
  | nil => rfl
  | cons l rest ih =>
      obtain ⟨s?, hl, others⟩ := readStatements_cons_error?.1 h
      rw [LineProgram.ofLines_cons hl, List.countP_cons, ← ih others, Line.mintsLabel_of_ofLine hl]
      cases s? with
      | none => simp [List.reduceOption_cons_of_none]
      | some s => simp [List.reduceOption_cons_of_some, List.countP_cons]

end

/-! ### Lowered lines -/

section

variable {options : Options} {lines : List Line} {name : String}

/-- The line at a place of a program that can be read has the conduct of its statement. -/
theorem exists_statement_of_mem (readable : (readStatements options [] lines).error? = none) {l : Line}
    (h : l ∈ lines) (named : l.marksLabel = some name ∨ l.refersTo = some name) :
    ∃ (k : Nat) (s : Statement), (LineProgram.ofLines options [] lines)[k]? = some (some s) ∧
      l.conduct = s.conduct := by
  obtain ⟨k, here⟩ := List.mem_iff_getElem?.1 h
  have conducts := congrArg (·[k]?) (LineProgram.map_conductOf_ofLines readable)
  simp only [List.getElem?_map, here, Option.map_some, Option.map_eq_some_iff] at conducts
  obtain ⟨s?, line, same⟩ := conducts
  cases s? with
  | some s => exact ⟨k, s, line, same.symm⟩
  | none =>
      have marks : l.marksLabel = none := congrArg Conduct.marksLabel same.symm
      have refers : l.refersTo = none := congrArg Conduct.refersTo same.symm
      rw [marks, refers] at named
      rcases named with wrong | wrong <;> cases wrong

/-- A statement that refers to a label sends control to it. -/
theorem Statement.exists_branch_of_uses {s : Statement} (h : s.uses? = some name) :
    ∃ b : Branch, b ≠ .mark ∧ .branch b (.named name) ∈ s.symbolic := by
  cases s with
  | call other =>
      obtain rfl : other = name := Option.some.inj h
      exact ⟨.call, by simp, .head _⟩
  | jump condition other =>
      obtain rfl : other = name := Option.some.inj h
      cases condition with
      | always | notNegative | notZero => exact ⟨.jump, by simp, by simp [symbolic, Condition.symbolic]⟩
      | zero => exact ⟨.jumpZero, by simp, .head _⟩
      | negative | positive | notPositive =>
          exact ⟨.jumpNegative, by simp, by simp [symbolic, Condition.symbolic]⟩
  | _ => cases h

/-- Only label lines define labels. -/
theorem Statement.eq_label_of_defines {s : Statement} (h : s.defines? = some name) :
    s = .label name := by
  cases s with
  | label other =>
      obtain rfl : other = name := Option.some.inj h
      rfl
  | _ => cases h

/-- A line that marks a label is a label line. -/
theorem exists_label_of_marks (readable : (readStatements options [] lines).error? = none) {l : Line}
    (h : l ∈ lines) (marks : l.marksLabel = some name) :
    ∃ k : Nat, (LineProgram.ofLines options [] lines)[k]? = some (some (.label name)) := by
  obtain ⟨k, s, line, conduct⟩ := exists_statement_of_mem readable h (.inl marks)
  have defines : s.defines? = some name := (congrArg Conduct.marksLabel conduct).symm.trans marks
  rw [Statement.eq_label_of_defines defines] at line
  exact ⟨k, line⟩

/-- A line that refers to a label has a branch to it in its code. -/
theorem exists_branch_of_refers (readable : (readStatements options [] lines).error? = none) {l : Line}
    (h : l ∈ lines) (refers : l.refersTo = some name) :
    ∃ (k : Nat) (s : Statement) (b : Branch),
      (LineProgram.ofLines options [] lines)[k]? = some (some s) ∧ b ≠ .mark ∧
        .branch b (.named name) ∈ s.symbolic := by
  obtain ⟨k, s, line, conduct⟩ := exists_statement_of_mem readable h (.inr refers)
  have uses : s.uses? = some name := (congrArg Conduct.refersTo conduct).symm.trans refers
  obtain ⟨b, other, reference⟩ := Statement.exists_branch_of_uses uses
  exact ⟨k, s, b, line, other, reference⟩

/-- A label that a line names has a number in the end, and the line has it in its code. -/
theorem exists_reference_of_namesLabel (readable : (readStatements options [] lines).error? = none)
    (h : NamesLabel lines name) :
    ∃ (k : Nat) (s : Statement) (b : Branch),
      (LineProgram.ofLines options [] lines)[k]? = some (some s) ∧
        .branch b (.named name) ∈ s.symbolic := by
  obtain ⟨l, member, named⟩ := h
  rcases named with marks | refers
  · obtain ⟨k, line⟩ := exists_label_of_marks readable member marks
    exact ⟨k, _, .mark, line, .head _⟩
  · obtain ⟨k, s, b, line, -, reference⟩ := exists_branch_of_refers readable member refers
    exact ⟨k, s, b, line, reference⟩

/-- A name that stands in a line as a label has a number, and it goes by that number in the code. -/
theorem number_of_namesLabel (readable : (readStatements options [] lines).error? = none)
    (h : NamesLabel lines name) :
    (LineProgram.emit (.ofLines options [] lines)).2.Knows name ∧
      ((LineProgram.emit (.ofLines options [] lines)).2.number name).1 =
        (LineProgram.emit (.ofLines options [] lines)).2.addressOf name := by
  obtain ⟨k, s, b, line, reference⟩ := exists_reference_of_namesLabel readable h
  have known := LineProgram.knows_of_named line reference
  exact ⟨known, congrArg Prod.fst (Labels.number_of_knows known)⟩

/-- Lines that are lowered leave the labels that emitting them one by one gives out. -/
theorem labels_of_lower (readable : (readStatements options [] lines).error? = none) :
    (lower { options } lines).2.labels = (LineProgram.emit (.ofLines options [] lines)).2 := by
  rw [LineProgram.emit, ← readStatements_map_snd readable]
  unfold lower
  simp only [readable]
  split <;> rfl

/-- The labels of lines that are lowered are numbered as they should be. -/
theorem numbering_of_lower {lowered : Lowered} (accepted : (lower { options } lines).1 = .ok lowered) :
    Numbering lines (lower { options } lines).2.labels lowered.instructions := by
  obtain ⟨readable, closed, rfl⟩ := lower_eq_ok_iff.1 accepted
  have wf := LineProgram.wellFormed_ofLines options [] lines
  rw [labels_of_lower readable]
  constructor
  case listed =>
    intro name h
    obtain ⟨known, number⟩ := number_of_namesLabel readable h
    rw [number]
    exact Labels.names_getElem?_of_named (Labels.origin_addressOf known)
  case apart =>
    intro name other h h' same
    obtain ⟨known, number⟩ := number_of_namesLabel readable h
    obtain ⟨known', number'⟩ := number_of_namesLabel readable h'
    rw [number, number'] at same
    exact Labels.addressOf_injective known known' same
  case given =>
    intro l member name marks
    obtain ⟨-, number⟩ := number_of_namesLabel readable ⟨l, member, .inl marks⟩
    obtain ⟨k, line⟩ := exists_label_of_marks readable member marks
    rw [number]
    exact LineProgram.branch_mem_code line (b := .mark) (r := .named name) (.head _)
  case used =>
    intro l member name refers
    obtain ⟨-, number⟩ := number_of_namesLabel readable ⟨l, member, .inr refers⟩
    obtain ⟨k, s, b, line, other, reference⟩ := exists_branch_of_refers readable member refers
    rw [number]
    exact ⟨b, other, LineProgram.branch_mem_code line reference⟩
  case bounded =>
    intro i member l labelled
    obtain ⟨k, s, b, r, line, reference, rfl⟩ :=
      LineProgram.exists_reference_of_mem_code wf member labelled
    rw [Labels.length_names, ← Array.length_toList]
    exact (List.getElem?_eq_some_iff.1 (LineProgram.origin_address line reference)).1
  case marked =>
    intro k bound
    rw [Labels.length_names, ← Array.length_toList] at bound
    exact LineProgram.mark_mem_code_of_origin closed (List.getElem?_eq_getElem bound)
  case minted =>
    rw [LineProgram.emit, count_internal_emitAll, countP_mintsLabel_ofLines readable]
    simp
  case own =>
    intro k internal
    exact ⟨LineProgram.count_mark_of_internal wf internal, Labels.number_ne_of_internal internal⟩

end

/-- The names of labels do not matter. Renamed apart, they leave the same lines to be reached, the same
    instructions and remarks, and the same failure but for the name that it shows; and lowering numbers
    them so that no two names meet, and no name meets the label that a jump has for itself. -/
theorem label_names_immaterial (options : Options) (lines : List Line) :
    (∀ new : String → String, Function.Injective new →
      (∀ k, k ∈ unreachablePlaces (lines.map (Line.renameLabel new)) ↔ k ∈ unreachablePlaces lines) ∧
      reachableLines (lines.map (Line.renameLabel new)) =
        (reachableLines lines).map (Line.renameLabel new) ∧
      (lower { options } (lines.map (Line.renameLabel new))).1 =
        (lower { options } lines).1.mapError (CompileError.renameLabel new)) ∧
    ∀ lowered, (lower { options } lines).1 = .ok lowered →
      Numbering lines (lower { options } lines).2.labels lowered.instructions := by
  refine ⟨fun new apart => ⟨mem_unreachablePlaces_renameLabel apart lines,
    reachableLines_renameLabel apart lines, lower_renameLabel apart options lines⟩, ?_⟩
  intro lowered accepted
  exact numbering_of_lower accepted

/-- Lines that jump to their end when a number is not negative. -/
def endings : List Line :=
  [⟨"main", 1, [.word "push", .integer 0]⟩, ⟨"main", 2, [.word "jumppz", .word "end"]⟩,
    ⟨"main", 3, [.word "label", .word "end"]⟩]

/-- The end may be called as the label that the jump has for itself is listed. -/
theorem label_names_immaterial_endings :
    (lower {} endings).2.labels.names = ["end", "__internal_label_1"] ∧
      (lower {} (endings.map (Line.renameLabel (Equiv.swap "end" "__internal_label_1")))).1 =
        .ok ⟨[pushOf 0, .flow (.jumpNegative ⟨1⟩), .flow (.jump ⟨0⟩), .flow (.mark ⟨1⟩),
          .flow (.mark ⟨0⟩)], []⟩ ∧
      Numbering endings (lower {} endings).2.labels
        [pushOf 0, .flow (.jumpNegative ⟨1⟩), .flow (.jump ⟨0⟩), .flow (.mark ⟨1⟩),
          .flow (.mark ⟨0⟩)] := by
  have accepted : (lower {} endings).1 =
      .ok ⟨[pushOf 0, .flow (.jumpNegative ⟨1⟩), .flow (.jump ⟨0⟩), .flow (.mark ⟨1⟩),
        .flow (.mark ⟨0⟩)], []⟩ := by
    decide +kernel
  have immaterial := label_names_immaterial {} endings
  obtain ⟨-, -, renamed⟩ := immaterial.1 _ (Equiv.swap "end" "__internal_label_1").injective
  rw [accepted] at renamed
  exact ⟨by decide +kernel, renamed, immaterial.2 _ accepted⟩

end Whitespace.Assembly
