/-
Module: Whitespace.Proofs.SymbolicCode
Purpose: The code of a statement before its labels are numbered, a label being referred to by its name or
  as the place after the statement. Lowering only chooses the numbers: the code of every line stands at
  the place of the line, with the numbers that its labels have in the end.
Main exports: Reference, Symbolic, Statement.symbolic, Statement.emit_eq, LineProgram.code,
  LineProgram.place, LineProgram.address, LineProgram.code_getElem?, LineProgram.exists_line_of_lt_place
-/
import Mathlib.Data.List.Basic
import Mathlib.Data.List.ReduceOption
import Whitespace.Proofs.LineMachine

namespace Whitespace.Assembly

/-! ### Code without numbers -/

/-- What a label in the code of a statement is meant for. -/
inductive Reference where
  /-- The label with a name. -/
  | named (name : String)
  /-- The place after the statement. -/
  | past
deriving Repr, DecidableEq

/-- The flow commands that have a label. -/
inductive Branch where
  | mark
  | call
  | jump
  | jumpZero
  | jumpNegative
deriving Repr, DecidableEq

/-- The flow command with its label. -/
def Branch.command : Branch → Label → FlowCommand
  | .mark => .mark
  | .call => .call
  | .jump => .jump
  | .jumpZero => .jumpZero
  | .jumpNegative => .jumpNegative

/-- An instruction whose label, if it has one, is not numbered yet. -/
inductive Symbolic where
  | fixed (instruction : Instruction)
  | branch (branch : Branch) (reference : Reference)
deriving Repr, DecidableEq

def Symbolic.numbered (address : Reference → Label) : Symbolic → Instruction
  | .fixed i => i
  | .branch b r => .flow (b.command (address r))

/-- A jump with a condition, as in `emitJump`. -/
def Condition.symbolic (target : Reference) : Condition → List Symbolic
  | .always => [.branch .jump target]
  | .zero => [.branch .jumpZero target]
  | .negative => [.branch .jumpNegative target]
  | .positive => [.fixed (pushOf 0), .fixed (.stack .swap), .fixed (.arithmetic .subtract),
      .branch .jumpNegative target]
  | .notPositive => [.fixed (pushOf 1), .fixed (.arithmetic .subtract), .branch .jumpNegative target]
  | .notNegative => [.branch .jumpNegative .past, .branch .jump target, .branch .mark .past]
  | .notZero => [.branch .jumpZero .past, .branch .jump target, .branch .mark .past]

/-- The code of a statement without numbers. -/
def Statement.symbolic : Statement → List Symbolic
  | .push n => [.fixed (pushOf n)]
  | .copy n => [.fixed (.stack (.copy n))]
  | .slide n => [.fixed (.stack (.slide n))]
  | .arithmetic command n? => (emitArithmetic command n?).map .fixed
  | .store none => [.fixed (.heap .store)]
  | .store (some n) => [.fixed (pushOf n), .fixed (.stack .swap), .fixed (.heap .store)]
  | .retrieve none => [.fixed (.heap .retrieve)]
  | .retrieve (some n) => [.fixed (pushOf n), .fixed (.heap .retrieve)]
  | .storeString text => (emitString text).map .fixed
  | .label name => [.branch .mark (.named name)]
  | .call name => [.branch .call (.named name)]
  | .jump condition name => condition.symbolic (.named name)
  | .define _ _ => []
  | .plain i => [.fixed i]

/-! ### Numbers of labels -/

namespace Labels

/-- The numbers of one list of labels are those of another, which may go on. -/
def Extends (ls more : Labels) : Prop := ls.origins.toList <+: more.origins.toList

theorem Extends.refl (ls : Labels) : ls.Extends ls := List.prefix_refl _

theorem Extends.trans {a b c : Labels} (ab : a.Extends b) (bc : b.Extends c) : a.Extends c :=
  List.IsPrefix.trans ab bc

theorem Extends.size_le {a b : Labels} (h : a.Extends b) : a.origins.size ≤ b.origins.size := by
  simpa using List.IsPrefix.length_le h

def Knows (ls : Labels) (name : String) : Prop := LabelOrigin.named name ∈ ls.origins.toList

theorem Knows.mono {a b : Labels} {name : String} (known : a.Knows name) (h : a.Extends b) :
    b.Knows name :=
  h.subset known

/-- The number of a name is its first place among the origins. -/
def addressOf (ls : Labels) (name : String) : Label :=
  ⟨ls.origins.toList.idxOf (.named name)⟩

theorem addressOf_extends {a b : Labels} {name : String} (known : a.Knows name) (h : a.Extends b) :
    b.addressOf name = a.addressOf name := by
  simp only [addressOf, h.idxOf_eq_of_mem known]

/-- The number of a known name leads back to the name. -/
theorem origin_addressOf {ls : Labels} {name : String} (known : ls.Knows name) :
    ls.origins.toList[(ls.addressOf name).number]? = some (.named name) :=
  List.getElem?_idxOf known

theorem addressOf_injective {ls : Labels} {name other : String} (known : ls.Knows name)
    (known' : ls.Knows other) (same : ls.addressOf name = ls.addressOf other) : name = other := by
  have origin := origin_addressOf known
  rw [same, origin_addressOf known'] at origin
  cases origin
  rfl

theorem add_extends (ls : Labels) (origin : LabelOrigin) : ls.Extends (ls.add origin).2 :=
  ⟨[origin], by simp [add]⟩

/-- A name that is known keeps its number. -/
theorem number_of_knows {ls : Labels} {name : String} (known : ls.Knows name) :
    ls.number name = (ls.addressOf name, ls) := by
  obtain ⟨⟨origins⟩⟩ := ls
  have found : origins.idxOf? (.named name) = some (origins.idxOf (.named name)) := by
    rw [List.idxOf?_eq_some_iff]
    refine ⟨List.idxOf_lt_length_iff.2 known, List.getElem_idxOf _, ?_⟩
    intro j hj
    simpa using List.not_of_lt_findIdx hj
  simp [number, addressOf, found]

theorem number_of_not_knows {ls : Labels} {name : String} (unknown : ¬ ls.Knows name) :
    ls.number name = ls.add (.named name) := by
  have none : ls.origins.idxOf? (.named name) = none := by
    simpa [Knows] using unknown
  rw [number, none]

theorem number_extends (ls : Labels) (name : String) : ls.Extends (ls.number name).2 := by
  by_cases known : ls.Knows name
  · rw [number_of_knows known]
    exact Extends.refl ls
  · rw [number_of_not_knows known]
    exact add_extends ls _

/-- Asking for the number of a name makes the name known. -/
theorem number_knows (ls : Labels) (name : String) : (ls.number name).2.Knows name := by
  by_cases known : ls.Knows name
  · rw [number_of_knows known]
    exact known
  · rw [number_of_not_knows known]
    simp [Knows, add]

/-- The number given to a name is the one it keeps. -/
theorem number_fst {ls more : Labels} {name : String} (h : (ls.number name).2.Extends more) :
    (ls.number name).1 = more.addressOf name := by
  rw [addressOf_extends (number_knows ls name) h]
  by_cases known : ls.Knows name
  · rw [number_of_knows known]
  · rw [number_of_not_knows known]
    have new : LabelOrigin.named name ∉ ls.origins.toList := known
    simp [add, addressOf, List.idxOf_append, new]

/-- The numbers behind the references of a statement whose own label has the number `own`. -/
def address (ls : Labels) (own : Nat) : Reference → Label
  | .named name => ls.addressOf name
  | .past => ⟨own⟩

end Labels

/-- The number that a statement would have given away last. -/
def Statement.own (ls : Labels) (s : Statement) : Nat := (s.emit ls).2.origins.size - 1

theorem emitJump_extends (ls : Labels) (target : Label) (condition : Condition) :
    ls.Extends (emitJump ls target condition).2 := by
  cases condition with
  | always | zero | negative | positive | notPositive => exact Labels.Extends.refl ls
  | notNegative | notZero => exact Labels.add_extends ls .internal

/-- A statement adds labels and takes none away. -/
theorem Statement.emit_extends (ls : Labels) (s : Statement) : ls.Extends (s.emit ls).2 := by
  cases s with
  | label name => exact Labels.number_extends ls name
  | call name => exact Labels.number_extends ls name
  | jump condition name =>
      exact (Labels.number_extends ls name).trans (emitJump_extends _ _ condition)
  | store n? | retrieve n? => cases n? <;> exact Labels.Extends.refl ls
  | _ => exact Labels.Extends.refl ls

/-- The instructions of a statement are its code with the numbers that its labels have in the end. -/
theorem Statement.emit_eq {ls final : Labels} {s : Statement} (h : (s.emit ls).2.Extends final) :
    (s.emit ls).1 = s.symbolic.map (Symbolic.numbered (final.address (s.own ls))) := by
  cases s with
  | label name => simp [emit, symbolic, Symbolic.numbered, Branch.command, Labels.address,
      Labels.number_fst h]
  | call name => simp [emit, symbolic, Symbolic.numbered, Branch.command, Labels.address,
      Labels.number_fst h]
  | jump condition name =>
      have target : (ls.number name).1 = final.addressOf name :=
        Labels.number_fst ((emitJump_extends _ _ condition).trans h)
      cases condition <;>
        simp [emit, symbolic, Condition.symbolic, emitJump, emitInverted, Labels.fresh, Labels.add,
          Statement.own, Symbolic.numbered, Branch.command, Labels.address, target]
  | arithmetic command n? => simp [emit, symbolic, Symbolic.numbered, Function.comp_def]
  | storeString text => simp [emit, symbolic, Symbolic.numbered, Function.comp_def]
  | store n? | retrieve n? => cases n? <;> rfl
  | _ => rfl

/-! ### Code of many lines -/

theorem emitAll_append (ls : Labels) (first rest : List Statement) :
    emitAll ls (first ++ rest) =
      ((emitAll ls first).1 ++ (emitAll (emitAll ls first).2 rest).1,
        (emitAll (emitAll ls first).2 rest).2) := by
  induction first generalizing ls with
  | nil => simp [emitAll]
  | cons s first ih => simp [emitAll, ih]

theorem emitAll_extends (ls : Labels) (statements : List Statement) :
    ls.Extends (emitAll ls statements).2 := by
  induction statements generalizing ls with
  | nil => exact Labels.Extends.refl ls
  | cons s rest ih => exact (s.emit_extends ls).trans (ih _)

namespace LineProgram

/-- The instructions that the lines are lowered to, and the labels met by then. -/
def emit (p : LineProgram) : List Instruction × Labels := emitAll {} p.reduceOption

/-- The instructions that the lines are lowered to. -/
def code (p : LineProgram) : List Instruction := p.emit.1

/-- The number of instructions that the lines before a position are lowered to. -/
def place (p : LineProgram) (k : Nat) : Nat := (code (p.take k)).length

def labelsBefore (p : LineProgram) (k : Nat) : Labels := (emit (p.take k)).2

@[simp] theorem place_zero (p : LineProgram) : p.place 0 = 0 := rfl

theorem place_of_length_le {p : LineProgram} {k : Nat} (h : p.length ≤ k) :
    p.place k = p.code.length := by
  rw [place, List.take_of_length_le h]

section

variable {p : LineProgram} {k : Nat}

theorem emit_take_none (h : p[k]? = some none) : emit (p.take (k + 1)) = emit (p.take k) := by
  rw [List.take_add_one, h]
  simp [emit, List.reduceOption_append]

theorem emit_take_some {s : Statement} (h : p[k]? = some (some s)) :
    emit (p.take (k + 1)) =
      (code (p.take k) ++ (s.emit (p.labelsBefore k)).1, (s.emit (p.labelsBefore k)).2) := by
  rw [List.take_add_one, h]
  simp [emit, code, labelsBefore, List.reduceOption_append, emitAll_append, emitAll]

theorem place_succ_none (h : p[k]? = some none) : p.place (k + 1) = p.place k := by
  rw [place, code, emit_take_none h]
  rfl

theorem labelsBefore_succ {s : Statement} (h : p[k]? = some (some s)) :
    p.labelsBefore (k + 1) = (s.emit (p.labelsBefore k)).2 := by
  rw [labelsBefore, emit_take_some h]

theorem labelsBefore_extends {j : Nat} (h : k ≤ j) : (p.labelsBefore k).Extends (p.labelsBefore j) := by
  have split : p.take j = p.take k ++ (p.take j).drop k := by
    conv => lhs; rw [← List.take_append_drop k (p.take j), List.take_take, Nat.min_eq_left h]
  rw [labelsBefore, labelsBefore, split, emit, emit, List.reduceOption_append, emitAll_append]
  exact emitAll_extends _ _

theorem labelsBefore_extends_emit (p : LineProgram) (k : Nat) :
    (p.labelsBefore k).Extends p.emit.2 := by
  have whole : p.emit.2 = p.labelsBefore (max k p.length) := by
    rw [labelsBefore, List.take_of_length_le (Nat.le_max_right k p.length)]
  rw [whole]
  exact labelsBefore_extends (Nat.le_max_left k p.length)

/-- The number of the label that the line at a position has for itself, if it has one. -/
def own (p : LineProgram) (k : Nat) : Nat := (p.labelsBefore (k + 1)).origins.size - 1

/-- The numbers behind the references of the line at a position. -/
def address (p : LineProgram) (k : Nat) : Reference → Label := p.emit.2.address (p.own k)

/-- The code of a line follows the code of the lines before it. -/
theorem emit_take_succ {s : Statement} (h : p[k]? = some (some s)) :
    code (p.take (k + 1)) =
      code (p.take k) ++ s.symbolic.map (Symbolic.numbered (p.address k)) := by
  have final : (s.emit (p.labelsBefore k)).2.Extends p.emit.2 := by
    rw [← labelsBefore_succ h]
    exact labelsBefore_extends_emit p (k + 1)
  rw [code, emit_take_some h, address, own, labelsBefore_succ h]
  simp only [Statement.emit_eq final, Statement.own]

theorem place_succ {s : Statement} (h : p[k]? = some (some s)) :
    p.place (k + 1) = p.place k + s.symbolic.length := by
  rw [place, emit_take_succ h, List.length_append, List.length_map, place]

theorem code_take_prefix (p : LineProgram) (k : Nat) : code (p.take k) <+: p.code := by
  have split : p.code = (emitAll {} ((p.take k).reduceOption ++ (p.drop k).reduceOption)).1 := by
    rw [← List.reduceOption_append, List.take_append_drop]
    rfl
  rw [split, emitAll_append]
  exact List.prefix_append _ _

/-- The code of a line stands at its place. -/
theorem code_getElem? {s : Statement} (h : p[k]? = some (some s)) {d : Nat}
    (hd : d < s.symbolic.length) :
    p.code[p.place k + d]? = s.symbolic[d]?.map (Symbolic.numbered (p.address k)) := by
  obtain ⟨rest, hrest⟩ := code_take_prefix p (k + 1)
  rw [← hrest, emit_take_succ h, List.append_assoc, place, List.getElem?_append_right (by omega),
    Nat.add_sub_cancel_left, List.getElem?_append_left (by simpa using hd), List.getElem?_map]

end

/-- A later line never has an earlier place. -/
theorem place_le_succ (p : LineProgram) (k : Nat) : p.place k ≤ p.place (k + 1) := by
  cases h : p[k]? with
  | none =>
      have past : p.length ≤ k := by simpa using h
      have same : p.place k = p.place (k + 1) := by
        rw [place_of_length_le past, place_of_length_le (Nat.le_succ_of_le past)]
      exact Nat.le_of_eq same
  | some s? =>
      cases s? with
      | none => exact Nat.le_of_eq (place_succ_none h).symm
      | some s => rw [place_succ h]; exact Nat.le_add_right _ _

theorem place_mono (p : LineProgram) {j k : Nat} (h : j ≤ k) : p.place j ≤ p.place k := by
  induction h with
  | refl => exact Nat.le_refl _
  | step _ ih => exact Nat.le_trans ih (p.place_le_succ _)

/-- Every instruction before the place of a line belongs to the statement of an earlier line. -/
theorem exists_line_of_lt_place {p : LineProgram} {i n : Nat} (h : i < p.place n) :
    ∃ k s d, k < n ∧ p[k]? = some (some s) ∧ d < s.symbolic.length ∧ i = p.place k + d := by
  induction n with
  | zero => exact absurd h (Nat.not_lt_zero i)
  | succ n ih =>
      by_cases earlier : i < p.place n
      · obtain ⟨k, s, d, hk, line⟩ := ih earlier
        exact ⟨k, s, d, Nat.lt_succ_of_lt hk, line⟩
      · cases hline : p[n]? with
        | none =>
            have past : p.length ≤ n := by simpa using hline
            rw [place_of_length_le (Nat.le_succ_of_le past), ← place_of_length_le past] at h
            exact absurd h earlier
        | some s? =>
            cases s? with
            | none =>
                rw [place_succ_none hline] at h
                exact absurd h earlier
            | some s =>
                rw [place_succ hline] at h
                exact ⟨n, s, i - p.place n, Nat.lt_succ_self n, hline, by omega, by omega⟩

end LineProgram

end Whitespace.Assembly
