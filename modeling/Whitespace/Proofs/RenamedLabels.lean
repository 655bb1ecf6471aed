/-
Module: Whitespace.Proofs.RenamedLabels
Purpose: Labels may be renamed. When every name that a line gives to a label is replaced, two names never
  by one, control reaches the same lines as before, and the lines are lowered to the same instructions;
  the numbers of labels come in the same order, whatever their names are.
Main exports: renameFirst, Line.renameLabel, CompileError.renameLabel, live_rename_iff,
  reachableLines_renameLabel, lower_renameLabel
-/
import Mathlib.Logic.Function.Basic
import Whitespace.Proofs.KeptLines

namespace Whitespace.Assembly

/-! ### Renaming -/

/-- The arguments with the first name among them, be it a word or a variable, replaced. -/
def renameFirst (new : String → String) : List Token → List Token
  | [] => []
  | .word name :: rest => .word (new name) :: rest
  | .variable name :: rest => .variable (new name) :: rest
  | t :: rest => t :: renameFirst new rest

namespace Line

/-- Does the opcode of the line take a label, at least by its spelling? -/
def takesLabel (l : Line) : Bool :=
  l.opcodeText = "label" || l.opcodeText = "call" || "jump".toList.isPrefixOf l.opcodeText.toList

/-- The line with the name of its label replaced, if its opcode takes one. -/
def renameLabel (new : String → String) (l : Line) : Line :=
  if l.takesLabel then { l with tokens := l.tokens.take 1 ++ renameFirst new l.arguments } else l

end Line

def Conduct.rename (new : String → String) (c : Conduct) : Conduct where
  marksLabel := c.marksLabel.map new
  refersTo := c.refersTo.map new
  continues := c.continues

/-- The statement with the name of its label replaced. -/
def Statement.rename (new : String → String) : Statement → Statement
  | .label name => .label (new name)
  | .call name => .call (new name)
  | .jump condition name => .jump condition (new name)
  | s => s

/-- The name that a label number was given to, replaced. -/
def LabelOrigin.rename (new : String → String) : LabelOrigin → LabelOrigin
  | .named name => .named (new name)
  | .internal => .internal

def Labels.rename (new : String → String) (ls : Labels) : Labels :=
  ⟨ls.origins.map (LabelOrigin.rename new)⟩

/-- The failure with the label that it names, if it names one, replaced. -/
def CompileError.renameLabel (new : String → String) (e : CompileError) : CompileError :=
  match e.cause with
  | .undefinedLabel name => { e with cause := .undefinedLabel (new name) }
  | _ => e

/-! ### Lines -/

section

variable {new : String → String} {l : Line}

theorem kind_renameFirst (new : String → String) (tokens : List Token) :
    (renameFirst new tokens).map Token.kind = tokens.map Token.kind := by
  induction tokens with
  | nil => rfl
  | cons t rest ih => cases t <;> simp [renameFirst, Token.kind, ih]

theorem labelArgument?_renameFirst (new : String → String) (tokens : List Token) :
    labelArgument? (renameFirst new tokens) = (labelArgument? tokens).map new := by
  cases tokens with
  | nil => rfl
  | cons t rest => cases t <;> rfl

namespace Line

theorem renameLabel_of_takesLabel {first : Token} {arguments : List Token} (takes : l.takesLabel = true)
    (spelled : l.tokens = first :: arguments) :
    l.renameLabel new = { l with tokens := first :: renameFirst new arguments } := by
  simp [renameLabel, takes, Line.arguments, spelled]

theorem renameLabel_of_not_takesLabel (other : l.takesLabel = false) : l.renameLabel new = l := by
  simp [renameLabel, other]

/-- A line whose opcode takes a label starts with a word. -/
theorem exists_word_of_takesLabel (takes : l.takesLabel = true) :
    ∃ name arguments, l.tokens = .word name :: arguments := by
  unfold takesLabel opcodeText opcode? at takes
  split at takes
  · next name arguments spelled => exact ⟨name, arguments, spelled⟩
  · exact absurd takes (by decide)

theorem source_renameLabel : (l.renameLabel new).source = l.source := by
  unfold renameLabel
  split <;> rfl

theorem number_renameLabel : (l.renameLabel new).number = l.number := by
  unfold renameLabel
  split <;> rfl

/-- Renaming replaces the label that a line marks or refers to, and nothing else about control. -/
theorem conduct_renameLabel : (l.renameLabel new).conduct = l.conduct.rename new := by
  cases takes : l.takesLabel with
  | true =>
      obtain ⟨name, arguments, spelled⟩ := exists_word_of_takesLabel takes
      have label : labelName? { l with tokens := .word name :: renameFirst new arguments } =
          l.labelName?.map new := by
        have before : l.labelName? = labelArgument? arguments := by
          unfold labelName? Line.arguments
          rw [spelled]
          rfl
        rw [before, ← labelArgument?_renameFirst]
        rfl
      have text : opcodeText { l with tokens := .word name :: renameFirst new arguments } =
          l.opcodeText := by
        unfold opcodeText opcode?
        rw [spelled]
      rw [renameLabel_of_takesLabel takes spelled]
      simp only [conduct, Conduct.rename, marksLabel, refersTo, continues, text, label]
      congr 1 <;> split <;> rfl
  | false =>
      rw [renameLabel_of_not_takesLabel takes]
      simp only [takesLabel, Bool.or_eq_false_iff, decide_eq_false_iff_not] at takes
      obtain ⟨⟨label, call⟩, jump⟩ := takes
      have refers : l.refersTo = none := by
        unfold refersTo
        rw [jump, decide_eq_false call]
        rfl
      simp [conduct, Conduct.rename, marksLabel, refers, label]

/-- No remark is changed when labels are renamed. -/
theorem decoration?_renameLabel : (l.renameLabel new).decoration? = l.decoration? := by
  cases takes : l.takesLabel with
  | true =>
      obtain ⟨name, arguments, spelled⟩ := exists_word_of_takesLabel takes
      rw [renameLabel_of_takesLabel takes spelled]
      unfold decoration?
      rw [spelled]
  | false => rw [renameLabel_of_not_takesLabel takes]

end Line

end

/-! ### Lines that control reaches -/

section

variable {new : String → String} {conducts : List Conduct} {k : Nat}

/-- Control reaches the same lines when labels are renamed. -/
theorem Live.rename (h : Live conducts k) : Live (conducts.map (Conduct.rename new)) k := by
  have line {k : Nat} {c : Conduct} (here : conducts[k]? = some c) :
      (conducts.map (Conduct.rename new))[k]? = some (c.rename new) := by
    rw [List.getElem?_map, here]
    rfl
  induction h with
  | first here => exact .first (line here)
  | following _ before continues here ih => exact .following ih (line before) continues (line here)
  | @referred _ _ _ _ name _ before refers here marks ih =>
      have refers' : Option.map new _ = some (new name) := congrArg (Option.map new) refers
      have marks' : Option.map new _ = some (new name) := congrArg (Option.map new) marks
      exact .referred ih (line before) refers' (line here) marks'

/-- Control reaches the same places when labels are renamed apart. -/
theorem live_rename_iff (apart : Function.Injective new) :
    Live (conducts.map (Conduct.rename new)) k ↔ Live conducts k := by
  refine ⟨fun h => ?_, Live.rename⟩
  have line {k : Nat} {c' : Conduct} (here : (conducts.map (Conduct.rename new))[k]? = some c') :
      ∃ c, conducts[k]? = some c ∧ c.rename new = c' := by
    rwa [List.getElem?_map, Option.map_eq_some_iff] at here
  induction h with
  | first here =>
      obtain ⟨c, start, -⟩ := line here
      exact .first start
  | following _ before continues here ih =>
      obtain ⟨c, line₁, rfl⟩ := line before
      obtain ⟨d, line₂, -⟩ := line here
      exact .following ih line₁ continues line₂
  | referred _ before refers here marks ih =>
      obtain ⟨c, line₁, rfl⟩ := line before
      obtain ⟨d, line₂, rfl⟩ := line here
      obtain ⟨name, refers', rfl⟩ := Option.map_eq_some_iff.1 refers
      obtain ⟨name', marks', same⟩ := Option.map_eq_some_iff.1 marks
      obtain rfl := apart same
      exact .referred ih line₁ refers' line₂ marks'

/-- The places that control cannot reach are the same when labels are renamed apart. -/
theorem mem_unreachablePlaces_renameLabel (apart : Function.Injective new) (lines : List Line)
    (k : Nat) :
    k ∈ unreachablePlaces (lines.map (Line.renameLabel new)) ↔ k ∈ unreachablePlaces lines := by
  have conducts : (lines.map (Line.renameLabel new)).map Line.conduct =
      (lines.map Line.conduct).map (Conduct.rename new) := by
    rw [List.map_map, List.map_map]
    exact List.map_congr_left fun l _ => Line.conduct_renameLabel
  rw [mem_unreachablePlaces_iff, mem_unreachablePlaces_iff, conducts, live_rename_iff apart,
    List.length_map]

/-- The lines that control reaches are the same ones, renamed. -/
theorem reachableLines_renameLabel (apart : Function.Injective new) (lines : List Line) :
    reachableLines (lines.map (Line.renameLabel new)) =
      (reachableLines lines).map (Line.renameLabel new) := by
  have kept : keptPlaces (lines.map (Line.renameLabel new)) = keptPlaces lines := by
    funext k
    have same := mem_unreachablePlaces_renameLabel apart lines k
    rw [Std.TreeSet.mem_iff_contains, Std.TreeSet.mem_iff_contains] at same
    rw [keptPlaces, keptPlaces, Bool.eq_iff_iff.2 same]
  rw [reachableLines_eq_pick, reachableLines_eq_pick, kept, pick_map]

end

/-! ### Statements -/

def Opcode.takesLabel : Opcode → Bool
  | .label | .call | .jump _ => true
  | _ => false

theorem Opcode.takesLabel_of_ofName? {text : String} {opcode : Opcode} (h : ofName? text = some opcode) :
    opcode.takesLabel =
      (text = "label" || text = "call" || "jump".toList.isPrefixOf text.toList) := by
  unfold ofName? at h
  split at h <;> cases h <;> rfl

section

variable {new : String → String} {options : Options} {vs : Variables} {l : Line}
  {opcode : Opcode} {tokens : List Token}

/-- An opcode that takes a label accepts the renamed label, and makes the renamed statement. -/
theorem fitArguments_renameFirst (takes : opcode.takesLabel = true) :
    fitArguments vs opcode (renameFirst new tokens) =
      (fitArguments vs opcode tokens).map (Option.map (Statement.rename new)) := by
  rcases tokens with _ | ⟨t, _ | ⟨u, more⟩⟩
  · cases opcode <;> rfl
  · cases opcode with
    | label | call | jump => cases t <;> rfl
    | _ => cases takes
  · cases opcode with
    | label | call | jump => cases t <;> rfl
    | _ => cases takes

/-- A statement with its first label renamed is read as the renamed statement. -/
theorem readStatement_renameFirst {name : String}
    (takes : ∀ opcode, Opcode.ofName? name = some opcode → opcode.takesLabel = true) :
    readStatement options vs name (renameFirst new tokens) =
      (readStatement options vs name tokens).map (Statement.rename new) := by
  unfold readStatement
  cases known : Opcode.ofName? name with
  | none => rfl
  | some opcode =>
      simp only [fitArguments_renameFirst (takes opcode known), kind_renameFirst]
      split
      · rfl
      · cases fitArguments vs opcode tokens with
        | error e => rfl
        | ok s? => cases s? <;> rfl

theorem Statement.rename_eq_self {s : Statement} (other : s.opcode.takesLabel = false) :
    s.rename new = s := by
  cases s with
  | label | call | jump => cases other
  | _ => rfl

/-- A renamed line makes the renamed statement, and if it makes none it is at fault in the same way. -/
theorem Statement.ofLine_renameLabel :
    Statement.ofLine options vs (l.renameLabel new) =
      (Statement.ofLine options vs l).map (Option.map (Statement.rename new)) := by
  cases takes : l.takesLabel with
  | true =>
      obtain ⟨name, arguments, spelled⟩ := Line.exists_word_of_takesLabel takes
      rw [Line.renameLabel_of_takesLabel takes spelled]
      unfold ofLine
      simp only [spelled]
      rw [readStatement_renameFirst]
      · cases readStatement options vs (Text.lowerText name) arguments <;> rfl
      · intro opcode known
        rw [Opcode.takesLabel_of_ofName? known, ← takes]
        simp [Line.takesLabel, Line.opcodeText, Line.opcode?, spelled]
  | false =>
      rw [Line.renameLabel_of_not_takesLabel takes]
      cases read : Statement.ofLine options vs l with
      | error cause => rfl
      | ok s? =>
          cases s? with
          | none => rfl
          | some s =>
              obtain ⟨name, tokens, opcode, spelled, known, fit⟩ := exists_opcode_of_ofLine read
              have other : s.opcode.takesLabel = false := by
                rw [fit.opcode_eq, Opcode.takesLabel_of_ofName? known, ← takes]
                simp [Line.takesLabel, Line.opcodeText, Line.opcode?, spelled]
              simp [Except.map, rename_eq_self other]

theorem Statement.applyTo_rename (vs : Variables) (s : Statement) :
    (s.rename new).applyTo vs = s.applyTo vs := by
  cases s <;> rfl

/-- The statements of renamed lines are the renamed statements. -/
theorem readStatements_renameLabel (options : Options) (vs : Variables) (lines : List Line) :
    readStatements options vs (lines.map (Line.renameLabel new)) =
      let reader := readStatements options vs lines
      { reader with
        statements := reader.statements.map fun (l, s) => (l.renameLabel new, s.rename new) } := by
  induction lines generalizing vs with
  | nil => rfl
  | cons l rest ih =>
      rw [List.map_cons, readStatements, readStatements, Statement.ofLine_renameLabel,
        Line.source_renameLabel, Line.number_renameLabel]
      cases Statement.ofLine options vs l with
      | error cause => rfl
      | ok s? =>
          cases s? with
          | none => exact ih vs
          | some s => simp [Except.map, Statement.applyTo_rename, ih]

end

/-! ### Instructions -/

section

variable {new : String → String}

theorem LabelOrigin.rename_injective (apart : Function.Injective new) :
    Function.Injective (LabelOrigin.rename new) := by
  rintro (a | _) (b | _) same
  · exact congrArg _ (apart (LabelOrigin.named.inj same))
  · cases same
  · cases same
  · rfl

theorem Labels.rename_empty : ({} : Labels).rename new = {} := by
  simp [rename]

theorem Labels.add_rename (ls : Labels) (origin : LabelOrigin) :
    (ls.rename new).add (origin.rename new) =
      ((ls.add origin).1, (ls.add origin).2.rename new) := by
  simp [Labels.add, Labels.rename]

/-- A renamed label gets the number of the label. -/
theorem Labels.number_rename (apart : Function.Injective new) (ls : Labels) (name : String) :
    (ls.rename new).number (new name) = ((ls.number name).1, (ls.number name).2.rename new) := by
  have same : (· == LabelOrigin.named (new name)) ∘ LabelOrigin.rename new =
      (· == LabelOrigin.named name) := by
    funext origin
    rw [Function.comp_apply, Bool.eq_iff_iff, beq_iff_eq, beq_iff_eq]
    exact (LabelOrigin.rename_injective apart).eq_iff' rfl
  have place : (ls.rename new).origins.idxOf? (.named (new name)) = ls.origins.idxOf? (.named name) := by
    obtain ⟨⟨origins⟩⟩ := ls
    simp only [rename, List.map_toArray, List.idxOf?_toArray, List.idxOf?, List.findIdx?_map, same]
  unfold number
  rw [place]
  cases ls.origins.idxOf? (.named name) with
  | some n => rfl
  | none => exact add_rename ls (.named name)

theorem Labels.fresh_rename (ls : Labels) :
    (ls.rename new).fresh = (ls.fresh.1, ls.fresh.2.rename new) :=
  add_rename ls .internal

theorem emitJump_rename (ls : Labels) (target : Label) (condition : Condition) :
    emitJump (ls.rename new) target condition =
      ((emitJump ls target condition).1, (emitJump ls target condition).2.rename new) := by
  cases condition <;> simp only [emitJump, emitInverted, Labels.fresh_rename]

/-- A renamed statement becomes the same instructions. -/
theorem Statement.emit_rename (apart : Function.Injective new) (ls : Labels) (s : Statement) :
    (s.rename new).emit (ls.rename new) = ((s.emit ls).1, (s.emit ls).2.rename new) := by
  cases s with
  | label | call => simp only [rename, emit, Labels.number_rename apart]
  | jump => simp only [rename, emit, Labels.number_rename apart, emitJump_rename]
  | store n? | retrieve n? => cases n? <;> rfl
  | _ => rfl

theorem emitAll_rename (apart : Function.Injective new) (ls : Labels) (statements : List Statement) :
    emitAll (ls.rename new) (statements.map (Statement.rename new)) =
      ((emitAll ls statements).1, (emitAll ls statements).2.rename new) := by
  induction statements generalizing ls with
  | nil => rfl
  | cons s rest ih => simp only [List.map_cons, emitAll, Statement.emit_rename apart, ih]

theorem Statement.defines?_rename (s : Statement) : (s.rename new).defines? = s.defines?.map new := by
  cases s <;> rfl

theorem Statement.uses?_rename (s : Statement) : (s.rename new).uses? = s.uses?.map new := by
  cases s <;> rfl

/-- The first use of a label that nobody defines is the same one. -/
theorem undefinedUse?_rename (apart : Function.Injective new) (statements : List (Line × Statement)) :
    undefinedUse? (statements.map fun (l, s) => (l.renameLabel new, s.rename new)) =
      (undefinedUse? statements).map (CompileError.renameLabel new) := by
  have defined : (statements.map fun (l, s) => (l.renameLabel new, s.rename new)).filterMap
      (fun (_, s) => s.defines?) = (statements.filterMap fun (_, s) => s.defines?).map new := by
    rw [List.filterMap_map, List.map_filterMap]
    exact List.filterMap_congr fun x _ => Statement.defines?_rename x.2
  unfold undefinedUse?
  simp only [defined]
  clear defined
  generalize statements.filterMap (fun (_, s) => s.defines?) = names
  rw [List.findSome?_map, List.map_findSome?]
  congr 1
  funext ⟨l, s⟩
  simp only [Function.comp_apply, Statement.uses?_rename, Line.source_renameLabel,
    Line.number_renameLabel]
  cases s.uses? with
  | none => rfl
  | some name =>
      have known : (names.map new).contains (new name) = names.contains name := by
        rw [Bool.eq_iff_iff, List.contains_iff_mem, List.contains_iff_mem]
        exact List.mem_map_of_injective apart
      simp only [Option.map_some, known]
      split <;> rfl

/-- The first line that cannot be read is at fault for something else than a label. -/
theorem readStatements_error?_rename {options : Options} {vs : Variables} {lines : List Line}
    {e : CompileError} (h : (readStatements options vs lines).error? = some e) :
    e.renameLabel new = e := by
  obtain ⟨l, -, vs', cause, read, rfl⟩ := exists_of_readStatements_error? h
  have other : ∀ name, cause ≠ .undefinedLabel name := by
    rintro name rfl
    exact ofLine_ne_undefinedLabel read
  unfold CompileError.renameLabel
  split
  · next name same => exact absurd same (other name)
  · rfl

/-- Renamed lines are lowered to the same program, or they fail at the same line for the same cause, in
    which the label is renamed. -/
theorem lower_renameLabel (apart : Function.Injective new) (options : Options) (lines : List Line) :
    (lower { options } (lines.map (Line.renameLabel new))).1 =
      (lower { options } lines).1.mapError (CompileError.renameLabel new) := by
  have decorations : (lines.map (Line.renameLabel new)).filterMap Line.decoration? =
      lines.filterMap Line.decoration? := by
    rw [List.filterMap_map]
    exact List.filterMap_congr fun l _ => Line.decoration?_renameLabel
  have instructions : (emitAll {} (((readStatements options [] lines).statements.map
      fun (l, s) => (l.renameLabel new, s.rename new)).map Prod.snd)).1 =
      (emitAll {} ((readStatements options [] lines).statements.map Prod.snd)).1 := by
    have renamed := congrArg Prod.fst
      (emitAll_rename apart {} ((readStatements options [] lines).statements.map Prod.snd))
    rw [Labels.rename_empty, List.map_map] at renamed
    rw [List.map_map]
    exact renamed
  unfold lower
  simp only [readStatements_renameLabel, undefinedUse?_rename apart, decorations]
  cases error : (readStatements options [] lines).error? with
  | some e =>
      simp only [Except.mapError]
      rw [readStatements_error?_rename error]
  | none =>
      simp only
      cases undefinedUse? (readStatements options [] lines).statements with
      | some e => rfl
      | none =>
          simp only [Option.map_none, instructions]
          rfl

end

end Whitespace.Assembly
