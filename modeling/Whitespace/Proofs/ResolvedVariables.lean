/-
Module: Whitespace.Proofs.ResolvedVariables
Purpose: A variable is nothing but a name for a literal. Where a line takes the value of a variable, the
  literal that its first definition gives it may be written instead, also in the definitions of other
  variables; labels that are called like variables, and the names that are defined, stay. The lines are
  lowered as before, to the same instructions with the same labels, and read no variable any more.
Main exports: Line.resolved, Statement.ofLine_resolved, readStatements_resolved, lower_resolved
-/
import Whitespace.Proofs.VariableValues

namespace Whitespace.Assembly

/-! ### Literals for variables -/

def Value.literal : Value → Token
  | .integer value => .integer value
  | .string value => .string value

/-- The token with the literal for its value in the place of a variable. -/
def Token.resolved (values : String → Option Value) : Token → Token
  | .variable name => ((values name).map Value.literal).getD (.variable name)
  | t => t

/-- The arguments of an opcode after a change to the one that it takes for a value. -/
def Opcode.changeValue (f : Token → Token) : Opcode → List Token → List Token
  | .push, [t] | .copy, [t] | .slide, [t] | .arithmetic _, [t] => [f t]
  | .store, [t] | .retrieve, [t] | .storeString, [t] => [f t]
  | .defineInteger, [name, t] | .defineString, [name, t] => [name, f t]
  | _, tokens => tokens

/-- The line with the literal in the place of the variable whose value it reads. -/
def Line.resolved (values : String → Option Value) (l : Line) : Line :=
  match l.tokens with
  | .word word :: tokens =>
    match Opcode.ofName? (Text.lowerText word) with
    | some opcode => { l with tokens := .word word :: opcode.changeValue (.resolved values) tokens }
    | none => l
  | _ => l

theorem Line.source_resolved (values : String → Option Value) (l : Line) :
    (l.resolved values).source = l.source := by
  unfold Line.resolved
  split
  · split <;> rfl
  · rfl

theorem Line.number_resolved (values : String → Option Value) (l : Line) :
    (l.resolved values).number = l.number := by
  unfold Line.resolved
  split
  · split <;> rfl
  · rfl

/-- No remark is changed when variables are replaced. -/
theorem Line.decoration?_resolved (values : String → Option Value) (l : Line) :
    (l.resolved values).decoration? = l.decoration? := by
  unfold Line.resolved
  split
  · next word tokens spelled =>
      split
      · simp [Line.decoration?, spelled]
      · rfl
  · rfl

theorem Opcode.valueArgument?_changeValue (f : Token → Token) (opcode : Opcode) (tokens : List Token) :
    opcode.valueArgument? (opcode.changeValue f tokens) = (opcode.valueArgument? tokens).map f := by
  rcases tokens with _ | ⟨t, _ | ⟨u, _ | ⟨w, more⟩⟩⟩ <;> cases opcode <;> rfl

/-! ### One line -/

section

variable {options : Options} {vs vs' : Variables} {values : String → Option Value} {t : Token}
  {opcode : Opcode} {tokens : List Token} {s : Statement} {s? : Option Statement} {l : Line}
  {name : String}

theorem kind_resolved (other : t.kind ≠ .character) : (t.resolved values).kind ≠ .character := by
  cases t with
  | character c => exact absurd rfl other
  | «variable» name =>
      simp only [Token.resolved]
      rcases values name with _ | n | text <;> nofun
  | _ => nofun

/-- A token that stands for an integer still does when its variable is replaced. -/
theorem integerOfToken_resolved (known : ∀ name v, vs.value? name = some v → values name = some v)
    {n : Int} (h : integerOfToken vs t = .ok (some n)) :
    integerOfToken vs' (t.resolved values) = .ok (some n) := by
  cases t with
  | «variable» name =>
      simp only [integerOfToken] at h
      split at h
      · next value here =>
          cases h
          simp only [Token.resolved, known name _ here]
          rfl
      · cases h
      · cases h
  | _ => exact h

/-- A token that stands for a text still does when its variable is replaced. -/
theorem stringOfToken_resolved (known : ∀ name v, vs.value? name = some v → values name = some v)
    {text : String} (h : stringOfToken vs t = .ok (some text)) :
    stringOfToken vs' (t.resolved values) = .ok (some text) := by
  cases t with
  | «variable» name =>
      simp only [stringOfToken] at h
      split at h
      · next value here =>
          cases h
          simp only [Token.resolved, known name _ here]
          rfl
      · cases h
      · cases h
  | _ => exact h

theorem withInteger_resolved (known : ∀ name v, vs.value? name = some v → values name = some v)
    {make : Int → Statement} (h : withInteger vs t make = .ok (some s)) :
    withInteger vs' (t.resolved values) make = .ok (some s) := by
  obtain ⟨n, read, rfl⟩ := exists_of_map_eq_ok h
  unfold withInteger
  rw [integerOfToken_resolved known read]
  rfl

theorem withString_resolved (known : ∀ name v, vs.value? name = some v → values name = some v)
    {make : String → Statement} (h : withString vs t make = .ok (some s)) :
    withString vs' (t.resolved values) make = .ok (some s) := by
  obtain ⟨text, read, rfl⟩ := exists_of_map_eq_ok h
  unfold withString
  rw [stringOfToken_resolved known read]
  rfl

theorem fitArguments_index (index : opcode = .copy ∨ opcode = .slide) (other : t.kind ≠ .character) :
    fitArguments vs opcode [t] =
      withInteger vs t (if opcode = .copy then .copy else .slide) := by
  rcases index with rfl | rfl <;> cases t <;> first | rfl | exact absurd rfl other

/-- Arguments that fit make the same statement with the literal, whatever variables there are. -/
theorem fitArguments_resolved (known : ∀ name v, vs.value? name = some v → values name = some v)
    (h : fitArguments vs opcode tokens = .ok (some s)) :
    fitArguments vs' opcode (opcode.changeValue (.resolved values) tokens) = .ok (some s) := by
  rcases tokens with _ | ⟨t, _ | ⟨u, _ | ⟨w, more⟩⟩⟩
  · cases opcode <;> exact h
  -- an integer, a string or a label
  · cases opcode with
    | push | arithmetic | store | retrieve => exact withInteger_resolved known h
    | copy | slide =>
        have other : t.kind ≠ .character := by
          rintro kind
          cases t <;> cases kind
          cases h
        rw [fitArguments_index (by simp) other] at h
        exact (fitArguments_index (by simp) (kind_resolved other)).trans (withInteger_resolved known h)
    | storeString => exact withString_resolved known h
    | label | call | jump | defineInteger | defineString | plain => cases t <;> exact h
  -- a variable and its value
  · cases opcode with
    | defineInteger =>
        cases t with
        | «variable» name => exact withInteger_resolved known h
        | _ => cases h
    | defineString =>
        cases t with
        | «variable» name => exact withString_resolved known h
        | _ => cases h
    | _ => cases t <;> cases h
  · cases opcode <;> cases t <;> cases h

/-- A variable that is read by arguments that fit has a value. -/
theorem exists_value_of_fitArguments (h : fitArguments vs opcode tokens = .ok (some s))
    (given : opcode.valueArgument? tokens = some (.variable name)) : ∃ v, vs.value? name = some v := by
  by_contra unknown
  rw [← Option.ne_none_iff_exists', not_not] at unknown
  have integer {make : Int → Statement} : withInteger vs (.variable name) make ≠ .ok (some s) := by
    simp [withInteger, integerOfToken, unknown, Except.map]
  have string {make : String → Statement} : withString vs (.variable name) make ≠ .ok (some s) := by
    simp [withString, stringOfToken, unknown, Except.map]
  rcases tokens with _ | ⟨t, _ | ⟨u, _ | ⟨w, more⟩⟩⟩
  · cases opcode <;> cases given
  · cases opcode with
    | push | arithmetic | store | retrieve | copy | slide =>
        cases given
        exact integer h
    | storeString =>
        cases given
        exact string h
    | _ => cases given
  · cases opcode with
    | defineInteger =>
        cases given
        cases t with
        | «variable» defined => exact integer h
        | _ => cases h
    | defineString =>
        cases given
        cases t with
        | «variable» defined => exact string h
        | _ => cases h
    | _ => cases given
  · cases opcode <;> cases given

/-- A statement is read if its opcode is known and allowed and its arguments fit. -/
theorem readStatement_eq_ok_iff :
    readStatement options vs name tokens = .ok s ↔ ∃ opcode, Opcode.ofName? name = some opcode ∧
      (opcode.needsExtensions && !options.extensions) = false ∧
      fitArguments vs opcode tokens = .ok (some s) := by
  unfold readStatement
  cases Opcode.ofName? name with
  | none => simp
  | some opcode =>
      simp only [Option.some.injEq, exists_eq_left']
      generalize (opcode.needsExtensions && !options.extensions) = refused,
        fitArguments vs opcode tokens = fits
      cases refused with
      | true => simp
      | false => rcases fits with fault | _ | s' <;> simp

/-- A line that is read with the values of variables makes the same statement with the literals for
    them, whatever variables there are, and reads no variable then. -/
theorem Statement.ofLine_resolved (known : ∀ name v, vs.value? name = some v → values name = some v)
    (h : Statement.ofLine options vs l = .ok s?) :
    Statement.ofLine options vs' (l.resolved values) = .ok s? ∧ (l.resolved values).reads? = none := by
  unfold Statement.ofLine at h
  split at h
  · next spelled =>
      cases h
      simp [Line.resolved, Statement.ofLine, Line.reads?, Line.opcode?, spelled]
  · next text tokens spelled =>
      cases h
      simp [Line.resolved, Statement.ofLine, Line.reads?, Line.opcode?, spelled]
  · next word tokens spelled =>
      obtain ⟨s, read, rfl⟩ := map_eq_ok.1 h
      obtain ⟨opcode, named, allowed, fits⟩ := readStatement_eq_ok_iff.1 read
      have line : l.resolved values =
          { l with tokens := .word word :: opcode.changeValue (.resolved values) tokens } := by
        simp only [Line.resolved, spelled, named]
      rw [line]
      constructor
      · simp only [Statement.ofLine]
        rw [readStatement_eq_ok_iff.2 ⟨opcode, named, allowed, fitArguments_resolved known fits⟩]
        rfl
      · simp only [Line.reads?, Line.opcode?, Line.arguments, Option.bind_some, named, List.tail_cons,
          Opcode.valueArgument?_changeValue]
        cases given : opcode.valueArgument? tokens with
        | none => rfl
        | some t =>
            cases t with
            | «variable» name =>
                obtain ⟨v, here⟩ := exists_value_of_fitArguments fits given
                simp only [Option.map_some, Token.resolved, known name v here, Option.getD_some]
                cases v <;> rfl
            | _ => rfl
  · cases h

end

/-! ### All lines -/

section

variable {options : Options} {vs : Variables} {values : String → Option Value} {lines : List Line}

/-- Lines that can be read make the same statements with the literals for their variables. -/
theorem readStatements_resolved (readable : (readStatements options vs lines).error? = none)
    (same : ∀ name, values name =
      (vs.value? name).or (LineProgram.firstValue? (.ofLines options vs lines) name)) :
    readStatements options vs (lines.map (Line.resolved values)) =
        { readStatements options vs lines with
          statements := (readStatements options vs lines).statements.map
            fun (l, s) => (l.resolved values, s) } ∧
      ∀ l ∈ lines, (l.resolved values).reads? = none := by
  induction lines generalizing vs with
  | nil => exact ⟨rfl, List.forall_mem_nil _⟩
  | cons l rest ih =>
      obtain ⟨s?, read, others⟩ := readStatements_cons_error?.1 readable
      have known : ∀ name v, vs.value? name = some v → values name = some v := by
        intro name v here
        rw [same, here]
        rfl
      obtain ⟨resolved, reads⟩ : Statement.ofLine options vs (l.resolved values) = .ok s? ∧
          (l.resolved values).reads? = none := Statement.ofLine_resolved known read
      have later : ∀ name, values name = ((vs.after s?).value? name).or
          (LineProgram.firstValue? (.ofLines options (vs.after s?) rest) name) := by
        intro name
        rw [same, LineProgram.ofLines_cons read, firstValue?_cons, value?_after, Option.or_assoc]
      obtain ⟨statements, unread⟩ := ih others later
      refine ⟨?_, List.forall_mem_cons.2 ⟨reads, unread⟩⟩
      rw [List.map_cons, readStatements, resolved, readStatements, read]
      cases s? with
      | none => exact statements
      | some s =>
          simp only [Variables.after] at statements
          simp only [statements]
          rfl

theorem undefinedUse?_resolved (statements : List (Line × Statement)) :
    undefinedUse? (statements.map fun (l, s) => (l.resolved values, s)) = undefinedUse? statements := by
  unfold undefinedUse?
  rw [List.filterMap_map, List.findSome?_map]
  simp only [Function.comp_def, Line.source_resolved, Line.number_resolved]

/-- Variables are literals with a name. In lines that are accepted every token that stands for a value may
    be replaced by the literal that the earliest definition of the variable gives it, whatever later
    definitions say: the lines are lowered to the same instructions and remarks, with the same label
    numbers and variables, and no line reads a variable any more. -/
theorem lower_resolved {lowered : Lowered} (accepted : (lower { options } lines).1 = .ok lowered) :
    lower { options } (lines.map (Line.resolved
        (LineProgram.firstValue? (.ofLines options [] lines)))) = lower { options } lines ∧
      ∀ l ∈ lines.map (Line.resolved (LineProgram.firstValue? (.ofLines options [] lines))),
        l.reads? = none := by
  obtain ⟨readable, -, -⟩ := lower_eq_ok_iff.1 accepted
  have first : ∀ name, LineProgram.firstValue? (.ofLines options [] lines) name =
      (Variables.value? [] name).or (LineProgram.firstValue? (.ofLines options [] lines) name) :=
    fun _ => rfl
  obtain ⟨statements, reads⟩ := readStatements_resolved readable first
  refine ⟨?_, List.forall_mem_map.2 reads⟩
  have decorations : (lines.map (Line.resolved
      (LineProgram.firstValue? (.ofLines options [] lines)))).filterMap Line.decoration? =
        lines.filterMap Line.decoration? := by
    rw [List.filterMap_map]
    exact List.filterMap_congr fun l _ => Line.decoration?_resolved _ l
  unfold lower
  rw [statements, decorations]
  simp only [undefinedUse?_resolved, List.map_map]
  rfl

end

/-- Lines with a variable that is defined by a character, passed on to another one, defined again to no
    effect, and has the name of a label besides. -/
def chained : List Line :=
  [⟨"main", 1, [.word "valueinteger", .variable "_x", .character 'a']⟩,
    ⟨"main", 2, [.word "valueinteger", .variable "_y", .variable "_x"]⟩,
    ⟨"main", 3, [.word "valueinteger", .variable "_x", .integer 5]⟩,
    ⟨"main", 4, [.word "label", .variable "_x"]⟩,
    ⟨"main", 5, [.word "copy", .variable "_y"]⟩,
    ⟨"main", 6, [.word "add", .variable "_x"]⟩,
    ⟨"main", 7, [.word "jump", .variable "_x"]⟩]

/-- The literal is the code of the character, as an integer, and the label keeps its name. -/
theorem lower_resolved_chained :
    (lower {} chained).1 = .ok ⟨[.flow (.mark ⟨0⟩), .stack (.copy 97), pushOf 97, .arithmetic .add,
        .flow (.jump ⟨0⟩)], []⟩ ∧
      lower {} [⟨"main", 1, [.word "valueinteger", .variable "_x", .character 'a']⟩,
          ⟨"main", 2, [.word "valueinteger", .variable "_y", .integer 97]⟩,
          ⟨"main", 3, [.word "valueinteger", .variable "_x", .integer 5]⟩,
          ⟨"main", 4, [.word "label", .variable "_x"]⟩,
          ⟨"main", 5, [.word "copy", .integer 97]⟩,
          ⟨"main", 6, [.word "add", .integer 97]⟩,
          ⟨"main", 7, [.word "jump", .variable "_x"]⟩] = lower {} chained := by
  have accepted : (lower {} chained).1 = .ok ⟨[.flow (.mark ⟨0⟩), .stack (.copy 97), pushOf 97,
      .arithmetic .add, .flow (.jump ⟨0⟩)], []⟩ := by
    decide +kernel
  have literals : chained.map (Line.resolved (LineProgram.firstValue? (.ofLines {} [] chained))) =
      [⟨"main", 1, [.word "valueinteger", .variable "_x", .character 'a']⟩,
        ⟨"main", 2, [.word "valueinteger", .variable "_y", .integer 97]⟩,
        ⟨"main", 3, [.word "valueinteger", .variable "_x", .integer 5]⟩,
        ⟨"main", 4, [.word "label", .variable "_x"]⟩,
        ⟨"main", 5, [.word "copy", .integer 97]⟩,
        ⟨"main", 6, [.word "add", .integer 97]⟩,
        ⟨"main", 7, [.word "jump", .variable "_x"]⟩] := by
    decide +kernel
  exact ⟨accepted, literals ▸ (lower_resolved accepted).1⟩

end Whitespace.Assembly
