/-
Module: Whitespace.Proofs.AcceptedLines
Purpose: What it means that lines are lowered without a complaint: every line can be read, and every
  label that is used is defined. The statement of a line then says the same about labels and control as
  the spelling of its opcode does, which is all that the search for dead lines looks at.
Main exports: Statement.conduct, LineProgram.Closed, LineProgram.wellFormed_ofLines,
  LineProgram.map_conductOf_ofLines, lower_eq_ok_iff
-/
import Whitespace.Assembly.Reachability
import Whitespace.Proofs.Layout

namespace Whitespace.Assembly

/-! ### One line -/

/-- What a statement has to do with control. -/
def Statement.conduct (s : Statement) : Conduct where
  marksLabel := s.defines?
  refersTo := s.uses?
  continues :=
    match s with
    | .jump .always _ | .plain (.flow .ret) => false
    | _ => true

/-- The conduct that belongs to an opcode whose label argument is given. -/
def Opcode.conduct (name? : Option String) : Opcode → Conduct
  | .label => ⟨name?, none, true⟩
  | .call => ⟨none, name?, true⟩
  | .jump .always => ⟨none, name?, false⟩
  | .jump _ => ⟨none, name?, true⟩
  | .plain (.flow .ret) => ⟨none, none, false⟩
  | _ => ⟨none, none, true⟩

/-- The name of an opcode tells its conduct. -/
theorem Opcode.conduct_of_ofName? {text : String} {opcode : Opcode} (h : ofName? text = some opcode)
    (name? : Option String) :
    (⟨if text = "label" then name? else none,
      if "jump".toList.isPrefixOf text.toList || text = "call" then name? else none,
      !(text = "jump" || text = "ret")⟩ : Conduct) = opcode.conduct name? := by
  unfold ofName? at h
  split at h <;> cases h <;> rfl

theorem Opcode.label?_of_ofName? {text : String} {i : Instruction}
    (h : ofName? text = some (.plain i)) : i.label? = none := by
  unfold ofName? at h
  split at h <;> cases h <;> rfl

/-- A line that is made into something was read first. -/
theorem exists_of_map_eq_ok {ε α β : Type} {r : Except ε (Option α)} {make : α → β} {b : β}
    (h : r.map (Option.map make) = .ok (some b)) : ∃ a, r = .ok (some a) ∧ b = make a := by
  cases r with
  | error e => cases h
  | ok a? =>
      cases a? with
      | none => cases h
      | some a =>
          refine ⟨a, rfl, ?_⟩
          cases h
          rfl

/-- The label that an opcode with such arguments marks or refers to. -/
def labelArgument? : List Token → Option String
  | .word name :: _ | .variable name :: _ => some name
  | _ => none

/-- The opcode that makes a statement. -/
def Statement.opcode : Statement → Opcode
  | .push _ => .push
  | .copy _ => .copy
  | .slide _ => .slide
  | .arithmetic command _ => .arithmetic command
  | .store _ => .store
  | .retrieve _ => .retrieve
  | .storeString _ => .storeString
  | .label _ => .label
  | .call _ => .call
  | .jump condition _ => .jump condition
  | .define _ (.integer _) => .defineInteger
  | .define _ (.string _) => .defineString
  | .plain i => .plain i

/-- What an opcode and arguments that fit it have to do with the statement that they make. -/
structure Fit (opcode : Opcode) (tokens : List Token) (s : Statement) : Prop where
  opcode_eq : s.opcode = opcode
  conduct_eq : opcode.conduct (labelArgument? tokens) = s.conduct
  /-- No remark is among the arguments. -/
  plain : ∀ t ∈ tokens, t.kind ≠ .decoration

section

variable {vs : Variables} {t : Token} {s : Statement}

/-- A statement that is made of an integer argument was made of one, and not of a decoration. -/
theorem exists_of_withInteger {make : Int → Statement} (h : withInteger vs t make = .ok (some s)) :
    t.kind ≠ .decoration ∧ ∃ n, s = make n := by
  obtain ⟨n, read, same⟩ := exists_of_map_eq_ok h
  refine ⟨?_, n, same⟩
  cases t with
  | decoration text => cases read
  | _ => nofun

/-- The same for a statement that is made of a string argument. -/
theorem exists_of_withString {make : String → Statement} (h : withString vs t make = .ok (some s)) :
    t.kind ≠ .decoration ∧ ∃ text, s = make text := by
  obtain ⟨text, read, same⟩ := exists_of_map_eq_ok h
  refine ⟨?_, text, same⟩
  cases t with
  | decoration text => cases read
  | _ => nofun

/-- Tokens that an opcode accepts as its arguments fit it: the statement that they make has the shape that
    the opcode asks for, with the values of the variables put in. -/
theorem fit_of_fitArguments {opcode : Opcode} {tokens : List Token}
    (h : fitArguments vs opcode tokens = .ok (some s)) : Fit opcode tokens s := by
  rcases tokens with _ | ⟨t, _ | ⟨u, _ | ⟨w, more⟩⟩⟩
  -- no argument
  · cases opcode with
    | arithmetic command | store | retrieve =>
        cases h
        exact ⟨rfl, rfl, List.forall_mem_nil _⟩
    | plain i =>
        cases h
        refine ⟨rfl, ?_, List.forall_mem_nil _⟩
        rcases i with c | c | c | c | c <;> cases c <;> rfl
    | _ => cases h
  -- an integer, a string or a label
  · cases opcode with
    | push | arithmetic command | store | retrieve =>
        obtain ⟨plain, n, rfl⟩ := exists_of_withInteger h
        exact ⟨rfl, rfl, List.forall_mem_singleton.2 plain⟩
    | copy | slide =>
        cases t with
        | character c => cases h
        | _ =>
            obtain ⟨plain, n, rfl⟩ := exists_of_withInteger h
            exact ⟨rfl, rfl, List.forall_mem_singleton.2 plain⟩
    | storeString =>
        obtain ⟨plain, text, rfl⟩ := exists_of_withString h
        exact ⟨rfl, rfl, List.forall_mem_singleton.2 plain⟩
    | label | call =>
        cases t with
        | word name | «variable» name =>
            cases h
            exact ⟨rfl, rfl, List.forall_mem_singleton.2 nofun⟩
        | _ => cases h
    | jump condition =>
        cases t with
        | word name | «variable» name =>
            cases h
            refine ⟨rfl, ?_, List.forall_mem_singleton.2 nofun⟩
            cases condition <;> rfl
        | _ => cases h
    | _ => cases t <;> cases h
  -- a variable and its value
  · cases opcode with
    | defineInteger =>
        cases t with
        | «variable» name =>
            obtain ⟨plain, n, rfl⟩ := exists_of_withInteger h
            exact ⟨rfl, rfl, List.forall_mem_cons.2 ⟨nofun, List.forall_mem_singleton.2 plain⟩⟩
        | _ => cases h
    | defineString =>
        cases t with
        | «variable» name =>
            obtain ⟨plain, text, rfl⟩ := exists_of_withString h
            exact ⟨rfl, rfl, List.forall_mem_cons.2 ⟨nofun, List.forall_mem_singleton.2 plain⟩⟩
        | _ => cases h
    | _ => cases t <;> cases h
  · cases opcode <;> cases t <;> cases h

end

/-- A line with a statement starts with a word that is the name of an opcode, and its arguments fit. -/
theorem Statement.exists_opcode_of_ofLine {options : Options} {vs : Variables} {l : Line}
    {s : Statement} (h : Statement.ofLine options vs l = .ok (some s)) :
    ∃ name tokens opcode, l.tokens = .word name :: tokens ∧
      Opcode.ofName? (Text.lowerText name) = some opcode ∧ Fit opcode tokens s := by
  unfold ofLine at h
  split at h
  · cases h
  · cases h
  · next name tokens htokens =>
      unfold readStatement at h
      cases hopcode : Opcode.ofName? (Text.lowerText name) with
      | none => simp [hopcode, Except.map] at h
      | some opcode =>
          simp only [hopcode] at h
          split at h
          · simp [Except.map] at h
          · cases hfit : fitArguments vs opcode tokens with
            | error e => simp [hfit, Except.map] at h
            | ok s? =>
                cases s? with
                | none => simp [hfit, Except.map] at h
                | some s' =>
                    obtain rfl : s' = s := by simpa [hfit, Except.map] using h
                    exact ⟨name, tokens, opcode, htokens, hopcode, fit_of_fitArguments hfit⟩
  · cases h

/-- A statement that was read from a line is well formed. -/
theorem Statement.wellFormed_of_ofLine {options : Options} {vs : Variables} {l : Line} {s : Statement}
    (h : Statement.ofLine options vs l = .ok (some s)) : s.WellFormed := by
  obtain ⟨name, tokens, opcode, -, hopcode, fit⟩ := exists_opcode_of_ofLine h
  have same := fit.opcode_eq
  cases s with
  | plain i =>
      subst same
      exact Opcode.label?_of_ofName? hopcode
  | _ => trivial

def Line.isDefinition (l : Line) : Bool :=
  l.opcode? = some "valueinteger" || l.opcode? = some "valuestring"

/-- Only definition lines make statements that define variables. -/
theorem Line.isDefinition_of_ofLine {options : Options} {vs : Variables} {l : Line} {name : String}
    {value : Value} (h : Statement.ofLine options vs l = .ok (some (.define name value))) :
    l.isDefinition = true := by
  obtain ⟨word, tokens, opcode, htokens, hopcode, fit⟩ := Statement.exists_opcode_of_ofLine h
  have same := fit.opcode_eq
  have text : l.opcode? = some (Text.lowerText word) := by simp [Line.opcode?, htokens]
  have named : Text.lowerText word = "valueinteger" ∨ Text.lowerText word = "valuestring" := by
    generalize Text.lowerText word = spelling at hopcode
    unfold Opcode.ofName? at hopcode
    cases value <;> subst same <;> split at hopcode <;> cases hopcode
    · exact .inl rfl
    · exact .inr rfl
  rcases named with integer | string
  · simp [isDefinition, text, integer]
  · simp [isDefinition, text, string]

/-- The spelling of a line tells the conduct of its statement. -/
theorem Statement.conduct_of_ofLine {options : Options} {vs : Variables} {l : Line} {s : Statement}
    (h : Statement.ofLine options vs l = .ok (some s)) : l.conduct = s.conduct := by
  obtain ⟨name, tokens, opcode, htokens, hopcode, fit⟩ := exists_opcode_of_ofLine h
  have text : l.opcodeText = Text.lowerText name := by
    simp [Line.opcodeText, Line.opcode?, htokens]
  have label : l.labelName? = labelArgument? tokens := by
    unfold Line.labelName? Line.arguments labelArgument?
    rw [htokens]
    rfl
  rw [← fit.conduct_eq, ← Opcode.conduct_of_ofName? hopcode (labelArgument? tokens)]
  simp only [Line.conduct, Line.marksLabel, Line.refersTo, Line.continues, text, label]

/-- A line that makes no statement does not start with a word. -/
theorem Line.opcodeText_of_ofLine_none {options : Options} {vs : Variables} {l : Line}
    (h : Statement.ofLine options vs l = .ok none) : l.opcodeText = "" := by
  have wordless : ∀ name tokens, l.tokens ≠ .word name :: tokens := by
    intro name tokens htokens
    simp only [Statement.ofLine, htokens] at h
    cases hread : readStatement options vs (Text.lowerText name) tokens <;> simp [hread, Except.map] at h
  unfold Line.opcodeText Line.opcode?
  split
  · next name tokens htokens => exact absurd htokens (wordless name tokens)
  · rfl

/-- A line that makes no statement has nothing to do with control. -/
theorem Line.conduct_of_ofLine_none {options : Options} {vs : Variables} {l : Line}
    (h : Statement.ofLine options vs l = .ok none) : l.conduct = ⟨none, none, true⟩ := by
  simp [Line.conduct, Line.marksLabel, Line.refersTo, Line.continues, opcodeText_of_ofLine_none h]

/-- A line that cannot be read is at fault for something else than a label. -/
theorem ofLine_ne_undefinedLabel {options : Options} {vs : Variables} {l : Line} {name : String} :
    Statement.ofLine options vs l ≠ .error (.undefinedLabel name) := by
  unfold Statement.ofLine
  split
  · nofun
  · nofun
  · next word tokens _ =>
      unfold readStatement
      split
      · nofun
      · split
        · nofun
        · split <;> nofun
  · nofun

/-! ### All lines -/

/-- The variables after a line whose statement, if it makes one, is given. -/
def Variables.after (vs : Variables) : Option Statement → Variables
  | some s => s.applyTo vs
  | none => vs

/-- The conduct of a line that makes a statement or none. -/
def conductOf : Option Statement → Conduct
  | some s => s.conduct
  | none => ⟨none, none, true⟩

theorem Line.conduct_of_ofLine {options : Options} {vs : Variables} {l : Line} {s? : Option Statement}
    (h : Statement.ofLine options vs l = .ok s?) : l.conduct = conductOf s? := by
  cases s? with
  | none => exact conduct_of_ofLine_none h
  | some s => exact Statement.conduct_of_ofLine h

section

variable {options : Options} {vs : Variables} {l : Line} {rest : List Line}

/-- Lines can be read when the first can and the others can be with the variables after it. -/
theorem readStatements_cons_error? :
    (readStatements options vs (l :: rest)).error? = none ↔
      ∃ s?, Statement.ofLine options vs l = .ok s? ∧
        (readStatements options (vs.after s?) rest).error? = none := by
  rw [readStatements]
  cases Statement.ofLine options vs l with
  | error cause => simp
  | ok s? => cases s? <;> simp [Variables.after]

theorem readStatements_cons {s? : Option Statement} (h : Statement.ofLine options vs l = .ok s?) :
    (readStatements options vs (l :: rest)).statements.map Prod.snd =
      s?.toList ++ (readStatements options (vs.after s?) rest).statements.map Prod.snd := by
  rw [readStatements, h]
  cases s? <;> rfl

/-- When lines cannot be read, the failure is at a line that makes no sense. -/
theorem exists_of_readStatements_error? {lines : List Line} {e : CompileError}
    (h : (readStatements options vs lines).error? = some e) :
    ∃ l ∈ lines, ∃ vs' cause, Statement.ofLine options vs' l = .error cause ∧
      e = ⟨l.source, l.number, cause⟩ := by
  induction lines generalizing vs with
  | nil => cases h
  | cons l rest ih =>
      rw [readStatements] at h
      cases read : Statement.ofLine options vs l with
      | error cause =>
          rw [read] at h
          cases h
          exact ⟨l, List.mem_cons_self, vs, cause, read, rfl⟩
      | ok s? =>
          rw [read] at h
          cases s? with
          | none =>
              obtain ⟨l', member, found⟩ := ih h
              exact ⟨l', List.mem_cons_of_mem l member, found⟩
          | some s =>
              obtain ⟨l', member, found⟩ := ih h
              exact ⟨l', List.mem_cons_of_mem l member, found⟩

namespace LineProgram

theorem ofLines_cons {s? : Option Statement} (h : Statement.ofLine options vs l = .ok s?) :
    ofLines options vs (l :: rest) = s? :: ofLines options (vs.after s?) rest := by
  rw [ofLines, h]
  cases s? <;> rfl

end LineProgram

end

section

variable {options : Options} {vs : Variables} {lines : List Line}

namespace LineProgram

/-- Every label that is used is defined. -/
def Closed (p : LineProgram) : Prop :=
  ∀ s name, some s ∈ p → s.uses? = some name → some (.label name) ∈ p

/-- The statements of any lines, read one after another, form a well-formed program. -/
theorem wellFormed_ofLines (options : Options) (vs : Variables) (lines : List Line) :
    WellFormed (ofLines options vs lines) := by
  induction lines generalizing vs with
  | nil =>
      intro k s h
      simp [ofLines] at h
  | cons l rest ih =>
      intro k s h
      unfold ofLines at h
      cases k with
      | zero =>
          split at h
          · next s' hl =>
              cases h
              exact Statement.wellFormed_of_ofLine hl
          · cases h
          · cases h
      | succ k => split at h <;> exact ih _ k s h

/-- The statements have the conducts of their lines. -/
theorem map_conductOf_ofLines (h : (readStatements options vs lines).error? = none) :
    (ofLines options vs lines).map conductOf = lines.map Line.conduct := by
  induction lines generalizing vs with
  | nil => rfl
  | cons l rest ih =>
      obtain ⟨s?, hl, others⟩ := readStatements_cons_error?.1 h
      rw [ofLines_cons hl, List.map_cons, List.map_cons, ih others, Line.conduct_of_ofLine hl]

/-- Every statement of a program of lines is made by one of the lines. -/
theorem exists_of_mem_ofLines {s : Statement} (h : some s ∈ ofLines options vs lines) :
    ∃ vs' l, l ∈ lines ∧ Statement.ofLine options vs' l = .ok (some s) := by
  induction lines generalizing vs with
  | nil => cases h
  | cons l rest ih =>
      have later {vs' : Variables} (h : some s ∈ ofLines options vs' rest) :
          ∃ vs' l', l' ∈ l :: rest ∧ Statement.ofLine options vs' l' = .ok (some s) := by
        obtain ⟨vs'', l', member, read⟩ := ih h
        exact ⟨vs'', l', List.mem_cons_of_mem l member, read⟩
      unfold ofLines at h
      split at h
      · next s' read =>
          rcases List.mem_cons.1 h with same | member
          · cases same
            exact ⟨vs, l, List.mem_cons_self, read⟩
          · exact later member
      · exact later ((List.mem_cons.1 h).resolve_left nofun)
      · exact later ((List.mem_cons.1 h).resolve_left nofun)

end LineProgram

/-- When every line can be read, the statements are those of the program of lines. -/
theorem readStatements_map_snd (h : (readStatements options vs lines).error? = none) :
    (readStatements options vs lines).statements.map Prod.snd =
      (LineProgram.ofLines options vs lines).reduceOption := by
  induction lines generalizing vs with
  | nil => rfl
  | cons l rest ih =>
      obtain ⟨s?, hl, others⟩ := readStatements_cons_error?.1 h
      rw [readStatements_cons hl, ih others, LineProgram.ofLines_cons hl]
      cases s? with
      | none => exact (List.reduceOption_cons_of_none _).symm
      | some s => exact (List.reduceOption_cons_of_some _ _).symm

end

/-- No use of a label is undefined when every label in use is defined. -/
theorem undefinedUse?_eq_none_iff {statements : List (Line × Statement)} {p : LineProgram}
    (h : statements.map Prod.snd = p.reduceOption) :
    undefinedUse? statements = none ↔ p.Closed := by
  have member : ∀ s, some s ∈ p ↔ ∃ l, (l, s) ∈ statements := by
    intro s
    rw [← List.reduceOption_mem_iff, ← h]
    simp
  have defined : ∀ name, name ∈ statements.filterMap (fun x => x.2.defines?) ↔
      some (.label name) ∈ p := by
    intro name
    rw [member, List.mem_filterMap]
    constructor
    · rintro ⟨⟨l, s⟩, mem, hs⟩
      refine ⟨l, ?_⟩
      cases s <;> simp [Statement.defines?] at hs
      rwa [← hs]
    · rintro ⟨l, mem⟩
      exact ⟨_, mem, rfl⟩
  unfold undefinedUse? LineProgram.Closed
  rw [List.findSome?_eq_none_iff]
  constructor
  · intro none s name hs uses
    obtain ⟨l, mem⟩ := (member s).1 hs
    have known := none (l, s) mem
    simp only [uses, ite_eq_left_iff, reduceCtorEq, imp_false, not_not, List.contains_iff_mem] at known
    exact (defined name).1 known
  · rintro closed ⟨l, s⟩ mem
    cases uses : s.uses? with
    | none => simp [uses]
    | some name =>
        have known := (defined name).2 (closed s name ((member s).2 ⟨l, mem⟩) uses)
        simp only [uses]
        exact if_pos (List.contains_iff_mem.2 known)

/-- Lines are lowered when each of them can be read and every label in use is defined. -/
theorem lower_eq_ok_iff {options : Options} {lines : List Line} {lowered : Lowered} :
    (lower { options } lines).1 = .ok lowered ↔
      (readStatements options [] lines).error? = none ∧
        LineProgram.Closed (.ofLines options [] lines) ∧
        lowered =
          ⟨LineProgram.code (.ofLines options [] lines), lines.filterMap Line.decoration?⟩ := by
  unfold lower
  cases readable : (readStatements options [] lines).error? with
  | some e => simp [readable]
  | none =>
      have statements := readStatements_map_snd readable
      have closed := undefinedUse?_eq_none_iff statements
      simp only [readable, true_and]
      cases undefined : undefinedUse? (readStatements options [] lines).statements with
      | some e =>
          have open' : ¬ LineProgram.Closed (.ofLines options [] lines) := by
            rw [← closed, undefined]
            nofun
          simp [open']
      | none =>
          simp only [closed.1 undefined, true_and, Except.ok.injEq]
          rw [statements]
          exact eq_comm

end Whitespace.Assembly
