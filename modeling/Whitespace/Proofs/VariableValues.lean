/-
Module: Whitespace.Proofs.VariableValues
Purpose: What dropping dead lines does to variables. The first definition of a variable counts, whether or
  not control can reach its line, so a line that is kept may lose the definition of a variable that it
  reads, or see a later one instead. The kept lines are accepted and read the values that they read among
  all lines exactly if the first kept definition of every variable that they read gives it the value that
  the first definition gives it.
Main exports: Line.reads?, ofLine_congr, valueAt, LineProgram.firstValue?, readable_pick_of_reads,
  SameValues, SameDefinitions, sameValues_iff, sameValues_of_first_kept
-/
import Whitespace.Proofs.ShakenLines

namespace Whitespace.Assembly

/-! ### The variable that a line reads -/

/-- The argument that an opcode takes for a value. The name of a label is none, and neither is the variable
    that a definition defines. -/
def Opcode.valueArgument? : Opcode → List Token → Option Token
  | .push, [t] | .copy, [t] | .slide, [t] | .arithmetic _, [t] => some t
  | .store, [t] | .retrieve, [t] | .storeString, [t] => some t
  | .defineInteger, [_, t] | .defineString, [_, t] => some t
  | _, _ => none

/-- The variable whose value the line reads. -/
def Line.reads? (l : Line) : Option String :=
  match l.opcode?.bind Opcode.ofName? with
  | none => none
  | some opcode =>
    match opcode.valueArgument? l.arguments with
    | some (.variable name) => some name
    | _ => none

section

variable {options : Options} {vs vs' : Variables} {t : Token} {opcode : Opcode} {tokens : List Token}
  {l : Line} {name : String}

theorem integerOfToken_congr (same : ∀ name, t = .variable name → vs.value? name = vs'.value? name) :
    integerOfToken vs t = integerOfToken vs' t := by
  cases t with
  | «variable» name => simp only [integerOfToken, same name rfl]
  | _ => rfl

theorem stringOfToken_congr (same : ∀ name, t = .variable name → vs.value? name = vs'.value? name) :
    stringOfToken vs t = stringOfToken vs' t := by
  cases t with
  | «variable» name => simp only [stringOfToken, same name rfl]
  | _ => rfl

theorem withInteger_congr {make : Int → Statement} (same : integerOfToken vs t = integerOfToken vs' t) :
    withInteger vs t make = withInteger vs' t make := by
  unfold withInteger
  rw [same]

theorem withString_congr {make : String → Statement} (same : stringOfToken vs t = stringOfToken vs' t) :
    withString vs t make = withString vs' t make := by
  unfold withString
  rw [same]

/-- Arguments are understood in the same way where the value argument has the same value. -/
theorem fitArguments_congr (same : ∀ name, opcode.valueArgument? tokens = some (.variable name) →
    vs.value? name = vs'.value? name) : fitArguments vs opcode tokens = fitArguments vs' opcode tokens := by
  have integer {t : Token} (given : opcode.valueArgument? tokens = some t) :
      integerOfToken vs t = integerOfToken vs' t :=
    integerOfToken_congr fun name here => same name (given.trans (congrArg some here))
  have string {t : Token} (given : opcode.valueArgument? tokens = some t) :
      stringOfToken vs t = stringOfToken vs' t :=
    stringOfToken_congr fun name here => same name (given.trans (congrArg some here))
  rcases tokens with _ | ⟨t, _ | ⟨u, _ | ⟨w, more⟩⟩⟩
  · cases opcode <;> rfl
  · cases opcode with
    | push | arithmetic | store | retrieve => exact withInteger_congr (integer rfl)
    | copy | slide =>
        cases t with
        | character c => rfl
        | _ => exact withInteger_congr (integer rfl)
    | storeString => exact withString_congr (string rfl)
    | label | call | jump | defineInteger | defineString | plain => cases t <;> rfl
  · cases opcode with
    | defineInteger =>
        cases t with
        | «variable» name => exact withInteger_congr (integer rfl)
        | _ => rfl
    | defineString =>
        cases t with
        | «variable» name => exact withString_congr (string rfl)
        | _ => rfl
    | _ => cases t <;> rfl
  · cases opcode <;> cases t <;> rfl

/-- A line reads the variable that stands for the value of its statement. -/
theorem reads?_of_word {word : String} (spelled : l.tokens = .word word :: tokens)
    (known : Opcode.ofName? (Text.lowerText word) = some opcode)
    (given : opcode.valueArgument? tokens = some (.variable name)) : l.reads? = some name := by
  have text : l.opcode? = some (Text.lowerText word) := by
    unfold Line.opcode?
    rw [spelled]
  have arguments : l.arguments = tokens := by
    unfold Line.arguments
    rw [spelled]
    rfl
  unfold Line.reads?
  rw [text, arguments, Option.bind_some, known]
  simp only [given]

/-- A line is understood in the same way where the variable that it reads has the same value. -/
theorem ofLine_congr (same : ∀ name, l.reads? = some name → vs.value? name = vs'.value? name) :
    Statement.ofLine options vs l = Statement.ofLine options vs' l := by
  unfold Statement.ofLine
  split
  · rfl
  · rfl
  · next word tokens spelled =>
      unfold readStatement
      cases known : Opcode.ofName? (Text.lowerText word) with
      | none => rfl
      | some opcode =>
          have fits : fitArguments vs opcode tokens = fitArguments vs' opcode tokens :=
            fitArguments_congr fun name given => same name (reads?_of_word spelled known given)
          simp only [fits]
  · rfl

end

/-! ### The variables before a line -/

/-- The value of a variable before the line at a place. -/
def valueAt (options : Options) (lines : List Line) (k : Nat) (name : String) : Option Value :=
  (readStatements options [] (lines.take k)).bindings.value? name

def givenValue? (name : String) : Option Statement → Option Value
  | some (.define defined value) => if defined = name then some value else none
  | _ => none

namespace LineProgram

/-- The value that the first definition of a variable gives to it. -/
def firstValue? (p : LineProgram) (name : String) : Option Value := p.findSome? (givenValue? name)

def variablesAfter (vs : Variables) (p : LineProgram) : Variables := p.foldl Variables.after vs

end LineProgram

section

variable {options : Options} {vs vs' : Variables} {l : Line} {rest lines : List Line} {p : LineProgram}
  {s? : Option Statement} {name : String} {k : Nat}

/-- A statement gives a variable its value unless the variable has one. -/
theorem value?_after (vs : Variables) (s? : Option Statement) (name : String) :
    (vs.after s?).value? name = (vs.value? name).or (givenValue? name s?) := by
  rcases s? with _ | s
  · simp [Variables.after, givenValue?]
  · cases s with
    | define defined value =>
        simp only [Variables.after, Statement.applyTo, Variables.define, givenValue?]
        by_cases same : defined = name
        · subst same
          cases known : vs.value? defined with
          | none => simp [Variables.value?]
          | some old => simp [known]
        · have other : (name == defined) = false := by simp [Ne.symm same]
          cases known : vs.value? defined with
          | none => simp [same, Variables.value?, List.lookup_cons, other]
          | some old => simp [same]
    | _ => simp [Variables.after, Statement.applyTo, givenValue?]

theorem firstValue?_cons (s? : Option Statement) (p : LineProgram) (name : String) :
    LineProgram.firstValue? (s? :: p) name = (givenValue? name s?).or (p.firstValue? name) := by
  unfold LineProgram.firstValue?
  rw [List.findSome?_cons]
  cases givenValue? name s? <;> rfl

/-- The first definition of a variable counts, unless the variable has a value before. -/
theorem value?_variablesAfter (vs : Variables) (p : LineProgram) (name : String) :
    (p.variablesAfter vs).value? name = (vs.value? name).or (p.firstValue? name) := by
  induction p generalizing vs with
  | nil => simp [LineProgram.variablesAfter, LineProgram.firstValue?]
  | cons s? rest ih =>
      have step : LineProgram.variablesAfter vs (s? :: rest) =
          LineProgram.variablesAfter (vs.after s?) rest := rfl
      rw [step, ih, value?_after, Option.or_assoc, firstValue?_cons]

theorem bindings_cons (read : Statement.ofLine options vs l = .ok s?) :
    (readStatements options vs (l :: rest)).bindings =
      (readStatements options (vs.after s?) rest).bindings := by
  rw [readStatements, read]
  cases s? <;> rfl

/-- The bindings after the first lines are those that their statements make. -/
theorem bindings_take (readable : (readStatements options vs lines).error? = none) (k : Nat) :
    (readStatements options vs (lines.take k)).bindings =
      LineProgram.variablesAfter vs ((LineProgram.ofLines options vs lines).take k) := by
  induction lines generalizing vs k with
  | nil =>
      rw [LineProgram.ofLines, List.take_nil, List.take_nil]
      rfl
  | cons l rest ih =>
      obtain ⟨s?, read, others⟩ := readStatements_cons_error?.1 readable
      cases k with
      | zero => rfl
      | succ k =>
          rw [LineProgram.ofLines_cons read, List.take_succ_cons, List.take_succ_cons, bindings_cons read,
            ih others]
          rfl

/-- The statement of a line is made with the variables after those before it. -/
theorem ofLine_at (readable : (readStatements options vs lines).error? = none) (line : lines[k]? = some l) :
    ∃ s?, Statement.ofLine options
        (LineProgram.variablesAfter vs ((LineProgram.ofLines options vs lines).take k)) l = .ok s? ∧
      (LineProgram.ofLines options vs lines)[k]? = some s? := by
  induction lines generalizing vs k with
  | nil => cases line
  | cons head rest ih =>
      obtain ⟨s?, read, others⟩ := readStatements_cons_error?.1 readable
      rw [LineProgram.ofLines_cons read]
      cases k with
      | zero =>
          cases line
          exact ⟨s?, read, rfl⟩
      | succ k => exact ih others line

theorem length_ofLines : (LineProgram.ofLines options vs lines).length = lines.length := by
  induction lines generalizing vs with
  | nil => rfl
  | cons l rest ih =>
      unfold LineProgram.ofLines
      split <;> exact congrArg (· + 1) ih

theorem valueAt_eq (readable : (readStatements options [] lines).error? = none) (k : Nat) (name : String) :
    valueAt options lines k name =
      LineProgram.firstValue? ((LineProgram.ofLines options [] lines).take k) name := by
  unfold valueAt
  rw [bindings_take readable, value?_variablesAfter]
  rfl

end

/-! ### Kept lines -/

section

variable {options : Options} {vs vs' : Variables} {keep : Nat → Bool} {start : Nat} {lines : List Line}
  {lowered : Lowered}

/-- The first picked items are those picked from the first items. -/
theorem take_pick_from {α : Type} {items : List α} {k d : Nat}
    (h : d + rank keep start = rank keep (start + k)) :
    (pick keep start items).take d = pick keep start (items.take k) := by
  induction items generalizing start k d with
  | nil => simp [pick]
  | cons a rest ih =>
      cases k with
      | zero =>
          obtain rfl : d = 0 := by
            rw [Nat.add_zero] at h
            omega
          rfl
      | succ k =>
          rw [← succ_add_place] at h
          rw [List.take_succ_cons, pick, pick]
          cases here : keep start with
          | true =>
              have passed := rank_lt_rank here (show start < start + 1 + k by omega)
              obtain ⟨d, rfl⟩ : ∃ e, d = e + 1 := ⟨d - 1, by omega⟩
              rw [if_pos rfl, if_pos rfl, List.take_succ_cons, ih]
              rw [rank_succ_of_keep here]
              omega
          | false =>
              rw [if_neg Bool.false_ne_true, if_neg Bool.false_ne_true, ih]
              rw [rank_succ_of_drop here]
              exact h

/-- The items before the rank of a place are those that were picked before the place. -/
theorem take_pick {α : Type} (keep : Nat → Bool) (items : List α) (k : Nat) :
    (pick keep 0 items).take (rank keep k) = pick keep 0 (items.take k) := by
  apply take_pick_from
  rw [Nat.zero_add, rank_zero, Nat.add_zero]

/-- The first statement counts among those that are picked if it is kept. -/
theorem variablesAfter_pick_cons {s? : Option Statement} {p : LineProgram} :
    LineProgram.variablesAfter vs (pick keep start (s? :: p)) =
      LineProgram.variablesAfter (if keep start = true then vs.after s? else vs)
        (pick keep (start + 1) p) := by
  rw [pick]
  split <;> rfl

/-- Lines stay readable without others, and keep their statements, if the kept definitions give the variable
    that a kept line reads the value that it has before the line. -/
theorem readable_pick_of_reads (readable : (readStatements options vs lines).error? = none)
    (same : ∀ i l name, lines[i]? = some l → keep (start + i) = true → l.reads? = some name →
      (LineProgram.variablesAfter vs'
          (pick keep start ((LineProgram.ofLines options vs lines).take i))).value? name =
        (LineProgram.variablesAfter vs ((LineProgram.ofLines options vs lines).take i)).value? name) :
    (readStatements options vs' (pick keep start lines)).error? = none ∧
      LineProgram.ofLines options vs' (pick keep start lines) =
        pick keep start (LineProgram.ofLines options vs lines) := by
  induction lines generalizing vs vs' start with
  | nil => exact ⟨rfl, rfl⟩
  | cons l rest ih =>
      obtain ⟨s?, read, others⟩ := readStatements_cons_error?.1 readable
      rw [LineProgram.ofLines_cons read] at same ⊢
      have later : ∀ i l' name, rest[i]? = some l' → keep (start + 1 + i) = true →
          l'.reads? = some name →
          (LineProgram.variablesAfter (if keep start = true then vs'.after s? else vs')
              (pick keep (start + 1) ((LineProgram.ofLines options (vs.after s?) rest).take i))).value?
                name =
            (LineProgram.variablesAfter (vs.after s?)
              ((LineProgram.ofLines options (vs.after s?) rest).take i)).value? name := by
        intro i l' name line kept reads
        rw [succ_add_place] at kept
        have values := same (i + 1) l' name line kept reads
        rw [List.take_succ_cons, variablesAfter_pick_cons] at values
        exact values
      obtain ⟨error, statements⟩ := ih others later
      rw [pick, pick]
      cases here : keep start with
      | true =>
          have read' : Statement.ofLine options vs' l = .ok s? := by
            rw [← read]
            apply ofLine_congr
            intro name reads
            exact same 0 l name rfl here reads
          rw [if_pos here] at error statements
          rw [if_pos rfl, if_pos rfl, LineProgram.ofLines_cons read', statements]
          exact ⟨readStatements_cons_error?.2 ⟨s?, read', error⟩, rfl⟩
      | false =>
          rw [here, if_neg Bool.false_ne_true] at error statements
          rw [if_neg Bool.false_ne_true, if_neg Bool.false_ne_true]
          exact ⟨error, statements⟩

/-- Kept lines that read the values that they read among all lines keep their statements. -/
theorem ofLines_pick_of_values (readable : (readStatements options [] lines).error? = none)
    (readable' : (readStatements options [] (pick keep 0 lines)).error? = none)
    (same : ∀ k l name, keep k = true → lines[k]? = some l → l.reads? = some name →
      valueAt options (pick keep 0 lines) (rank keep k) name = valueAt options lines k name) :
    LineProgram.ofLines options [] (pick keep 0 lines) =
      pick keep 0 (LineProgram.ofLines options [] lines) := by
  apply List.ext_getElem?
  intro d
  cases line : (pick keep 0 lines)[d]? with
  | none =>
      have lengths := length_pick_add_rank keep 0 lines
      have lengths' := length_pick_add_rank keep 0 (LineProgram.ofLines options [] lines)
      rw [length_ofLines] at lengths'
      rw [List.getElem?_eq_none_iff] at line
      rw [List.getElem?_eq_none, List.getElem?_eq_none]
      · omega
      · rw [length_ofLines]
        exact line
  | some l =>
      obtain ⟨k, kept, line', rfl⟩ := exists_of_pick_getElem? line
      obtain ⟨s?, read, statement⟩ := ofLine_at readable line'
      obtain ⟨s?', read', statement'⟩ := ofLine_at readable' line
      rw [pick_getElem? kept, statement, statement']
      have agree : Statement.ofLine options (LineProgram.variablesAfter []
            ((LineProgram.ofLines options [] (pick keep 0 lines)).take (rank keep k))) l =
          Statement.ofLine options (LineProgram.variablesAfter []
            ((LineProgram.ofLines options [] lines).take k)) l := by
        apply ofLine_congr
        intro name reads
        rw [← bindings_take readable', ← bindings_take readable]
        exact same k l name kept line' reads
      rw [read, read'] at agree
      exact congrArg some (Except.ok.inj agree)

/-- Where the kept lines have the statements that they have among all lines, a variable has the value that
    the first definition in a kept line gives it. -/
theorem valueAt_pick (readable' : (readStatements options [] (pick keep 0 lines)).error? = none)
    (statements : LineProgram.ofLines options [] (pick keep 0 lines) =
      pick keep 0 (LineProgram.ofLines options [] lines)) (k : Nat) (name : String) :
    valueAt options (pick keep 0 lines) (rank keep k) name =
      LineProgram.firstValue? (pick keep 0 ((LineProgram.ofLines options [] lines).take k)) name := by
  rw [valueAt_eq readable', statements, take_pick]

/-- Every label that a kept line uses is defined by a kept line. -/
theorem closed_pick_keptPlaces (readable : (readStatements options [] lines).error? = none)
    (closed : LineProgram.Closed (.ofLines options [] lines)) :
    LineProgram.Closed (pick (keptPlaces lines) 0 (LineProgram.ofLines options [] lines)) := by
  have retains := LineProgram.retains_keptPlaces readable
  intro s name member uses
  obtain ⟨d, line⟩ := List.mem_iff_getElem?.1 member
  obtain ⟨k, live, line, -⟩ := exists_of_pick_getElem? line
  obtain ⟨j, label⟩ := List.mem_iff_getElem?.1 (closed s name (List.mem_of_getElem? line) uses)
  exact List.mem_of_getElem? (LineProgram.pick_line label (retains.referred line live uses label))

/-- The kept lines are accepted, and every one of them reads the value that it reads among all lines. -/
def SameValues (options : Options) (lines : List Line) : Prop :=
  (∃ shaken, (lower { options } (reachableLines lines)).1 = .ok shaken) ∧
    ∀ k l name, keptPlaces lines k = true → lines[k]? = some l → l.reads? = some name →
      valueAt options (reachableLines lines) (rank (keptPlaces lines) k) name =
        valueAt options lines k name

/-- For every variable that a kept line reads, the first definition in a kept line before it gives the value
    that the first definition of all gives. -/
def SameDefinitions (options : Options) (lines : List Line) : Prop :=
  ∀ k l name, keptPlaces lines k = true → lines[k]? = some l → l.reads? = some name →
    LineProgram.firstValue?
        (pick (keptPlaces lines) 0 ((LineProgram.ofLines options [] lines).take k)) name =
      LineProgram.firstValue? ((LineProgram.ofLines options [] lines).take k) name

/-- Where all values are the same, so are the definitions that are read. -/
theorem sameDefinitions_of_sameValues (accepted : (lower { options } lines).1 = .ok lowered)
    (values : SameValues options lines) : SameDefinitions options lines := by
  obtain ⟨readable, -, -⟩ := lower_eq_ok_iff.1 accepted
  obtain ⟨⟨shaken, accepted'⟩, same⟩ := values
  rw [reachableLines_eq_pick] at accepted' same
  obtain ⟨readable', -, -⟩ := lower_eq_ok_iff.1 accepted'
  have statements := ofLines_pick_of_values readable readable' same
  intro k l name kept line reads
  rw [← valueAt_pick readable' statements, ← valueAt_eq readable]
  exact same k l name kept line reads

/-- Where the definitions that are read are the same, so are all values. -/
theorem sameValues_of_sameDefinitions (accepted : (lower { options } lines).1 = .ok lowered)
    (definitions : SameDefinitions options lines) : SameValues options lines := by
  obtain ⟨readable, closed, -⟩ := lower_eq_ok_iff.1 accepted
  have same : ∀ i l name, lines[i]? = some l → keptPlaces lines (0 + i) = true →
      l.reads? = some name →
      (LineProgram.variablesAfter []
          (pick (keptPlaces lines) 0 ((LineProgram.ofLines options [] lines).take i))).value? name =
        (LineProgram.variablesAfter [] ((LineProgram.ofLines options [] lines).take i)).value? name := by
    intro i l name line kept reads
    rw [Nat.zero_add] at kept
    rw [value?_variablesAfter, value?_variablesAfter, definitions i l name kept line reads]
  obtain ⟨readable', statements⟩ := readable_pick_of_reads readable same
  have closed' := closed_pick_keptPlaces readable closed
  rw [← statements] at closed'
  unfold SameValues
  rw [reachableLines_eq_pick]
  refine ⟨⟨_, lower_eq_ok_iff.2 ⟨readable', closed', rfl⟩⟩, ?_⟩
  intro k l name kept line reads
  rw [valueAt_pick readable' statements, valueAt_eq readable]
  exact definitions k l name kept line reads

/-- Dropping dead lines keeps the others acceptable, with the values that they read, exactly if it keeps what
    the first definitions of these variables give. -/
theorem sameValues_iff (accepted : (lower { options } lines).1 = .ok lowered) :
    SameValues options lines ↔ SameDefinitions options lines :=
  ⟨sameDefinitions_of_sameValues accepted, sameValues_of_sameDefinitions accepted⟩

/-- Items that are dropped make no difference to the first value unless they are the first to give one. -/
theorem firstValue?_pick {p : LineProgram} {name : String}
    (kept : ∀ j value, givenValue? name p[j]?.join = some value →
      (∀ i < j, givenValue? name p[i]?.join = none) → keep (start + j) = true) :
    LineProgram.firstValue? (pick keep start p) name = p.firstValue? name := by
  unfold LineProgram.firstValue?
  induction p generalizing start with
  | nil => rfl
  | cons s? rest ih =>
      rw [pick, List.findSome?_cons]
      cases gives : givenValue? name s? with
      | some value =>
          have here : keep start = true := kept 0 value gives fun i below => absurd below (Nat.not_lt_zero i)
          rw [if_pos here, List.findSome?_cons, gives]
      | none =>
          have others : List.findSome? (givenValue? name) (pick keep (start + 1) rest) =
              List.findSome? (givenValue? name) rest := by
            apply ih
            intro j value given first
            rw [succ_add_place]
            apply kept (j + 1) value given
            intro i below
            cases i with
            | zero => exact gives
            | succ i => exact first i (Nat.lt_of_succ_lt_succ below)
          split
          · rw [List.findSome?_cons, gives]
            exact others
          · exact others

/-- It is enough that no line is dropped that is the first to define a variable which a kept line reads. -/
theorem sameValues_of_first_kept (accepted : (lower { options } lines).1 = .ok lowered)
    (kept : ∀ k l name, keptPlaces lines k = true → lines[k]? = some l → l.reads? = some name →
      ∀ j value, givenValue? name ((LineProgram.ofLines options [] lines).take k)[j]?.join = some value →
        (∀ i < j, givenValue? name ((LineProgram.ofLines options [] lines).take k)[i]?.join = none) →
        keptPlaces lines j = true) : SameValues options lines := by
  apply sameValues_of_sameDefinitions accepted
  intro k l name here line reads
  apply firstValue?_pick
  intro j value gives first
  rw [Nat.zero_add]
  exact kept k l name here line reads j value gives first

end

/-! ### Lines of which one is jumped over -/

/-- The conducts of five lines of which the first jumps over the second. -/
def jumpOver : List Conduct :=
  [⟨none, some "on", false⟩, ⟨none, none, true⟩, ⟨some "on", none, true⟩, ⟨none, none, true⟩,
    ⟨none, none, true⟩]

/-- Control jumps over the definition and reaches the other lines. -/
theorem live_jumpOver {k : Nat} : Live jumpOver k ↔ k < 5 ∧ k ≠ 1 := by
  constructor
  · intro live
    induction live with
    | first => decide
    | @following k c d _ here continues next _ =>
        refine ⟨(List.getElem?_eq_some_iff.1 next).1, ?_⟩
        rintro second
        obtain rfl : k = 0 := Nat.succ.inj second
        cases here
        cases continues
    | @referred k j c d name _ _ _ there marks _ =>
        refine ⟨(List.getElem?_eq_some_iff.1 there).1, ?_⟩
        rintro rfl
        cases there
        cases marks
  · rintro ⟨below, other⟩
    have target : Live jumpOver 2 := .referred (.first rfl) rfl rfl rfl rfl
    have third : Live jumpOver 3 := .following target rfl rfl rfl
    match k, below, other with
    | 0, _, _ => exact .first rfl
    | 2, _, _ => exact target
    | 3, _, _ => exact third
    | 4, _, _ => exact .following third rfl rfl rfl

/-- Of lines with these conducts all but the second are kept. -/
theorem keptPlaces_jumpOver {lines : List Line} (conducts : lines.map Line.conduct = jumpOver) (k : Nat) :
    keptPlaces lines k = decide (k ≠ 1) := by
  have length : lines.length = 5 := by
    have lengths := congrArg List.length conducts
    rw [List.length_map] at lengths
    exact lengths
  rw [Bool.eq_iff_iff, keptPlaces_iff, length, conducts, live_jumpOver, decide_eq_true_iff]
  omega

/-- The first line jumps over the second, which defines a variable. The variable is defined again, with the
    same value, where control goes on. -/
def redefined : List Line :=
  [⟨"main", 1, [.word "jump", .word "on"]⟩,
    ⟨"main", 2, [.word "valueinteger", .variable "_x", .integer 5]⟩,
    ⟨"main", 3, [.word "label", .word "on"]⟩,
    ⟨"main", 4, [.word "valueinteger", .variable "_x", .integer 5]⟩,
    ⟨"main", 5, [.word "push", .variable "_x"]⟩]

/-- The first definition is dropped, and the value stays the same. -/
theorem sameValues_redefined : SameValues {} redefined := by
  have accepted : (lower {} redefined).1 =
      .ok ⟨[.flow (.jump ⟨0⟩), .flow (.mark ⟨0⟩), pushOf 5], []⟩ := by
    decide +kernel
  have conducts : redefined.map Line.conduct = jumpOver := by decide +kernel
  have kept : keptPlaces redefined = fun k => decide (k ≠ 1) := funext (keptPlaces_jumpOver conducts)
  have others : ∀ l ∈ redefined.take 4, l.reads? = none := by decide +kernel
  apply (sameValues_iff accepted).2
  intro k l name _ line reads
  rw [kept]
  rcases Nat.lt_trichotomy k 4 with before | rfl | past
  · have member : l ∈ redefined.take 4 := by
      apply List.mem_of_getElem? (i := k)
      rw [List.getElem?_take_of_lt before]
      exact line
    rw [others l member] at reads
    cases reads
  · have last : Line.reads? ⟨"main", 5, [.word "push", .variable "_x"]⟩ = some "_x" := by decide +kernel
    cases line
    rw [last] at reads
    cases reads
    decide +kernel
  · have beyond : redefined[k]? = none := List.getElem?_eq_none past
    rw [beyond] at line
    cases line

/-- The same lines without the second definition. -/
def guarded : List Line :=
  [⟨"main", 1, [.word "jump", .word "on"]⟩,
    ⟨"main", 2, [.word "valueinteger", .variable "_x", .integer 5]⟩,
    ⟨"main", 3, [.word "label", .word "on"]⟩,
    ⟨"main", 4, [.word "push", .variable "_x"]⟩,
    ⟨"main", 5, [.word "exit"]⟩]

/-- The lines are accepted, and those that control can reach are not. -/
theorem not_sameValues_guarded :
    (∃ lowered, (lower {} guarded).1 = .ok lowered) ∧
      ¬ ∃ shaken, (lower {} (reachableLines guarded)).1 = .ok shaken := by
  have conducts : guarded.map Line.conduct = jumpOver := by decide +kernel
  have kept : keptPlaces guarded = fun k => decide (k ≠ 1) := funext (keptPlaces_jumpOver conducts)
  constructor
  · refine ⟨⟨[.flow (.jump ⟨0⟩), .flow (.mark ⟨0⟩), pushOf 5, .flow .exit], []⟩, ?_⟩
    decide +kernel
  · rintro ⟨shaken, accepted⟩
    rw [reachableLines_eq_pick, kept] at accepted
    have refused : (lower {} (pick (fun k => decide (k ≠ 1)) 0 guarded)).1 =
        .error ⟨"main", 4, .argument (.undefinedVariable "_x")⟩ := by
      decide +kernel
    rw [refused] at accepted
    cases accepted

end Whitespace.Assembly
