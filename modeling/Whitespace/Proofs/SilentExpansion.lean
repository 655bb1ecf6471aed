/-
Module: Whitespace.Proofs.SilentExpansion
Purpose: Following includes takes notice only of what lines say. The expansions that succeed are given by
  rules, one for each thing a line can ask for; by these rules, texts that say the same expand to lines
  that say the same, with the same sources included.
Main exports: Expands, expand_eq_ok_iff, Line.saying?, Expands.congr
-/
import Whitespace.Assembly.Expansion
import Whitespace.Proofs.SilentText

namespace Whitespace.Assembly

/-! ### Expansion by rules -/

def inclusion? : List Token → Option (List Token)
  | .word word :: arguments => if isInclude word then some arguments else none
  | _ => none

/-- The line with its tokens, unless it has none. -/
def PendingLine.made (line : PendingLine) : List Token → List Line
  | [] => []
  | tokens => [⟨line.source, line.number, tokens⟩]

/-- The expansions that succeed, with the context after them and the lines they give. -/
inductive Expands (catalogue : Catalogue) :
    Context → List PendingLine → Context → List Line → Prop where
  | done (ctx : Context) : Expands catalogue ctx [] ctx []
  | kept {ctx ctx' : Context} {line : PendingLine} {rest : List PendingLine} {tokens : List Token}
      {lines : List Line} : tokenize line.text = .ok tokens → inclusion? tokens = none →
      Expands catalogue ctx rest ctx' lines →
      Expands catalogue ctx (line :: rest) ctx' (line.made tokens ++ lines)
  | again {ctx ctx' : Context} {line : PendingLine} {rest : List PendingLine}
      {tokens arguments : List Token} {name : String} {lines : List Line} :
      tokenize line.text = .ok tokens → inclusion? tokens = some arguments →
      includeTarget arguments = .ok name → ctx.hasIncluded name = true →
      Expands catalogue ctx rest ctx' lines → Expands catalogue ctx (line :: rest) ctx' lines
  | fresh {ctx ctx' : Context} {line : PendingLine} {rest : List PendingLine}
      {tokens arguments : List Token} {name text : String} {lines : List Line} :
      tokenize line.text = .ok tokens → inclusion? tokens = some arguments →
      includeTarget arguments = .ok name → ctx.hasIncluded name = false →
      catalogue.find ctx.options name = .ok text →
      Expands catalogue (ctx.markIncluded name) (pendingLines name text ++ rest)
        ctx' lines →
      Expands catalogue ctx (line :: rest) ctx' lines

section

variable {catalogue : Catalogue} {ctx ctx' : Context} {pending : List PendingLine} {lines : List Line}

/-- Tokens that do not begin with the word `include` ask for nothing. -/
theorem inclusion?_eq_none {tokens : List Token}
    (h : ∀ word arguments, tokens = .word word :: arguments → isInclude word = false) :
    inclusion? tokens = none := by
  unfold inclusion?
  split
  · next word arguments =>
      rw [h word arguments rfl]
      rfl
  · rfl

theorem PendingLine.made_of_ne_nil (line : PendingLine) {tokens : List Token} (h : tokens ≠ []) :
    line.made tokens = [⟨line.source, line.number, tokens⟩] := by
  cases tokens with
  | nil => exact absurd rfl h
  | cons t more => rfl

/-- The first line decides how an expansion goes on. -/
theorem expand_cons (catalogue : Catalogue) (ctx : Context) (line : PendingLine)
    (rest : List PendingLine) :
    expand catalogue ctx (line :: rest) =
      match tokenize line.text with
      | .error e => .error ⟨line.source, line.number, .lex e⟩
      | .ok tokens =>
        match inclusion? tokens with
        | none =>
          (expand catalogue ctx rest).map fun (ctx, lines) => (ctx, line.made tokens ++ lines)
        | some arguments =>
          match includeTarget arguments with
          | .error cause => .error ⟨line.source, line.number, cause⟩
          | .ok name =>
            if ctx.hasIncluded name then expand catalogue ctx rest
            else
              match catalogue.find ctx.options name with
              | .error e => .error ⟨line.source, line.number, .inclusion name (.unresolved e)⟩
              | .ok text =>
                expand catalogue (ctx.markIncluded name)
                  (pendingLines name text ++ rest) := by
  rw [expand]
  split
  · next e read => rw [read]
  · next read =>
      rw [read]
      cases expand catalogue ctx rest <;> rfl
  · next word arguments read =>
      simp only [read, inclusion?]
      by_cases asks : isInclude word = true
      · rw [if_pos asks, if_pos asks]
        simp only
        cases includeTarget arguments with
        | error cause => rfl
        | ok name =>
            simp only
            split
            · rfl
            · split
              · next e found => simp only [found]
              · next text found => simp only [found]
      · rw [if_neg asks, if_neg asks]
        rfl
  · next tokens nonempty wordless read =>
      have plain : inclusion? tokens = none :=
        inclusion?_eq_none fun word arguments same => absurd same (wordless word arguments)
      simp only [read, plain, line.made_of_ne_nil nonempty]
      rfl

/-- A line that asks for no include leaves the rest to be expanded. -/
theorem exists_of_expand_kept {line : PendingLine} {rest : List PendingLine} {tokens : List Token}
    (read : tokenize line.text = .ok tokens) (plain : inclusion? tokens = none)
    (h : expand catalogue ctx (line :: rest) = .ok (ctx', lines)) :
    ∃ others, expand catalogue ctx rest = .ok (ctx', others) ∧ lines = line.made tokens ++ others := by
  simp only [expand_cons, read, plain] at h
  cases expanded : expand catalogue ctx rest with
  | error e =>
      rw [expanded] at h
      cases h
  | ok result =>
      rw [expanded] at h
      cases h
      exact ⟨_, rfl, rfl⟩

/-- An expansion that succeeds is described by the relation. -/
theorem expands_of_expand (h : expand catalogue ctx pending = .ok (ctx', lines)) :
    Expands catalogue ctx pending ctx' lines := by
  induction ctx, pending using expand.induct catalogue generalizing ctx' lines with
  | case1 ctx =>
      rw [expand] at h
      cases h
      exact .done ctx
  | case2 ctx line rest e read ih =>
      simp [expand_cons, read] at h
  | case3 ctx line rest read ih =>
      obtain ⟨others, expanded, rfl⟩ := exists_of_expand_kept read rfl h
      exact .kept read rfl (ih expanded)
  | case4 ctx line rest word arguments read asks cause target ih =>
      simp [expand_cons, read, inclusion?, asks, target] at h
  | case5 ctx line rest word arguments read asks name target already ih =>
      have asked : inclusion? (.word word :: arguments) = some arguments := if_pos asks
      simp only [expand_cons, read, asked, target, already, if_true] at h
      exact .again read asked target already (ih h)
  | case6 ctx line rest word arguments read asks name target new e found ih =>
      simp [expand_cons, read, inclusion?, asks, target, new, found] at h
  | case7 ctx line rest word arguments read asks name target new text found _ _ ih =>
      have asked : inclusion? (.word word :: arguments) = some arguments := if_pos asks
      simp only [expand_cons, read, asked, target, new, found] at h
      exact .fresh read asked target (by simpa using new) found (ih h)
  | case8 ctx line rest word arguments read plain ih =>
      have unasked : inclusion? (.word word :: arguments) = none := if_neg plain
      obtain ⟨others, expanded, rfl⟩ := exists_of_expand_kept read unasked h
      exact .kept read unasked (ih expanded)
  | case9 ctx line rest tokens nonempty wordless read ih =>
      have unasked : inclusion? tokens = none :=
        inclusion?_eq_none fun word arguments same => absurd same (wordless word arguments)
      obtain ⟨others, expanded, rfl⟩ := exists_of_expand_kept read unasked h
      exact .kept read unasked (ih expanded)

/-- An expansion succeeds exactly when the rules derive it. -/
theorem expand_eq_ok_iff :
    expand catalogue ctx pending = .ok (ctx', lines) ↔ Expands catalogue ctx pending ctx' lines := by
  constructor
  · exact expands_of_expand
  intro h
  induction h with
  | done ctx => rw [expand]
  | kept read plain _ ih =>
      simp only [expand_cons, read, plain, ih]
      rfl
  | again read asked target already _ ih =>
      simp only [expand_cons, read, asked, target, already, if_true]
      exact ih
  | fresh read asked target new found _ ih =>
      simp only [expand_cons, read, asked, target, new, found]
      exact ih

end

/-! ### Lines that say the same -/

/-- What a line with its tokens says, unless it is a remark. -/
def Line.saying? (l : Line) : Option (List Token) :=
  match l.tokens.map Token.erased with
  | [] | .decoration _ :: _ => none
  | tokens => some tokens

theorem reading_of_significant? {text : List Char} {r : Except LexError (List Token)}
    (h : significant? text = some r) : reading text = r := by
  unfold significant? at h
  split at h
  · cases h
  · cases h
  · exact Option.some.inj h

/-- A line whose reading is known has tokens with that reading. -/
theorem tokenize_of_reading {text : List Char} {erased : List Token} (h : reading text = .ok erased) :
    ∃ tokens, tokenize text = .ok tokens ∧ tokens.map Token.erased = erased := by
  unfold reading at h
  cases read : tokenize text with
  | error e =>
      rw [read] at h
      cases h
  | ok tokens =>
      rw [read] at h
      cases h
      exact ⟨tokens, rfl, rfl⟩

theorem Token.eq_of_erased {t u : Token} (h : t.erased = u.erased)
    (plain : u.kind ≠ .decoration) : t = u := by
  cases u with
  | decoration text => exact absurd rfl plain
  | _ =>
      cases t <;> cases h
      rfl

section

variable {tokens tokens' : List Token}

/-- The line made of tokens says what the tokens say, if anything. -/
theorem saying?_made (line : PendingLine) (tokens : List Token) :
    (line.made tokens).filterMap Line.saying? =
      (Line.saying? ⟨line.source, line.number, tokens⟩).toList := by
  cases tokens with
  | nil => rfl
  | cons t more =>
      rw [PendingLine.made, List.filterMap_cons]
      · cases Line.saying? ⟨line.source, line.number, t :: more⟩ <;> rfl
      · nofun

/-- Remarks are no part of what is included. -/
theorem inclusion?_erased (tokens : List Token) :
    inclusion? (tokens.map Token.erased) = (inclusion? tokens).map (List.map Token.erased) := by
  cases tokens with
  | nil => rfl
  | cons t more =>
      cases t with
      | word name =>
          simp only [List.map_cons, Token.erased, inclusion?]
          split <;> rfl
      | _ => rfl

/-- Whether a line asks for an include does not depend on its remarks. -/
theorem inclusion?_of_erased (same : tokens'.map Token.erased = tokens.map Token.erased) :
    (inclusion? tokens').map (List.map Token.erased) =
      (inclusion? tokens).map (List.map Token.erased) := by
  rw [← inclusion?_erased, same, inclusion?_erased]

/-- The source that is asked for does not depend on remarks. -/
theorem includeTarget_of_erased {arguments arguments' : List Token} {name : String}
    (same : arguments'.map Token.erased = arguments.map Token.erased)
    (h : includeTarget arguments = .ok name) : includeTarget arguments' = .ok name := by
  have single : ∃ t, arguments = [t] ∧ t.kind ≠ .decoration := by
    unfold includeTarget at h
    split at h
    · exact ⟨_, rfl, nofun⟩
    · exact ⟨_, rfl, nofun⟩
    · exact ⟨_, rfl, nofun⟩
    · cases h
  obtain ⟨t, rfl, plain⟩ := single
  rw [List.map_singleton, List.map_eq_singleton_iff] at same
  obtain ⟨t', rfl, erased⟩ := same
  rw [Token.eq_of_erased erased plain]
  exact h

end

section

variable {catalogue : Catalogue} {ctx ctx' : Context} {lines : List Line}

/-- What the lines of a list that are still to be expanded say. -/
def pendingSayings (pending : List PendingLine) : List (Except LexError (List Token)) :=
  pending.filterMap fun line => significant? line.text

theorem pendingSayings_append (first rest : List PendingLine) :
    pendingSayings (first ++ rest) = pendingSayings first ++ pendingSayings rest :=
  List.filterMap_append

/-- A line without significance is read without error, includes nothing and says nothing. -/
theorem tokenize_of_not_significant {text : List Char} (h : significant? text = none) :
    ∃ tokens, tokenize text = .ok tokens ∧ inclusion? tokens = none ∧
      ∀ source number, Line.saying? ⟨source, number, tokens⟩ = none := by
  have silent : ∃ erased, reading text = .ok erased ∧ inclusion? erased = none ∧
      (erased = [] ∨ ∃ remark more, erased = .decoration remark :: more) := by
    unfold significant? at h
    split at h
    · next read => exact ⟨_, read, rfl, .inl rfl⟩
    · next remark more read => exact ⟨_, read, rfl, .inr ⟨remark, more, rfl⟩⟩
    · cases h
  obtain ⟨erased, read, plain, form⟩ := silent
  obtain ⟨tokens, tokenized, rfl⟩ := tokenize_of_reading read
  rw [inclusion?_erased, Option.map_eq_none_iff] at plain
  refine ⟨tokens, tokenized, plain, ?_⟩
  intro source number
  unfold Line.saying?
  rcases form with empty | ⟨remark, more, remarked⟩
  · rw [empty]
  · rw [remarked]

/-- A line that says something has a counterpart in every list of lines that says the same. -/
theorem exists_counterpart {line : PendingLine} {rest pending' : List PendingLine} {tokens : List Token}
    (read : tokenize line.text = .ok tokens) (speaks : significant? line.text ≠ none)
    (same : pendingSayings pending' = pendingSayings (line :: rest)) :
    ∃ before line' rest' tokens', pending' = before ++ line' :: rest' ∧
      (∀ silent ∈ before, significant? silent.text = none) ∧ tokenize line'.text = .ok tokens' ∧
      tokens'.map Token.erased = tokens.map Token.erased ∧
      pendingSayings rest' = pendingSayings rest := by
  obtain ⟨r, said⟩ := Option.ne_none_iff_exists'.1 speaks
  have first : pendingSayings (line :: rest) = r :: pendingSayings rest := List.filterMap_cons_some said
  rw [first] at same
  obtain ⟨before, line', rest', rfl, silent, said', others⟩ := List.filterMap_eq_cons_iff.1 same
  have whole : reading line.text = .ok (tokens.map Token.erased) := by
    unfold reading
    rw [read]
    rfl
  have agreed := reading_of_significant? said'
  rw [← reading_of_significant? said, whole] at agreed
  obtain ⟨tokens', read', erased⟩ := tokenize_of_reading agreed
  exact ⟨before, line', rest', tokens', rfl, silent, read', erased, others⟩

/-- A line that says nothing gives no line or a remark. -/
theorem Expands.cons_silent {line : PendingLine} {rest : List PendingLine}
    (silent : significant? line.text = none) (h : Expands catalogue ctx rest ctx' lines) :
    ∃ more, Expands catalogue ctx (line :: rest) ctx' more ∧
      more.filterMap Line.saying? = lines.filterMap Line.saying? := by
  obtain ⟨tokens, read, plain, nothing⟩ := tokenize_of_not_significant silent
  refine ⟨line.made tokens ++ lines, .kept read plain h, ?_⟩
  rw [List.filterMap_append, saying?_made, nothing]
  rfl

/-- Silent lines in front are passed over. -/
theorem Expands.append_silent {before rest : List PendingLine}
    (silent : ∀ line ∈ before, significant? line.text = none)
    (h : Expands catalogue ctx rest ctx' lines) :
    ∃ more, Expands catalogue ctx (before ++ rest) ctx' more ∧
      more.filterMap Line.saying? = lines.filterMap Line.saying? := by
  induction before with
  | nil => exact ⟨lines, h, rfl⟩
  | cons line before ih =>
      rw [List.forall_mem_cons] at silent
      obtain ⟨more, expanded, same⟩ := ih silent.2
      obtain ⟨most, expanded', same'⟩ := expanded.cons_silent silent.1
      exact ⟨most, expanded', same'.trans same⟩

/-- A line that includes something is significant. -/
theorem significant_of_inclusion {text : List Char} {tokens arguments : List Token}
    (read : tokenize text = .ok tokens) (asked : inclusion? tokens = some arguments) :
    significant? text ≠ none := by
  intro silent
  obtain ⟨tokens', read', plain, -⟩ := tokenize_of_not_significant silent
  rw [read] at read'
  cases read'
  rw [asked] at plain
  cases plain

/-- A line with the same tokens, but for remarks, includes the same source. -/
theorem exists_inclusion {tokens tokens' arguments : List Token} {name : String}
    (erased : tokens'.map Token.erased = tokens.map Token.erased)
    (asked : inclusion? tokens = some arguments) (target : includeTarget arguments = .ok name) :
    ∃ arguments', inclusion? tokens' = some arguments' ∧ includeTarget arguments' = .ok name := by
  have agreed := inclusion?_of_erased erased
  rw [asked, Option.map_some, Option.map_eq_some_iff] at agreed
  obtain ⟨arguments', asked', same⟩ := agreed
  exact ⟨arguments', asked', includeTarget_of_erased same target⟩

/-- Lists of lines that say the same expand to lines that say the same. -/
theorem Expands.congr {pending pending' : List PendingLine}
    (h : Expands catalogue ctx pending ctx' lines)
    (same : pendingSayings pending' = pendingSayings pending) :
    ∃ lines', Expands catalogue ctx pending' ctx' lines' ∧
      lines'.filterMap Line.saying? = lines.filterMap Line.saying? := by
  induction h generalizing pending' with
  | done ctx =>
      have silent : ∀ line ∈ pending', significant? line.text = none :=
        List.filterMap_eq_nil_iff.1 same
      have nothing : Expands catalogue ctx [] ctx [] := .done ctx
      have expanded := nothing.append_silent silent
      rwa [List.append_nil] at expanded
  | @kept ctx ctx' line rest tokens lines read plain _ ih =>
      by_cases silent : significant? line.text = none
      · have skipped : pendingSayings (line :: rest) = pendingSayings rest :=
          List.filterMap_cons_none silent
        rw [skipped] at same
        obtain ⟨lines', expanded, agreed⟩ := ih same
        obtain ⟨tokens₀, read₀, -, nothing⟩ := tokenize_of_not_significant silent
        obtain rfl : tokens = tokens₀ := Except.ok.inj (read.symm.trans read₀)
        refine ⟨lines', expanded, ?_⟩
        rw [List.filterMap_append, saying?_made, nothing, agreed]
        rfl
      · obtain ⟨before, line', rest', tokens', rfl, quiet, read', erased, others⟩ :=
          exists_counterpart read silent same
        obtain ⟨lines', expanded, agreed⟩ := ih others
        have plain' : inclusion? tokens' = none := by
          have asked := inclusion?_of_erased erased
          rwa [plain, Option.map_none, Option.map_eq_none_iff] at asked
        obtain ⟨more, expanded', agreed'⟩ := (Expands.kept read' plain' expanded).append_silent quiet
        refine ⟨more, expanded', ?_⟩
        have said : Line.saying? ⟨line'.source, line'.number, tokens'⟩ =
            Line.saying? ⟨line.source, line.number, tokens⟩ := by
          unfold Line.saying?
          rw [erased]
        rw [agreed', List.filterMap_append, List.filterMap_append, saying?_made, saying?_made, said, agreed]
  | again read asked target already _ ih =>
      obtain ⟨before, line', rest', tokens', rfl, quiet, read', erased, others⟩ :=
        exists_counterpart read (significant_of_inclusion read asked) same
      obtain ⟨lines', expanded, agreed⟩ := ih others
      obtain ⟨arguments', asked', target'⟩ := exists_inclusion erased asked target
      obtain ⟨more, expanded', agreed'⟩ :=
        (Expands.again read' asked' target' already expanded).append_silent quiet
      exact ⟨more, expanded', agreed'.trans agreed⟩
  | @fresh ctx ctx' line rest tokens arguments name text lines read asked target new found _ ih =>
      obtain ⟨before, line', rest', tokens', rfl, quiet, read', erased, others⟩ :=
        exists_counterpart read (significant_of_inclusion read asked) same
      have together : pendingSayings (pendingLines name text ++ rest') =
          pendingSayings (pendingLines name text ++ rest) := by
        rw [pendingSayings_append, pendingSayings_append, others]
      obtain ⟨lines', expanded, agreed⟩ := ih together
      obtain ⟨arguments', asked', target'⟩ := exists_inclusion erased asked target
      obtain ⟨more, expanded', agreed'⟩ :=
        (Expands.fresh read' asked' target' new found expanded).append_silent quiet
      exact ⟨more, expanded', agreed'.trans agreed⟩

end

end Whitespace.Assembly
