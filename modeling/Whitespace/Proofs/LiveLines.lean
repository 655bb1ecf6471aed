/-
Module: Whitespace.Proofs.LiveLines
Purpose: The search for lines that control cannot reach finds exactly those. Which lines are live is said
  by rules, without a search: the first line is, the line after a live line that continues is, and so is
  every line that defines a label which a live line refers to.
Main exports: Found, mem_unreached_iff, Live, mem_unreachablePlaces_iff
-/
import Mathlib.Data.List.Basic
import Whitespace.Assembly.Reachability

namespace Whitespace.Assembly

/-! ### The search -/

/-- What a search finds that may only visit the places in `unseen`: those in `work`, and those that come
    next after places that were found. -/
inductive Found (next : Nat → List Nat) (unseen : Std.TreeSet Nat) (work : List Nat) : Nat → Prop where
  | root {k : Nat} : k ∈ unseen → k ∈ work → Found next unseen work k
  | edge {j k : Nat} : Found next unseen work j → k ∈ unseen → k ∈ next j → Found next unseen work k

section

variable {next : Nat → List Nat} {unseen : Std.TreeSet Nat} {work rest : List Nat} {place k : Nat}

/-- What is found once the first place has been visited is found. -/
theorem Found.of_erase (here : place ∈ unseen)
    (h : Found next (unseen.erase place) (next place ++ rest) k) :
    Found next unseen (place :: rest) k := by
  induction h with
  | root inside start =>
      have member := Std.TreeSet.mem_of_mem_erase inside
      rcases List.mem_append.1 start with following | other
      · exact .edge (.root here List.mem_cons_self) member following
      · exact .root member (List.mem_cons_of_mem place other)
  | edge _ inside following ih => exact .edge ih (Std.TreeSet.mem_of_mem_erase inside) following

/-- Anything but the first place is found once that place has been visited. -/
theorem Found.erase (h : Found next unseen (place :: rest) k) (other : k ≠ place) :
    Found next (unseen.erase place) (next place ++ rest) k := by
  have kept : ∀ {j}, j ∈ unseen → j ≠ place → j ∈ unseen.erase place := by
    intro j inside different
    simpa [Std.TreeSet.mem_erase, Ne.symm different] using inside
  induction h with
  | root inside start =>
      rcases List.mem_cons.1 start with same | old
      · exact absurd same other
      · exact .root (kept inside other) (List.mem_append_right _ old)
  | @edge j k found inside following ih =>
      by_cases same : j = place
      · subst same
        exact .root (kept inside other) (List.mem_append_left _ following)
      · exact .edge (ih same) (kept inside other) following

/-- A place that was visited is passed over. -/
theorem Found.skip_iff (gone : place ∉ unseen) :
    Found next unseen (place :: rest) k ↔ Found next unseen rest k := by
  constructor
  · intro h
    induction h with
    | root inside start =>
        rcases List.mem_cons.1 start with rfl | old
        · exact absurd inside gone
        · exact .root inside old
    | edge _ inside following ih => exact .edge ih inside following
  · intro h
    induction h with
    | root inside start => exact .root inside (List.mem_cons_of_mem place start)
    | edge _ inside following ih => exact .edge ih inside following

/-- The search leaves over exactly the places that it cannot find. -/
theorem mem_unreached_iff :
    k ∈ unreached next unseen work ↔ k ∈ unseen ∧ ¬ Found next unseen work k := by
  fun_induction unreached next unseen work with
  | case1 unseen =>
      have nothing : ∀ {k}, ¬ Found next unseen [] k := by
        intro k h
        induction h with
        | root _ start => cases start
        | edge _ _ _ ih => exact ih
      simp [nothing]
  | case2 unseen place rest here ih =>
      rw [ih]
      by_cases same : k = place
      · subst same
        have found : Found next unseen (k :: rest) k := .root here List.mem_cons_self
        simp [found, Std.TreeSet.mem_erase]
      · have found : Found next (unseen.erase place) (next place ++ rest) k ↔
            Found next unseen (place :: rest) k := ⟨Found.of_erase here, fun h => h.erase same⟩
        rw [found]
        simp [Std.TreeSet.mem_erase, Ne.symm same]
  | case3 unseen place rest gone ih => rw [ih, Found.skip_iff gone]

end

/-! ### The conduct of lines -/

theorem Line.continues_iff {l : Line} :
    l.continues = true ↔ l.opcodeText ≠ "jump" ∧ l.opcodeText ≠ "ret" := by
  simp [continues]

theorem Line.marksLabel_eq_some_iff {l : Line} {name : String} :
    l.marksLabel = some name ↔ l.opcodeText = "label" ∧ l.labelName? = some name := by
  simp [marksLabel]

theorem Line.refersTo_eq_some_iff {l : Line} {name : String} :
    l.refersTo = some name ↔
      (l.opcodeText = "call" ∨ "jump".toList <+: l.opcodeText.toList) ∧ l.labelName? = some name := by
  simp [refersTo, or_comm]

section

variable {lines : List Line} {k : Nat}

theorem conduct_of_line {l : Line} (h : lines[k]? = some l) :
    (lines.map Line.conduct)[k]? = some l.conduct := by
  rw [List.getElem?_map, h, Option.map_some]

theorem exists_line_of_conduct {c : Conduct} (h : (lines.map Line.conduct)[k]? = some c) :
    ∃ l, lines[k]? = some l ∧ l.conduct = c := by
  rwa [List.getElem?_map, Option.map_eq_some_iff] at h

end

/-! ### The rules -/

/-- The places of the lines that control can reach. -/
inductive Live (conducts : List Conduct) : Nat → Prop where
  | first {c : Conduct} : conducts[0]? = some c → Live conducts 0
  | following {k : Nat} {c d : Conduct} : Live conducts k → conducts[k]? = some c →
      c.continues = true → conducts[k + 1]? = some d → Live conducts (k + 1)
  | referred {k j : Nat} {c d : Conduct} {name : String} : Live conducts k →
      conducts[k]? = some c → c.refersTo = some name → conducts[j]? = some d →
      d.marksLabel = some name → Live conducts j

/-- The places listed for a label are those of the lines that mark it. -/
theorem mem_placesOf_iff {conducts : List Conduct} {name : String} {j : Nat} :
    j ∈ placesOf (definitionsOf conducts.toArray) name ↔
      ∃ d, conducts[j]? = some d ∧ d.marksLabel = some name := by
  unfold placesOf definitionsOf
  simp only [List.mem_map, List.mem_filter, List.mem_filterMap, Option.map_eq_some_iff, Prod.exists,
    decide_eq_true_eq]
  constructor
  · rintro ⟨defined, _, ⟨⟨d, j', mem, label, marks, same⟩, rfl⟩, rfl⟩
    cases same
    exact ⟨d, (List.mem_zipIdx_iff_getElem?).1 mem, marks⟩
  · rintro ⟨d, here, marks⟩
    exact ⟨name, j, ⟨⟨d, j, (List.mem_zipIdx_iff_getElem?).2 here, name, marks, rfl⟩, rfl⟩, rfl⟩

/-- The places that control goes to from a line are those that the rules name. -/
theorem mem_successors_iff {conducts : List Conduct} {k j : Nat} :
    j ∈ successors conducts.toArray (definitionsOf conducts.toArray) k ↔
      ∃ c, conducts[k]? = some c ∧
        ((c.continues = true ∧ j = k + 1) ∨
          ∃ name d, c.refersTo = some name ∧ conducts[j]? = some d ∧ d.marksLabel = some name) := by
  unfold successors
  rw [List.getElem?_toArray]
  cases here : conducts[k]? with
  | none => simp
  | some c =>
      simp only [Option.some.injEq, exists_eq_left']
      cases refers : c.refersTo with
      | none => cases continues : c.continues <;> simp
      | some name =>
          simp only [List.mem_append, mem_placesOf_iff]
          cases continues : c.continues <;> simp

/-- The search from the first line finds exactly the lines that control can reach. -/
theorem found_iff_live {conducts : List Conduct} {k : Nat} :
    Found (successors conducts.toArray (definitionsOf conducts.toArray))
      (.ofList (List.range conducts.length)) [0] k ↔ Live conducts k := by
  have inside : ∀ {j}, j ∈ Std.TreeSet.ofList (List.range conducts.length) ↔
      ∃ d, conducts[j]? = some d := by
    intro j
    simp [Std.TreeSet.mem_ofList, List.getElem?_eq_some_iff]
  constructor
  · intro h
    induction h with
    | root known start =>
        obtain rfl := List.mem_singleton.1 start
        obtain ⟨d, here⟩ := inside.1 known
        exact .first here
    | edge _ known next ih =>
        obtain ⟨c, before, ⟨continues, rfl⟩ | ⟨name, d, refers, here, marks⟩⟩ :=
          mem_successors_iff.1 next
        · obtain ⟨d, here⟩ := inside.1 known
          exact .following ih before continues here
        · exact .referred ih before refers here marks
  · intro h
    induction h with
    | first here => exact .root (inside.2 ⟨_, here⟩) (List.mem_singleton.2 rfl)
    | following _ before continues here ih =>
        refine .edge ih (inside.2 ⟨_, here⟩) (mem_successors_iff.2 ⟨_, before, ?_⟩)
        exact .inl ⟨continues, rfl⟩
    | referred _ before refers here marks ih =>
        refine .edge ih (inside.2 ⟨_, here⟩) (mem_successors_iff.2 ⟨_, before, ?_⟩)
        exact .inr ⟨_, _, refers, here, marks⟩

/-- The places that are dropped are exactly those of lines that are not live. -/
theorem mem_unreachablePlaces_iff {lines : List Line} {k : Nat} :
    k ∈ unreachablePlaces lines ↔ k < lines.length ∧ ¬ Live (lines.map Line.conduct) k := by
  unfold unreachablePlaces
  simp only [List.size_toArray, List.length_map]
  rw [mem_unreached_iff]
  have found := @found_iff_live (lines.map Line.conduct) k
  rw [List.length_map] at found
  rw [found]
  simp [Std.TreeSet.mem_ofList]

end Whitespace.Assembly
