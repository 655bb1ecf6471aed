/-
Module: Whitespace.Proofs.ReachableLines
Purpose: The lines that are left are those at the places that control can go to from the first line, step
  by step, each of them once and in their order. Where control goes from a line is told by the texts of
  the lines alone. Nothing is left to drop afterwards: what control reaches it also reaches when the other
  lines are gone, because no step leads to one of them.
Main exports: Leads, live_iff_reflTransGen, exists_places_reachableLines, reachableLines_reachableLines,
  reachableLines_exact
-/
import Mathlib.Logic.Relation
import Whitespace.Proofs.BlockSearch

namespace Whitespace.Assembly

/-! ### Steps of control -/

/-- Control can go from the line at the first place to the line at the second: to the next line, or to any
    line that defines the label which a call or a jump names by its first argument. The lines may be wrong
    in every other way. -/
inductive Leads (lines : List Line) : Nat → Nat → Prop where
  | next {i : Nat} {l : Line} : lines[i]? = some l → l.opcodeText ≠ "jump" → l.opcodeText ≠ "ret" →
      i + 1 < lines.length → Leads lines i (i + 1)
  | label {i j : Nat} {l m : Line} {name : String} : lines[i]? = some l →
      l.opcodeText = "call" ∨ "jump".toList <+: l.opcodeText.toList → l.labelName? = some name →
      lines[j]? = some m → m.opcodeText = "label" → m.labelName? = some name → Leads lines i j

/-- The line is one that control reaches after any number of steps from the first line. -/
theorem live_iff_reflTransGen {lines : List Line} {k : Nat} : Live (lines.map Line.conduct) k ↔
    k < lines.length ∧ Relation.ReflTransGen (Leads lines) 0 k := by
  constructor
  · intro live
    induction live with
    | first here =>
        obtain ⟨l, line, -⟩ := exists_line_of_conduct here
        exact ⟨(List.getElem?_eq_some_iff.1 line).1, .refl⟩
    | following _ before continues here ih =>
        obtain ⟨l, line, rfl⟩ := exists_line_of_conduct before
        obtain ⟨m, target, -⟩ := exists_line_of_conduct here
        have bound := (List.getElem?_eq_some_iff.1 target).1
        obtain ⟨noJump, noReturn⟩ := Line.continues_iff.1 continues
        exact ⟨bound, ih.2.tail (.next line noJump noReturn bound)⟩
    | referred _ before refers here marks ih =>
        obtain ⟨l, line, rfl⟩ := exists_line_of_conduct before
        obtain ⟨m, target, rfl⟩ := exists_line_of_conduct here
        have bound := (List.getElem?_eq_some_iff.1 target).1
        obtain ⟨opcode, name⟩ := Line.refersTo_eq_some_iff.1 refers
        obtain ⟨label, same⟩ := Line.marksLabel_eq_some_iff.1 marks
        exact ⟨bound, ih.2.tail (.label line opcode name target label same)⟩
  · rintro ⟨bound, steps⟩
    induction steps with
    | refl => exact .first (conduct_of_line (List.getElem?_eq_getElem bound))
    | tail _ step ih =>
        cases step with
        | next before noJump noReturn _ =>
            have live := ih (List.getElem?_eq_some_iff.1 before).1
            exact .following live (conduct_of_line before) (Line.continues_iff.2 ⟨noJump, noReturn⟩)
              (conduct_of_line (List.getElem?_eq_getElem bound))
        | label before opcode name here label same =>
            have live := ih (List.getElem?_eq_some_iff.1 before).1
            exact .referred live (conduct_of_line before) (Line.refersTo_eq_some_iff.2 ⟨opcode, name⟩)
              (conduct_of_line here) (Line.marksLabel_eq_some_iff.2 ⟨label, same⟩)

/-! ### What is left -/

/-- The places of what is picked, in their order. -/
theorem exists_places_pick {α : Type} (keep : Nat → Bool) (items : List α) :
    ∃ places : List Nat, places.Pairwise (· < ·) ∧
      (∀ k, k ∈ places ↔ k < items.length ∧ keep k = true) ∧
      (pick keep 0 items).map some = places.map (items[·]?) := by
  have picked : pick keep 0 items = (items.zipIdx.filter (keep ·.2)).map Prod.fst :=
    pick_eq_zipIdx keep 0 items
  refine ⟨(items.zipIdx.filter (keep ·.2)).map Prod.snd, ?_, ?_, ?_⟩
  · have all : (items.zipIdx.map Prod.snd).Pairwise (· < ·) := by
      rw [List.zipIdx_map_snd]
      exact List.pairwise_lt_range'
    exact all.sublist (List.filter_sublist.map Prod.snd)
  · intro k
    simp only [List.mem_map, List.mem_filter, Prod.exists, exists_eq_right, List.mem_zipIdx_iff_getElem?]
    constructor
    · rintro ⟨a, item, kept⟩
      exact ⟨(List.getElem?_eq_some_iff.1 item).1, kept⟩
    · rintro ⟨bound, kept⟩
      exact ⟨items[k], List.getElem?_eq_getElem bound, kept⟩
  · rw [picked, List.map_map, List.map_map]
    apply List.map_congr_left
    rintro ⟨a, k⟩ member
    exact (List.mem_zipIdx_iff_getElem?.1 (List.mem_of_mem_filter member)).symm

/-- The lines that are kept stand at the places that control can reach, in their order. -/
theorem exists_places_reachableLines (lines : List Line) :
    ∃ places : List Nat, places.Pairwise (· < ·) ∧
      (∀ k, k ∈ places ↔ k < lines.length ∧ Relation.ReflTransGen (Leads lines) 0 k) ∧
      (reachableLines lines).map some = places.map (lines[·]?) := by
  obtain ⟨places, sorted, member, items⟩ := exists_places_pick (keptPlaces lines) lines
  refine ⟨places, sorted, fun k => ?_, ?_⟩
  · rw [member, ← live_iff_reflTransGen]
    constructor
    · rintro ⟨bound, kept⟩
      exact (keptPlaces_iff_live (List.getElem?_eq_getElem bound)).1 kept
    · intro live
      exact ⟨(live_iff_reflTransGen.1 live).1, keptPlaces_iff.2 (.inr live)⟩
  · rw [reachableLines_eq_pick, items]

/-! ### Dropping lines twice -/

/-- What is live stays so, at its rank, when nothing that is live is left out. -/
theorem Live.into_kept {conducts : List Conduct} {keep : Nat → Bool} {k : Nat}
    (kept : ∀ k, Live conducts k → keep k = true) (live : Live conducts k) :
    Live (pick keep 0 conducts) (rank keep k) := by
  have item : ∀ {k c}, Live conducts k → conducts[k]? = some c →
      (pick keep 0 conducts)[rank keep k]? = some c :=
    fun live here => (pick_getElem? (kept _ live)).trans here
  induction live with
  | first here =>
      have first := item (.first here) here
      rw [rank_zero] at first ⊢
      exact .first first
  | following live before continues here ih =>
      have next := item (.following live before continues here) here
      rw [rank_succ_of_keep (kept _ live)] at next ⊢
      exact .following ih (item live before) continues next
  | referred live before refers here marks ih =>
      exact .referred ih (item live before) refers (item (.referred live before refers here marks) here) marks

/-- Of the lines that are kept none is dropped a second time. -/
theorem reachableLines_reachableLines (lines : List Line) :
    reachableLines (reachableLines lines) = reachableLines lines := by
  rw [reachableLines_eq_pick (reachableLines lines)]
  apply pick_eq_self
  intro d bound
  have here : (pick (keptPlaces lines) 0 lines)[d]? = some (reachableLines lines)[d] := by
    rw [← reachableLines_eq_pick]
    exact List.getElem?_eq_getElem bound
  obtain ⟨k, kept, item, place⟩ := exists_of_pick_getElem? here
  have live : Live (pick (keptPlaces lines) 0 (lines.map Line.conduct)) (rank (keptPlaces lines) k) :=
    Live.into_kept (fun k live => keptPlaces_iff.2 (.inr live)) ((keptPlaces_iff_live item).1 kept)
  rw [pick_map, ← reachableLines_eq_pick, ← place] at live
  rw [Nat.zero_add]
  exact keptPlaces_iff.2 (.inr live)

/-- Of any lines, right or wrong, those are left that control can get to from the first line: each of their
    places once, in their order, all places of a label that is defined twice included. The search by
    blocks leaves the same lines, and dropping lines twice is dropping them once. -/
theorem reachableLines_exact (lines : List Line) :
    (∃ places : List Nat, places.Pairwise (· < ·) ∧
      (∀ k, k ∈ places ↔ k < lines.length ∧ Relation.ReflTransGen (Leads lines) 0 k) ∧
      (reachableLines lines).map some = places.map (lines[·]?)) ∧
    shakeBlocks lines = reachableLines lines ∧
    reachableLines (reachableLines lines) = reachableLines lines :=
  ⟨exists_places_reachableLines lines, shakeBlocks_eq_reachableLines lines,
    reachableLines_reachableLines lines⟩

end Whitespace.Assembly
